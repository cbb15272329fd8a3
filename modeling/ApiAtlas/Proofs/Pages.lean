import ApiAtlas.Proofs.FileTree
import ApiAtlas.Proofs.PageNames
import Mathlib

/-!
Writing pages. Each page changes its own file and nothing beside it, and leaves the way to the
directory as it was; so the directory ends up with the last page written under each name. Where no
name is given twice, every page is there in the end.
-/
namespace ApiAtlas

def Page.within (dir : Path) (file : Bytes × Bytes) : Page := ⟨dir.join ⟨file.1⟩, file.2⟩

/-- What stands under a name after files were written in turn: the last of that name, or what was
there before. -/
def heldAfter (name : Bytes) (files : List (Bytes × Bytes)) (before : Option Node) : Option Node :=
  files.foldl (fun held file => if file.1 = name then some (.file file.2) else held) before

theorem heldAfter_of_notMem {name : Bytes} {files : List (Bytes × Bytes)}
    (h : name ∉ files.map Prod.fst) (before : Option Node) :
    heldAfter name files before = before := by
  induction files with
  | nil => rfl
  | cons file files ih =>
    rw [List.map_cons, List.mem_cons, not_or] at h
    unfold heldAfter at ih ⊢
    rw [List.foldl_cons, if_neg (Ne.symm h.1), ih h.2]

theorem heldAfter_of_nodup {files : List (Bytes × Bytes)} (hnodup : (files.map Prod.fst).Nodup)
    {file : Bytes × Bytes} (hfile : file ∈ files) (before : Option Node) :
    heldAfter file.1 files before = some (.file file.2) := by
  induction files generalizing before with
  | nil => cases hfile
  | cons first files ih =>
    rw [List.map_cons, List.nodup_cons] at hnodup
    rcases List.mem_cons.1 hfile with rfl | hfile
    · have hrest := heldAfter_of_notMem hnodup.1 (some (.file file.2))
      unfold heldAfter at hrest ⊢
      rw [List.foldl_cons, if_pos rfl, hrest]
    · exact ih hnodup.2 hfile _

namespace FileTree

section

variable {t later : FileTree} {dir : Path} {left : Nat} {there : Location}

theorem writeFile_step {file : Bytes × Bytes} (hname : Path.IsName file.1)
    (hleads : t.LeadsTo dir left there)
    (hlinks : ∀ name target, t.top.get? (there ++ [name]) ≠ some (.link target))
    (h : t.writeFile (dir.join ⟨file.1⟩) file.2 = .ok later) :
    t.Keeps later ∧ ∀ name, later.top.get? (there ++ [name]) =
      if file.1 = name then some (.file file.2) else t.top.get? (there ++ [name]) := by
  obtain ⟨_, _, htakes, rfl⟩ := writeFile_eq hname hleads (hlinks file.1) h
  refine ⟨keeps_putAt_file htakes file.2, ?_⟩
  intro name
  obtain ⟨children, hchildren⟩ := hleads.isDirAt
  unfold putAt
  split
  · rename_i heq
    rw [← heq, Node.get?_put_self _ hchildren]
  · rename_i hne
    exact Node.get?_put_beside _ there (Ne.symm hne) [] [] t.top

theorem writePages_run {files : List (Bytes × Bytes)} (hnames : ∀ file ∈ files, Path.IsName file.1)
    (hleads : t.LeadsTo dir left there)
    (hlinks : ∀ name target, t.top.get? (there ++ [name]) ≠ some (.link target))
    (h : t.writePages (files.map (Page.within dir)) = (later, .ok ())) :
    t.Keeps later ∧
      (∀ file ∈ files, checkPath (dir.join ⟨file.1⟩) = .ok () ∧ file.1.length ≤ maxName) ∧
      ∀ name, later.top.get? (there ++ [name]) =
        heldAfter name files (t.top.get? (there ++ [name])) := by
  induction files generalizing t with
  | nil =>
    simp only [List.map_nil, writePages, Prod.mk.injEq, and_true] at h
    subst h
    exact ⟨.refl t, by simp, fun name => rfl⟩
  | cons file files ih =>
    rw [List.forall_mem_cons] at hnames
    rw [List.map_cons, writePages] at h
    cases hwrite : t.writeFile (Page.within dir file).path (Page.within dir file).content with
    | error e => simp [hwrite] at h
    | ok next =>
      simp only [hwrite] at h
      obtain ⟨hkeep, hheld⟩ := writeFile_step hnames.1 hleads hlinks hwrite
      obtain ⟨hcheck, hlength, _, _⟩ := writeFile_eq hnames.1 hleads (hlinks file.1) hwrite
      have hnext (name : Bytes) (target : Path) :
          next.top.get? (there ++ [name]) ≠ some (.link target) :=
        fun hlink => hlinks name target ((hkeep.links _ _).1 hlink)
      obtain ⟨hrest, hchecks, hlater⟩ := ih hnames.2 (LeadsTo.keep hkeep hleads) hnext h
      refine ⟨hkeep.trans hrest, ?_, ?_⟩
      · rw [List.forall_mem_cons]
        exact ⟨⟨hcheck, hlength⟩, hchecks⟩
      · intro name
        rw [hlater, hheld]
        rfl

end

end FileTree

namespace PageWriter

def filesBy (w : PageWriter) (origins : Origins) (entries : List Entry) :
    List (Bytes × Bytes) :=
  List.zipWith (fun e name => (pageName name, Utf8.encode (w.template.fill e))) entries
    (w.collision.names origins.text entries)

theorem pagesBy_eq (w : PageWriter) (origins : Origins) (entries : List Entry) (dir : Path) :
    w.pagesBy origins entries dir = (w.filesBy origins entries).map (Page.within dir) := by
  unfold pagesBy filesBy
  rw [List.map_zipWith]
  rfl

@[simp] theorem length_filesBy (w : PageWriter) (origins : Origins) (entries : List Entry) :
    (w.filesBy origins entries).length = entries.length := by
  simp [filesBy, Collision.names]

theorem map_fst_filesBy (w : PageWriter) (origins : Origins) (entries : List Entry) :
    (w.filesBy origins entries).map Prod.fst =
      (w.collision.names origins.text entries).map pageName := by
  have hlength : (w.collision.names origins.text entries).length = entries.length := by
    simp [Collision.names]
  unfold filesBy
  rw [List.map_zipWith]
  apply List.ext_getElem
  · simp [hlength]
  · intro i h₁ h₂
    simp

theorem isName_of_mem_filesBy {w : PageWriter} {origins : Origins} {entries : List Entry}
    {file : Bytes × Bytes} (h : file ∈ w.filesBy origins entries) : Path.IsName file.1 := by
  have hfst : file.1 ∈ (w.filesBy origins entries).map Prod.fst := List.mem_map_of_mem h
  rw [map_fst_filesBy] at hfst
  obtain ⟨name, hname, heq⟩ := List.mem_map.1 hfst
  rw [← heq]
  exact isName_pageName (Collision.noSlash_names hname)

theorem nodup_fst_filesBy {w : PageWriter} (hw : w.collision = .disambiguate)
    (origins : Origins) (entries : List Entry) :
    ((w.filesBy origins entries).map Prod.fst).Nodup := by
  rw [map_fst_filesBy, hw]
  exact (Collision.nodup_names origins.text entries).map pageName_injective

theorem getElem?_filesBy (w : PageWriter) (origins : Origins) {entries : List Entry} {i : Nat}
    {e : Entry} (h : entries[i]? = some e) :
    ∃ name, (w.filesBy origins entries)[i]? = some (name, Utf8.encode (w.template.fill e)) := by
  have hlength : (w.collision.names origins.text entries).length = entries.length := by
    simp [Collision.names]
  obtain ⟨hi, _⟩ := List.getElem?_eq_some_iff.1 h
  refine ⟨pageName ((w.collision.names origins.text entries)[i]), ?_⟩
  unfold filesBy
  rw [List.getElem?_zipWith, h, List.getElem?_eq_getElem (hlength ▸ hi)]

theorem writeBy_eq_ok {w : PageWriter} {origins : Origins} {t later : FileTree}
    {entries : List Entry} {dir : Path} {generated : List Path}
    (h : w.writeBy origins t entries dir = (later, .ok generated)) :
    generated = ((w.filesBy origins entries).map Prod.fst).map (fun name => dir.join ⟨name⟩) ∧
      (t.makeDirs dir).1.writePages ((w.filesBy origins entries).map (Page.within dir)) =
        (later, .ok ()) := by
  unfold writeBy at h
  split at h
  · cases h
  · rename_i made hmade
    simp only [pagesBy_eq] at h
    split at h
    · cases h
    · rename_i written hwritten
      cases h
      rw [hmade]
      refine ⟨?_, hwritten⟩
      rw [List.map_map, List.map_map]
      rfl

theorem leads_of_writePages {t later : FileTree} {dir : Path} {file : Bytes × Bytes}
    {files : List (Bytes × Bytes)} (hname : Path.IsName file.1)
    (h : t.writePages ((file :: files).map (Page.within dir)) = (later, .ok ())) :
    ∃ left there, t.LeadsTo dir left there := by
  rw [List.map_cons, FileTree.writePages] at h
  cases hwrite : t.writeFile (Page.within dir file).path (Page.within dir file).content with
  | error e => simp [hwrite] at h
  | ok next => exact FileTree.leads_of_writeFile hname hwrite

/-- No page is lost: there is one path for each entry, in their order, no path twice, and every path
holds the page of its entry. This is so however the origins come out, also if all are the same. What
`dir` held before must not be links, or two names could lead to one file. -/
theorem writeBy_keeps_every_page (w : PageWriter) (hw : w.collision = .disambiguate)
    (origins : Origins) (t later : FileTree) (entries : List Entry) (dir : Path)
    (generated : List Path)
    (hlinks : ∀ location node, (t.makeDirs dir).1.place dir = .ok (.node location node) →
      ∀ name target, t.top.get? (location ++ [name]) ≠ some (.link target))
    (h : w.writeBy origins t entries dir = (later, .ok generated)) :
    generated.length = entries.length ∧ generated.Nodup ∧
      ∀ (i : Nat) (e : Entry) (path : Path), entries[i]? = some e → generated[i]? = some path →
        later.readBytes path = .ok (Utf8.encode (w.template.fill e)) := by
  obtain ⟨hgenerated, hwritten⟩ := writeBy_eq_ok h
  have hnames (file : Bytes × Bytes) (hfile : file ∈ w.filesBy origins entries) :
      Path.IsName file.1 := isName_of_mem_filesBy hfile
  have hnodup := nodup_fst_filesBy hw origins entries
  refine ⟨by simp [hgenerated], ?_, ?_⟩
  · rw [hgenerated]
    apply hnodup.map_on
    intro a ha b hb hjoin
    obtain ⟨left, hleft, rfl⟩ := List.mem_map.1 ha
    obtain ⟨right, hright, rfl⟩ := List.mem_map.1 hb
    exact Path.join_injective (hnames left hleft) (hnames right hright) dir hjoin
  · intro i e path he hpath
    obtain ⟨name, hfile⟩ := getElem?_filesBy w origins he
    rw [hgenerated, List.getElem?_map, List.getElem?_map, hfile] at hpath
    rw [← Option.some.inj hpath]
    generalize hfiles : w.filesBy origins entries = files at hwritten hnames hnodup hfile
    have hmem := List.mem_of_getElem? hfile
    -- There is a page, so there is a way to the directory; the pages before it left it alone.
    obtain ⟨left, there, hleads⟩ : ∃ left there, (t.makeDirs dir).1.LeadsTo dir left there := by
      cases files with
      | nil => cases hmem
      | cons first rest => exact leads_of_writePages (hnames first List.mem_cons_self) hwritten
    obtain ⟨node, hplace⟩ := hleads.place_eq
    have hfree (child : Bytes) (target : Path) :
        (t.makeDirs dir).1.top.get? (there ++ [child]) ≠ some (.link target) :=
      fun hlink => hlinks there node hplace child target
        (((FileTree.keeps_makeDirs dir).links _ _).1 hlink)
    obtain ⟨hkeep, hchecks, hheld⟩ := FileTree.writePages_run hnames hleads hfree hwritten
    obtain ⟨hcheck, hlength⟩ := hchecks _ hmem
    apply FileTree.readBytes_eq (hnames _ hmem) (FileTree.LeadsTo.keep hkeep hleads) hcheck hlength
    rw [hheld, heldAfter_of_nodup hnodup hmem]

def blankOrigins : Origins where
  text _ := "00000000"
  length_text _ := rfl
  isHex_text _ := by
    intro c hc
    have hzero : c = '0' := by simpa using hc
    rw [hzero]
    decide

def clashingEntries : List Entry :=
  [{ container := "a" }, { container := "a" }, { container := "a-00000000" }]

def namingWriter : PageWriter := { template := ⟨Placeholder.container.token.toList⟩ }

theorem link_notMem_empty (location : Location) (target : Path) :
    FileTree.empty.top.get? location ≠ some (.link target) := by
  unfold FileTree.empty
  match location with
  | [] => simp [Node.get?]
  | [name] =>
    simp only [Node.get?_singleton, Node.lookup_cons_ite, List.lookup_nil]
    split <;> simp
  | name :: next :: rest =>
    simp only [Node.get?, Node.child?, Node.lookup_cons_ite, List.lookup_nil]
    split <;> simp

theorem writeBy_keeps_every_page_blankOrigins :
    ∃ later, namingWriter.writeBy blankOrigins .empty clashingEntries (.ofString "out") =
        (later, .ok [.ofString "out/a.md", .ofString "out/a-00000000.md",
          .ofString "out/a-00000000-00000000.md"]) ∧
      later.readBytes (.ofString "out/a-00000000.md") =
        .ok (Utf8.encode (namingWriter.template.fill { container := "a" })) := by
  have hok : (namingWriter.writeBy blankOrigins .empty clashingEntries (.ofString "out")).2 =
      .ok [.ofString "out/a.md", .ofString "out/a-00000000.md",
        .ofString "out/a-00000000-00000000.md"] := by cbv
  generalize hrun : namingWriter.writeBy blankOrigins .empty clashingEntries (.ofString "out") = run
    at hok
  obtain ⟨later, generated⟩ := run
  subst hok
  obtain ⟨_, _, hholds⟩ := writeBy_keeps_every_page namingWriter rfl blankOrigins .empty later
    clashingEntries (.ofString "out") _
    (fun location _ _ name target => link_notMem_empty (location ++ [name]) target) hrun
  exact ⟨later, rfl, hholds 1 { container := "a" } _ rfl rfl⟩

end PageWriter

end ApiAtlas

import ApiAtlas.Proofs.PageTargets

/-!
Pages of one name under `overwrite`. Every page is called like its container, so those of one name
are written to one file and the last of them stays; which order entries of different names come in
makes no difference to the files.
-/
namespace ApiAtlas

namespace Collision

theorem names_overwrite (origin : Entry → String) (entries : List Entry) :
    names .overwrite origin entries = entries.map (fileBase ·.container) := by
  unfold names
  generalize [] = taken
  induction entries generalizing taken with
  | nil => rfl
  | cons e rest ih =>
    have hname : nextName .overwrite origin taken e = fileBase e.container := by
      unfold nextName
      exact ite_self _
    rw [namesFrom, List.map_cons, ih, hname]

end Collision

theorem mem_of_filter_eq {α β : Type} [DecidableEq β] {key : α → β} {items others : List α}
    (h : ∀ k, others.filter (key · = k) = items.filter (key · = k)) {item : α}
    (hitem : item ∈ others) : item ∈ items := by
  have hmem : item ∈ others.filter (key · = key item) :=
    List.mem_filter.mpr ⟨hitem, decide_eq_true rfl⟩
  rw [h] at hmem
  exact List.mem_of_mem_filter hmem

/-- Of files put into a directory in turn, only the order of those with one name matters. -/
theorem FileTree.putFiles_congr {t : FileTree} {there : Location} {files others : List (Bytes × Bytes)}
    (hwell : t.top.WellFormed) (hdir : t.IsDirAt there)
    (hnames : ∀ file ∈ files, Path.IsName file.1)
    (htakes : ∀ file ∈ files, t.TakesFile (there ++ [file.1]))
    (h : ∀ name, others.filter (·.1 = name) = files.filter (·.1 = name)) :
    t.putFiles there others = t.putFiles there files := by
  obtain ⟨hkeep, hfaces⟩ := putFiles_run hdir htakes
  obtain ⟨hkeep', hfaces'⟩ :=
    putFiles_run hdir fun file hfile => htakes file (mem_of_filter_eq h hfile)
  apply eq_of_faceAt
    (wellFormed_putFiles hwell fun file hfile => hnames file (mem_of_filter_eq h hfile))
    (wellFormed_putFiles hwell hnames) (hkeep'.workingDir.trans hkeep.workingDir.symm)
  intro location
  rw [hfaces, hfaces']
  -- The files put at one location are those of one name, or there are none.
  by_cases hlocation : ∃ name, location = there ++ [name]
  · obtain ⟨name, rfl⟩ := hlocation
    rw [faceAfter_name, faceAfter_name, h]
  · have hnone (l : List (Bytes × Bytes)) : l.filter (location = there ++ [·.1]) = [] := by
      rw [List.filter_eq_nil_iff]
      exact fun file _ heq => hlocation ⟨file.1, of_decide_eq_true heq⟩
    rw [faceAfter_eq, faceAfter_eq, hnone, hnone]

def Entry.plainPath (dir : Path) (e : Entry) : Path :=
  dir.join (.ofString (fileBase e.container ++ ".md"))

theorem Entry.plainPath_eq (dir : Path) (e : Entry) :
    e.plainPath dir = dir.join ⟨pageName (fileBase e.container)⟩ := rfl

/-- The same entries in an order that keeps those of one name in theirs. -/
def Entry.Reordered (entries reordered : List Entry) : Prop :=
  ∀ base, reordered.filter (fileBase ·.container = base) =
    entries.filter (fileBase ·.container = base)

namespace PageWriter

section

variable {w : PageWriter} (hw : w.collision = .overwrite) (origins : Origins)
include hw

theorem filesBy_overwrite (entries : List Entry) :
    w.filesBy origins entries = entries.map fun e =>
      (pageName (fileBase e.container), Utf8.encode (w.template.fill e)) := by
  unfold filesBy
  rw [hw, Collision.names_overwrite, List.zipWith_map_right, List.zipWith_self]

theorem filter_filesBy_overwrite (entries : List Entry) (base : String) :
    (w.filesBy origins entries).filter (·.1 = pageName base) =
      (entries.filter (fileBase ·.container = base)).map fun e =>
        (pageName base, Utf8.encode (w.template.fill e)) := by
  rw [filesBy_overwrite hw, List.filter_map]
  have hbase : (fun e : Entry => decide (pageName (fileBase e.container) = pageName base)) =
      fun e => decide (fileBase e.container = base) := by
    funext e
    exact decide_eq_decide.mpr pageName_injective.eq_iff
  simp only [Function.comp_def, hbase]
  apply List.map_congr_left
  intro e he
  rw [of_decide_eq_true (List.mem_filter.mp he).2]

theorem filter_filesBy_reordered {entries reordered : List Entry}
    (h : Entry.Reordered entries reordered) (name : Bytes) :
    (w.filesBy origins reordered).filter (·.1 = name) =
      (w.filesBy origins entries).filter (·.1 = name) := by
  by_cases hname : ∃ base, name = pageName base
  · obtain ⟨base, rfl⟩ := hname
    rw [filter_filesBy_overwrite hw, filter_filesBy_overwrite hw, h]
  · have hnone (l : List Entry) : (w.filesBy origins l).filter (·.1 = name) = [] := by
      rw [filesBy_overwrite hw, List.filter_eq_nil_iff, List.forall_mem_map]
      exact fun e _ heq => hname ⟨_, (of_decide_eq_true heq).symm⟩
    rw [hnone, hnone]

theorem map_fst_filesBy_overwrite (entries : List Entry) :
    (w.filesBy origins entries).map Prod.fst =
      entries.map fun e => pageName (fileBase e.container) := by
  simp only [filesBy_overwrite hw, List.map_map, Function.comp_def]

theorem generated_overwrite (entries : List Entry) (dir : Path) :
    (((w.filesBy origins entries).map Prod.fst).map fun name => dir.join ⟨name⟩) =
      entries.map (·.plainPath dir) := by
  simp only [map_fst_filesBy_overwrite hw, List.map_map, Function.comp_def, Entry.plainPath_eq]

theorem readBytes_last {t : FileTree} {dir : Path} {left : Nat} {there : Location}
    {entries : List Entry} (hleads : t.LeadsTo dir left there)
    (hroom : ∀ file ∈ w.filesBy origins entries, t.HasRoom dir there file.1) {e : Entry}
    (he : e ∈ entries) :
    ∃ last, (entries.filter (fileBase ·.container = fileBase e.container)).getLast? = some last ∧
      (t.putFiles there (w.filesBy origins entries)).readBytes (e.plainPath dir) =
        .ok (Utf8.encode (w.template.fill last)) := by
  have hmem : e ∈ entries.filter (fileBase ·.container = fileBase e.container) :=
    List.mem_filter.mpr ⟨he, decide_eq_true rfl⟩
  have hlast := List.getLast?_eq_some_getLast (List.ne_nil_of_mem hmem)
  have hfile : (pageName (fileBase e.container), Utf8.encode (w.template.fill e)) ∈
      w.filesBy origins entries := by
    rw [filesBy_overwrite hw]
    exact List.mem_map_of_mem he
  have hpage := hroom _ hfile
  obtain ⟨hkeep, hfaces⟩ :=
    FileTree.putFiles_run hleads.isDirAt fun file hfile => (hroom file hfile).takes
  refine ⟨_, hlast, ?_⟩
  rw [Entry.plainPath_eq]
  apply FileTree.readBytes_eq (isName_of_mem_filesBy hfile) (FileTree.LeadsTo.keep hkeep hleads)
    hpage.check hpage.short
  rw [← FileTree.faceAt_eq_file_iff, hfaces, FileTree.faceAfter_name, filter_filesBy_overwrite hw,
    List.getLast?_map, hlast]
  rfl

theorem writeBy_reordered {t made : FileTree} {dir : Path} {left : Nat} {there : Location}
    {entries reordered : List Entry} (hmade : t.makeDirs dir = (made, .ok ()))
    (hwell : made.top.WellFormed) (hleads : made.LeadsTo dir left there)
    (hroom : ∀ file ∈ w.filesBy origins entries, made.HasRoom dir there file.1)
    (h : Entry.Reordered entries reordered) :
    w.writeBy origins t reordered dir = (made.putFiles there (w.filesBy origins entries),
      .ok (reordered.map (·.plainPath dir))) := by
  have hfilter := filter_filesBy_reordered hw origins h
  rw [writeBy_of_hasRoom hmade hleads fun file hfile => hroom file (mem_of_filter_eq hfilter hfile),
    generated_overwrite hw, FileTree.putFiles_congr hwell hleads.isDirAt
      (fun file => isName_of_mem_filesBy) (fun file hfile => (hroom file hfile).takes) hfilter]

/-- Under `overwrite` the last page of a name is the one that stays. The paths are those of the
containers, in the order of the entries; each holds the page of the last entry with its name, no
other file is changed, and entries in an order that keeps those of one name in theirs leave the
same files. -/
theorem overwrite_keeps_last (t later : FileTree) (entries : List Entry)
    (dir : Path) (generated : List Path)
    (hlinks : ∀ location target,
      t.IsTarget dir (entries.map fun e => pageName (fileBase e.container)) location →
        t.top.get? location ≠ some (.link target))
    (h : w.writeBy origins t entries dir = (later, .ok generated)) :
    generated = entries.map (·.plainPath dir) ∧
    (∀ e ∈ entries, ∃ last,
      (entries.filter (fileBase ·.container = fileBase e.container)).getLast? = some last ∧
        later.readBytes (e.plainPath dir) = .ok (Utf8.encode (w.template.fill last))) ∧
    FileTree.ConfinedTo (t.makeDirs dir).1.IsDirAt
      (t.IsTarget dir (entries.map fun e => pageName (fileBase e.container))) t later ∧
    ∀ reordered, Entry.Reordered entries reordered → t.top.WellFormed →
      w.writeBy origins t reordered dir = (later, .ok (reordered.map (·.plainPath dir))) := by
  rw [← map_fst_filesBy_overwrite hw origins] at hlinks ⊢
  obtain ⟨hgenerated, made, hmade, -⟩ := writeBy_eq_ok_iff.mp h
  rw [generated_overwrite hw] at hgenerated
  refine ⟨hgenerated, ?_, confinedTo_of_writeBy hlinks h, ?_⟩
  · intro e he
    rcases putFiles_of_writeBy hlinks h with ⟨hnone, -⟩ | ⟨left, there, hleads, hroom, rfl⟩
    · rw [filesBy_overwrite hw, List.map_eq_nil_iff] at hnone
      rw [hnone] at he
      cases he
    · exact readBytes_last hw origins hleads hroom he
  · intro reordered horder hwell
    have hmadeWell := FileTree.wellFormed_makeDirs hwell dir
    rcases putFiles_of_writeBy hlinks h with ⟨hnone, rfl⟩ | ⟨left, there, hleads, hroom, rfl⟩
    · rw [filesBy_overwrite hw, List.map_eq_nil_iff] at hnone
      subst hnone
      obtain rfl : reordered = [] :=
        List.eq_nil_iff_forall_not_mem.mpr fun e he => List.not_mem_nil (mem_of_filter_eq horder he)
      rw [h, hgenerated]
    · rw [hmade] at hmadeWell hleads hroom ⊢
      exact writeBy_reordered hw origins hmade hmadeWell hleads hroom horder

end

def sharedEntries : List Entry :=
  [{ container := "a b" }, { container := "c" }, { container := "a/b" }]

def sharedReordered : List Entry :=
  [{ container := "c" }, { container := "a b" }, { container := "a/b" }]

theorem reordered_shared : Entry.Reordered sharedEntries sharedReordered := by
  have hblank : fileBase "a b" = "a_b" := by decide
  have hslash : fileBase "a/b" = "a_b" := by decide
  have hother : fileBase "c" = "c" := by decide
  intro base
  by_cases hbase : base = "c"
  · subst hbase
    simp [sharedEntries, sharedReordered, hblank, hslash, hother]
  · simp [sharedEntries, sharedReordered, List.filter_cons, hother, Ne.symm hbase]

def overwritingWriter : PageWriter := { namingWriter with collision := .overwrite }

theorem overwrite_keeps_last_shared :
    ∃ later, overwritingWriter.write .empty sharedEntries (.ofString "out") =
        (later, .ok [.ofString "out/a_b.md", .ofString "out/c.md", .ofString "out/a_b.md"]) ∧
      later.readBytes (.ofString "out/a_b.md") =
        .ok (Utf8.encode (overwritingWriter.template.fill { container := "a/b" })) ∧
      overwritingWriter.write .empty sharedReordered (.ofString "out") =
        (later, .ok [.ofString "out/c.md", .ofString "out/a_b.md", .ofString "out/a_b.md"]) := by
  have hok : (overwritingWriter.write .empty sharedEntries (.ofString "out")).2 =
      .ok [.ofString "out/a_b.md", .ofString "out/c.md", .ofString "out/a_b.md"] := by cbv
  generalize hrun : overwritingWriter.write .empty sharedEntries (.ofString "out") = run at hok
  obtain ⟨later, generated⟩ := run
  subst hok
  obtain ⟨-, hlast, -, horder⟩ := overwrite_keeps_last rfl .standard .empty later sharedEntries
    (.ofString "out") _ (fun location target _ => link_notMem_empty location target) hrun
  obtain ⟨last, hfilter, hread⟩ := hlast { container := "a b" } List.mem_cons_self
  have hmember : (sharedEntries.filter (fileBase ·.container = fileBase "a b")).getLast? =
      some { container := "a/b" } := by decide
  rw [hmember] at hfilter
  rw [← Option.some.inj hfilter] at hread
  have hpath : Entry.plainPath (.ofString "out") { container := "a b" } = .ofString "out/a_b.md" := by
    decide
  have hpaths : sharedReordered.map (·.plainPath (.ofString "out")) =
      [.ofString "out/c.md", .ofString "out/a_b.md", .ofString "out/a_b.md"] := by decide
  rw [hpath] at hread
  have hreordered := horder sharedReordered reordered_shared FileTree.wellFormed_empty
  rw [hpaths] at hreordered
  exact ⟨later, rfl, hread, hreordered⟩

end PageWriter

end ApiAtlas

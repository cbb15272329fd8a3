import ApiAtlas.Proofs.Containers
import ApiAtlas.Proofs.FileTree.Writing
import ApiAtlas.Proofs.Rerun

/-!
Room for pages. A page goes into an empty directory exactly if its name and its path are short
enough: nothing a tree holds gives it any other trouble. Names grow on the way from a source to its
page, so a file or a class with a long name can have a page that does not fit; the run ends there,
and the entries behind it get no pages.
-/
namespace ApiAtlas

namespace Path

theorem nul_notMem_join {p q : Path} (hp : 0 ∉ p.bytes) (hq : 0 ∉ q.bytes) :
    0 ∉ (p.join q).bytes := by
  have hslash : (0 : UInt8) ≠ slash := by decide
  unfold join
  split_ifs
  · exact hq
  · simp [hp, hq]
  · simp [hp, hq, hslash]

theorem nul_notMem_along {root : Path} (hroot : 0 ∉ root.bytes) {location : Location}
    (h : ∀ name ∈ location, 0 ∉ name) : 0 ∉ (root.along location).bytes := by
  induction location using List.reverseRecOn with
  | nil => exact hroot
  | append_singleton front name ih =>
    rw [List.forall_mem_append, List.forall_mem_singleton] at h
    rw [along_concat]
    exact nul_notMem_join (ih h.1) h.2

theorem exists_lead (p : Path) : ∃ rest, p.bytes = p.lead ++ rest ∧ 0 ∉ p.lead := by
  unfold lead
  cases hbytes : p.bytes with
  | nil => exact ⟨[], rfl, List.not_mem_nil⟩
  | cons b rest =>
    simp only
    split_ifs with hslash hdot
    · exact ⟨rest, by simp [hslash], by decide⟩
    · exact ⟨rest, by simp [hdot.1], by decide⟩
    · exact ⟨b :: rest, rfl, List.not_mem_nil⟩

theorem parts_of_isGiven {p : Path} (h : FileTree.IsGiven p) : p.parts = [] := by
  rcases h with hempty | hparent
  · have hp : p = ⟨[]⟩ := Path.ext hempty
    rw [hp]
    decide
  · unfold parent? at hparent
    split at hparent
    · assumption
    · cases hparent

theorem void_of_parts_eq_nil {p : Path} (h : p.parts = []) :
    ∀ part ∈ splitSlash (p.bytes.drop p.lead.length), part = [] ∨ part = [dot] := by
  intro part hpart
  unfold parts dropVoidEnd at h
  have hvoid := List.dropWhile_eq_nil_iff.mp (List.reverse_eq_nil_iff.mp h) part
    (List.mem_reverse.mpr hpart)
  simpa [isVoidPart] using hvoid

theorem nul_notMem_of_isGiven {p : Path} (h : FileTree.IsGiven p) : 0 ∉ p.bytes := by
  intro hzero
  -- The byte would stand in a part, and such a part is not void.
  obtain ⟨rest, hbytes, hlead⟩ := p.exists_lead
  have hrest : 0 ∈ p.bytes.drop p.lead.length := by
    rw [hbytes, List.mem_append] at hzero
    rw [hbytes, List.drop_left]
    exact hzero.resolve_left hlead
  rw [← joinSlash_splitSlash (p.bytes.drop p.lead.length)] at hrest
  obtain ⟨part, hpart, hmem⟩ := (mem_joinSlash hrest).resolve_left (by decide)
  rcases void_of_parts_eq_nil (parts_of_isGiven h) part hpart with rfl | rfl
  · cases hmem
  · exact absurd hmem (by decide)

end Path

theorem exists_last_of_getElem? {α : Type} (holds : α → Prop) [DecidablePred holds] {items : List α}
    {i : Nat} {item : α} (h : items[i]? = some item) (hitem : holds item) :
    ∃ j last, i ≤ j ∧ items[j]? = some last ∧ holds last ∧
      (∀ k other, j < k → items[k]? = some other → ¬ holds other) ∧
      (items.filter holds).getLast? = some last := by
  -- From the end: the final item is the one, unless it does not hold.
  induction items using List.reverseRecOn generalizing i with
  | nil => simp at h
  | append_singleton front final ih =>
    obtain ⟨hi, -⟩ := List.getElem?_eq_some_iff.mp h
    rw [List.length_append, List.length_singleton] at hi
    rw [List.filter_append, List.filter_singleton]
    by_cases hfinal : holds final
    · refine ⟨front.length, final, by omega, by simp, hfinal, ?_, by simp [hfinal]⟩
      intro k other hk hother
      obtain ⟨hlt, -⟩ := List.getElem?_eq_some_iff.mp hother
      rw [List.length_append, List.length_singleton] at hlt
      omega
    · have hfront : i < front.length := by
        by_contra hge
        rw [show i = front.length by omega, List.getElem?_concat_length] at h
        exact hfinal (Option.some.inj h ▸ hitem)
      rw [List.getElem?_append_left hfront] at h
      obtain ⟨j, last, hij, hlast, hholds, hlater, hfilter⟩ := ih h
      obtain ⟨hj, -⟩ := List.getElem?_eq_some_iff.mp hlast
      refine ⟨j, last, hij, (List.getElem?_append_left hj).trans hlast, hholds, ?_, by
        simp [hfinal, hfilter]⟩
      intro k other hk hother
      by_cases hkfront : k < front.length
      · rw [List.getElem?_append_left hkfront] at hother
        exact hlater k other hk hother
      · obtain ⟨hlt, -⟩ := List.getElem?_eq_some_iff.mp hother
        rw [List.length_append, List.length_singleton] at hlt
        rw [show k = front.length by omega, List.getElem?_concat_length] at hother
        rw [← Option.some.inj hother]
        exact hfinal

namespace FileTree

/-- A name in a directory that the system takes: it is short, and so is its path. -/
structure Fits (dir : Path) (name : Bytes) : Prop where
  short : name.length ≤ maxName
  shortPath : (dir.join ⟨name⟩).bytes.length < maxPath

instance (dir : Path) (name : Bytes) : Decidable (Fits dir name) :=
  decidable_of_iff (name.length ≤ maxName ∧ (dir.join ⟨name⟩).bytes.length < maxPath)
    ⟨fun h => ⟨h.1, h.2⟩, fun h => ⟨h.short, h.shortPath⟩⟩

section

variable {t : FileTree} {dir : Path} {left : Nat} {there : Location} {name : Bytes}

theorem checkPath_join (hname : Path.IsName name) (hdir : 0 ∉ dir.bytes) (hnul : 0 ∉ name) :
    checkPath (dir.join ⟨name⟩) =
      if (dir.join ⟨name⟩).bytes.length < maxPath then .ok () else .error .nameTooLong := by
  have hempty : (dir.join ⟨name⟩).bytes ≠ [] := by
    rw [Path.bytes_join hname]
    exact List.append_ne_nil_of_right_ne_nil _ hname.ne_nil
  unfold checkPath
  rw [if_neg (Path.nul_notMem_join hdir hnul), if_neg hempty]
  split_ifs with hlong hshort hshort
  · omega
  · rfl
  · rfl
  · omega

theorem hasRoom_iff_fits (hname : Path.IsName name) (hdir : 0 ∉ dir.bytes) (hnul : 0 ∉ name)
    (htakes : t.TakesFile (there ++ [name])) : t.HasRoom dir there name ↔ Fits dir name := by
  have hcheck := checkPath_join hname hdir hnul
  constructor
  · intro hroom
    refine ⟨hroom.short, ?_⟩
    by_contra hlong
    rw [if_neg hlong, hroom.check] at hcheck
    cases hcheck
  · intro hfits
    exact ⟨hcheck.trans (if_pos hfits.shortPath), hfits.short, htakes⟩

theorem refusal?_of_not_fits (hname : Path.IsName name) (hdir : 0 ∉ dir.bytes) (hnul : 0 ∉ name)
    (h : ¬ Fits dir name) : t.refusal? dir there name = some .nameTooLong := by
  have hcheck := checkPath_join hname hdir hnul
  unfold refusal?
  by_cases hpath : (dir.join ⟨name⟩).bytes.length < maxPath
  · have hlong : maxName < name.length := Nat.lt_of_not_le fun hshort => h ⟨hshort, hpath⟩
    rw [hcheck, if_pos hpath]
    exact if_pos hlong
  · rw [hcheck, if_neg hpath]

end

theorem nul_notMem_of_makeDirs {t : FileTree} {dir : Path} (h : (t.makeDirs dir).2 = .ok ()) :
    0 ∉ dir.bytes := by
  have hmade : t.makeDirs dir = ((t.makeDirs dir).1, .ok ()) := Prod.ext rfl h
  rcases isDir_of_makeDirs hmade with hgiven | hdir
  · exact Path.nul_notMem_of_isGiven hgiven
  · exact (checkPath_eq_ok_iff.mp (isDir_iff.mp hdir).1).1

/-- Making `dir` in `t` succeeds and leaves it, at `there` in `made`, with nothing in it. -/
structure MakesEmpty (t : FileTree) (dir : Path) (made : FileTree) (there : Location) : Prop where
  makeDirs : t.makeDirs dir = (made, .ok ())
  empty : made.place dir = .ok (.node there (.dir []))

namespace MakesEmpty

variable {t made : FileTree} {dir : Path} {there : Location} (h : t.MakesEmpty dir made there)
include h

theorem leadsTo : ∃ left, made.LeadsTo dir left there := (place_eq_ok_iff.mp h.empty).1

theorem free (name : Bytes) : made.top.get? (there ++ [name]) = none := by
  rw [Node.get?_append_singleton (place_eq_ok_iff.mp h.empty).2]
  rfl

theorem nul_notMem : 0 ∉ dir.bytes := nul_notMem_of_makeDirs (congrArg Prod.snd h.makeDirs)

theorem noLink (name : Bytes) (target : Path) :
    made.top.get? (there ++ [name]) ≠ some (.link target) := by
  rw [h.free]
  exact fun hlink => by cases hlink

variable {files : List (Bytes × Bytes)} (hnames : ∀ file ∈ files, Path.IsName file.1)
  (hnul : ∀ file ∈ files, 0 ∉ file.1)
include hnames hnul

theorem hasRoom_of_fits (hfits : ∀ file ∈ files, Fits dir file.1) :
    ∀ file ∈ files, made.HasRoom dir there file.1 := fun file hfile =>
  (hasRoom_iff_fits (hnames file hfile) h.nul_notMem (hnul file hfile) (.inl (h.free _))).mpr
    (hfits file hfile)

theorem writePages (hfits : ∀ file ∈ files, Fits dir file.1) :
    made.writePages (files.map (Page.within dir)) = (made.putFiles there files, .ok ()) := by
  obtain ⟨left, hleads⟩ := h.leadsTo
  exact (writePages_eq_ok_iff hnames hleads fun file _ => h.noLink file.1).mpr
    ⟨h.hasRoom_of_fits hnames hnul hfits, rfl⟩

end MakesEmpty

end FileTree

namespace PageWriter

/-- Every entry has a page. There is a path for each, in their order, and what it holds is the page
of the last entry with that path. -/
structure Documents (w : PageWriter) (entries : List Entry) (later : FileTree)
    (generated : List Path) : Prop where
  length : generated.length = entries.length
  page : ∀ (i : Nat) (path : Path), generated[i]? = some path →
    ∃ j e, i ≤ j ∧ entries[j]? = some e ∧ generated[j]? = some path ∧
      (∀ k, j < k → generated[k]? ≠ some path) ∧
      later.readBytes path = .ok (Utf8.encode (w.template.fill e))

theorem filesBy_take (w : PageWriter) (origins : Origins) (entries : List Entry) (i : Nat) :
    w.filesBy origins (entries.take i) = (w.filesBy origins entries).take i := by
  unfold filesBy Collision.names
  rw [Collision.namesFrom_take, List.take_zipWith]

theorem forall_filesBy_iff {w : PageWriter} {origins : Origins} {entries : List Entry}
    (holds : Bytes → Prop) : (∀ file ∈ w.filesBy origins entries, holds file.1) ↔
      ∀ name ∈ w.collision.names origins.text entries, holds (pageName name) := by
  rw [← List.forall_mem_map, map_fst_filesBy, List.forall_mem_map]

theorem getElem?_filesBy_of_names {w : PageWriter} {origins : Origins} {entries : List Entry}
    {i : Nat} {name : String} (h : (w.collision.names origins.text entries)[i]? = some name) :
    ∃ file, (w.filesBy origins entries)[i]? = some file ∧ file.1 = pageName name := by
  have hfst : ((w.filesBy origins entries).map Prod.fst)[i]? = some (pageName name) := by
    rw [map_fst_filesBy, List.getElem?_map, h]
    rfl
  rwa [List.getElem?_map, Option.map_eq_some_iff] at hfst

theorem getElem?_filesBy_zero (w : PageWriter) (origins : Origins) (e : Entry)
    (rest : List Entry) : (w.filesBy origins (e :: rest))[0]? =
      some (pageName (fileBase e.container), Utf8.encode (w.template.fill e)) := by
  have hfirst : w.collision.nextName origins.text [] e = fileBase e.container := by
    unfold Collision.nextName
    simp
  unfold filesBy Collision.names Collision.namesFrom
  simp only [hfirst]
  rfl

theorem getElem?_entries_of_filesBy {w : PageWriter} {origins : Origins} {entries : List Entry}
    {i : Nat} {file : Bytes × Bytes} (h : (w.filesBy origins entries)[i]? = some file) :
    ∃ e, entries[i]? = some e ∧ file.2 = Utf8.encode (w.template.fill e) := by
  unfold filesBy at h
  obtain ⟨e, name, he, -, hfile⟩ := List.getElem?_zipWith_eq_some.mp h
  exact ⟨e, he, by rw [← hfile]⟩

theorem documents_putFiles {w : PageWriter} {origins : Origins} {t : FileTree} {dir : Path}
    {left : Nat} {there : Location} {entries : List Entry} (hleads : t.LeadsTo dir left there)
    (hroom : ∀ file ∈ w.filesBy origins entries, t.HasRoom dir there file.1) :
    w.Documents entries (t.putFiles there (w.filesBy origins entries))
      (((w.filesBy origins entries).map Prod.fst).map fun name => dir.join ⟨name⟩) := by
  have hnames (file : Bytes × Bytes) (hfile : file ∈ w.filesBy origins entries) :
      Path.IsName file.1 := isName_of_mem_filesBy hfile
  obtain ⟨hkeep, hfaces⟩ :=
    FileTree.putFiles_run hleads.isDirAt fun file hfile => (hroom file hfile).takes
  refine ⟨by simp, ?_⟩
  intro i path hpath
  rw [List.map_map, List.getElem?_map, Option.map_eq_some_iff] at hpath
  obtain ⟨file, hfile, rfl⟩ := hpath
  obtain ⟨j, last, hij, hlast, hname, hlater, hfilter⟩ :=
    exists_last_of_getElem? (·.1 = file.1) hfile rfl
  obtain ⟨e, he, hpage⟩ := getElem?_entries_of_filesBy hlast
  have hmem := List.mem_of_getElem? hfile
  refine ⟨j, e, hij, he, ?_, ?_, ?_⟩
  · rw [List.map_map, List.getElem?_map, hlast, Option.map_some, Function.comp_apply, hname]
    rfl
  · intro k hk hother
    rw [List.map_map, List.getElem?_map, Option.map_eq_some_iff] at hother
    obtain ⟨other, hother, hjoin⟩ := hother
    have hother' := hnames other (List.mem_of_getElem? hother)
    exact hlater k other hk hother (Path.join_injective hother' (hnames file hmem) dir hjoin)
  · rw [← hpage]
    apply FileTree.readBytes_eq (hnames file hmem) (FileTree.LeadsTo.keep hkeep hleads)
      (hroom file hmem).check (hroom file hmem).short
    rw [← FileTree.faceAt_eq_file_iff, hfaces, FileTree.faceAfter_name, hfilter]
    rfl

section

variable {w : PageWriter} {origins : Origins} {t made : FileTree} {dir : Path} {there : Location}
  {entries : List Entry} (h : t.MakesEmpty dir made there)
  (hnul : ∀ file ∈ w.filesBy origins entries, 0 ∉ file.1)
include h hnul

theorem documents_of_fits (hfits : ∀ file ∈ w.filesBy origins entries, FileTree.Fits dir file.1) :
    ∃ generated, w.writeBy origins t entries dir =
        (made.putFiles there (w.filesBy origins entries), .ok generated) ∧
      w.Documents entries (made.putFiles there (w.filesBy origins entries)) generated := by
  have hnames (file : Bytes × Bytes) (hfile : file ∈ w.filesBy origins entries) :
      Path.IsName file.1 := isName_of_mem_filesBy hfile
  have hwritten := h.writePages hnames hnul hfits
  obtain ⟨left, hleads⟩ := h.leadsTo
  exact ⟨_, writeBy_eq_ok_iff.mpr ⟨rfl, made, h.makeDirs, hwritten⟩,
    documents_putFiles hleads (h.hasRoom_of_fits hnames hnul hfits)⟩

theorem fits_of_writeBy {later : FileTree} {generated : List Path}
    (hwritten : w.writeBy origins t entries dir = (later, .ok generated)) :
    ∀ file ∈ w.filesBy origins entries, FileTree.Fits dir file.1 := by
  obtain ⟨-, made', hmade, hpages⟩ := writeBy_eq_ok_iff.mp hwritten
  rw [h.makeDirs] at hmade
  obtain rfl := (Prod.mk.inj hmade).1
  obtain ⟨left, hleads⟩ := h.leadsTo
  obtain ⟨hroom, -⟩ := (FileTree.writePages_eq_ok_iff (fun file => isName_of_mem_filesBy) hleads
    fun file _ => h.noLink file.1).mp hpages
  intro file hfile
  exact (FileTree.hasRoom_iff_fits (isName_of_mem_filesBy hfile) h.nul_notMem (hnul file hfile)
    (.inl (h.free _))).mp (hroom file hfile)

theorem writeBy_stops {i : Nat} {file : Bytes × Bytes}
    (hfile : (w.filesBy origins entries)[i]? = some file) (hlong : ¬ FileTree.Fits dir file.1)
    (hfits : ∀ other ∈ (w.filesBy origins entries).take i, FileTree.Fits dir other.1) :
    w.writeBy origins t entries dir =
      (made.putFiles there ((w.filesBy origins entries).take i), .error (.io .nameTooLong)) := by
  obtain ⟨left, hleads⟩ := h.leadsTo
  have hmem := List.mem_of_getElem? hfile
  obtain ⟨hi, hget⟩ := List.getElem?_eq_some_iff.mp hfile
  have hsplit : w.filesBy origins entries =
      (w.filesBy origins entries).take i ++ file :: (w.filesBy origins entries).drop (i + 1) := by
    rw [← hget, List.getElem_cons_drop, List.take_append_drop]
  have hstops := (FileTree.writePages_eq_error_iff (fun file => isName_of_mem_filesBy) hleads
    fun file _ => h.noLink file.1).mpr ⟨_, file, _, hsplit,
      FileTree.refusal?_of_not_fits (isName_of_mem_filesBy hmem) h.nul_notMem (hnul file hmem) hlong,
      h.hasRoom_of_fits (fun other hother => isName_of_mem_filesBy (List.mem_of_mem_take hother))
        (fun other hother => hnul other (List.mem_of_mem_take hother)) hfits, rfl⟩
  exact (writeBy_eq_error_iff h.makeDirs).mpr ⟨_, hstops, rfl⟩

end

end PageWriter

theorem FileTree.nul_notMem_source {t : FileTree} (hwell : t.top.WellFormed)
    (hlinks : ∀ location target, t.top.get? location ≠ some (.link target))
    (hnul : ∀ location node, t.top.get? location = some node → ∀ name ∈ location, 0 ∉ name)
    {root : Path} (hroot : t.isDir root = true) {excludes : List String} {s : Source}
    (h : s ∈ (t.manifest root excludes).sources) : 0 ∉ s.path.bytes := by
  cases hdash : root.isDash with
  | true =>
    rw [manifest_of_isDash hdash] at h
    cases h
  | false =>
    obtain ⟨hcheck, left, there, hleads⟩ := isDir_iff.mp hroot
    obtain ⟨sources, hsources, hmanifest⟩ :=
      exists_enumerates_sources hwell hlinks hdash hcheck hleads excludes
    rw [hmanifest] at h
    obtain ⟨location, hlocation, rfl⟩ := List.mem_map.mp h
    obtain ⟨node, hnode, -⟩ := (hsources.mem_iff location).mp hlocation
    exact Path.nul_notMem_along (checkPath_eq_ok_iff.mp hcheck).1 fun name hname =>
      hnul _ node hnode name (List.mem_append_right there hname)

def FileTree.entriesBelow (t : FileTree) (root : Path) (excludes : List String) (parallel : Bool) :
    List Entry :=
  (Registry.standard.extract t parallel (t.manifest root excludes)).entries

theorem PageWriter.nul_notMem_filesBy (w : PageWriter) (origins : Origins) {t : FileTree}
    (hwell : t.top.WellFormed)
    (hlinks : ∀ location target, t.top.get? location ≠ some (.link target))
    (hnul : ∀ location node, t.top.get? location = some node → ∀ name ∈ location, 0 ∉ name)
    {root : Path} (hroot : t.isDir root = true) (excludes : List String) (parallel : Bool) :
    ∀ file ∈ w.filesBy origins (t.entriesBelow root excludes parallel), 0 ∉ file.1 := by
  have hcontainers (e : Entry) (he : e ∈ t.entriesBelow root excludes parallel) :
      nul ∉ e.container.toList := by
    obtain ⟨s, hs, he⟩ := Registry.exists_source_of_mem_entries he
    exact Source.nul_notMem_container (FileTree.nul_notMem_source hwell hlinks hnul hroot hs) he
  exact (forall_filesBy_iff (0 ∉ ·)).mpr fun name => Collision.nul_notMem_pageName hcontainers

/-- Documenting a tree comes to its end, with a page for every entry, exactly if all their pages
fit. At the first that does not the run fails: the entries before it have their pages, and nothing
else is written. -/
theorem PageWriter.documents_tree_iff_fits (w : PageWriter) (t made : FileTree) (root dir : Path)
    (there : Location) (excludes : List String) (parallel : Bool)
    (hwell : t.top.WellFormed)
    (hlinks : ∀ location target, t.top.get? location ≠ some (.link target))
    (hnul : ∀ location node, t.top.get? location = some node → ∀ name ∈ location, 0 ∉ name)
    (hroot : t.isDir root = true) (hdir : t.MakesEmpty dir made there) :
    let entries := t.entriesBelow root excludes parallel
    let names := w.collision.names Origins.standard.text
    ((∃ later generated, w.write t entries dir = (later, .ok generated) ∧
        w.Documents entries later generated) ↔
      ∀ name ∈ names entries, FileTree.Fits dir (pageName name)) ∧
    ∀ (i : Nat) (name : String), (names entries)[i]? = some name →
      ¬ FileTree.Fits dir (pageName name) →
      (∀ earlier ∈ names (entries.take i), FileTree.Fits dir (pageName earlier)) →
      ∃ later generated, w.write t (entries.take i) dir = (later, .ok generated) ∧
        w.Documents (entries.take i) later generated ∧
        w.write t entries dir = (later, .error (.io .nameTooLong)) := by
  intro entries names
  have hzero : ∀ file ∈ w.filesBy .standard entries, 0 ∉ file.1 :=
    w.nul_notMem_filesBy .standard hwell hlinks hnul hroot excludes parallel
  refine ⟨⟨?_, ?_⟩, ?_⟩
  · rintro ⟨later, generated, hwritten, -⟩
    exact (forall_filesBy_iff (FileTree.Fits dir)).mp (fits_of_writeBy hdir hzero hwritten)
  · intro hfits
    exact ⟨_, documents_of_fits hdir hzero ((forall_filesBy_iff _).mpr hfits)⟩
  · intro i name hname hlong hearlier
    obtain ⟨file, hfile, hpage⟩ := getElem?_filesBy_of_names hname
    -- The names of the entries before are the same, whatever comes behind them.
    have htake := w.filesBy_take .standard entries i
    have hfits := (forall_filesBy_iff (FileTree.Fits dir)).mpr hearlier
    have hzero' : ∀ file ∈ w.filesBy .standard (entries.take i), 0 ∉ file.1 := by
      rw [htake]
      exact fun file hfile => hzero file (List.mem_of_mem_take hfile)
    obtain ⟨generated, hwritten, hdocuments⟩ := documents_of_fits hdir hzero' hfits
    refine ⟨_, generated, hwritten, hdocuments, ?_⟩
    rw [htake] at hfits ⊢
    exact writeBy_stops hdir hzero hfile (hpage ▸ hlong) hfits

namespace FileTree

def couple (name : Bytes) : FileTree where
  top := .dir [(Bytes.ofString "r", .dir [(name, .file []), (Bytes.ofString "b.rb", .file [])])]
  workingDir := []

theorem makesEmpty_couple (name : Bytes) :
    (couple name).MakesEmpty (.ofString "out") ((couple name).makeDirs (.ofString "out")).1
      [Bytes.ofString "out"] := by
  refine ⟨?_, by cbv⟩
  have hok : ((couple name).makeDirs (.ofString "out")).2 = .ok () := by cbv
  rw [← hok]

theorem readBytes_couple (name : Bytes) :
    ((couple name).makeDirs (.ofString "out")).1.readBytes (.ofString "out/b.rb.md") =
      .error .notFound := by cbv

theorem isDir_couple (name : Bytes) : (couple name).isDir (.ofString "r") = true := by cbv

section

variable {name : Bytes} (hname : Path.IsName name) (hbefore : name < Bytes.ofString "b.rb")
include hname hbefore

theorem wellFormed_couple : (couple name).top.WellFormed := by
  have hdir : Path.IsName (Bytes.ofString "r") := by constructor <;> decide
  have hsecond : Path.IsName (Bytes.ofString "b.rb") := by constructor <;> decide
  refine ⟨⟨hdir, ⟨hname, trivial, hsecond, trivial, trivial⟩, trivial⟩, ?_, ⟨?_, ?_⟩, trivial⟩
  · simp
  · simpa using hbefore
  · exact ⟨trivial, by simp, trivial, trivial⟩

theorem mem_spots_couple {location : Location} {node : Node} (hne : location ≠ [])
    (h : (couple name).top.get? location = some node) :
    (location, node) ∈ (couple name).top.spots :=
  (Node.mem_spots_iff _ (wellFormed_couple hname hbefore).ordered _ _).mpr ⟨hne, h⟩

theorem link_notMem_couple (location : Location) (target : Path) :
    (couple name).top.get? location ≠ some (.link target) := by
  intro hlink
  by_cases hne : location = []
  · rw [hne] at hlink
    cases hlink
  · have hmem := mem_spots_couple hname hbefore hne hlink
    simp [couple, Node.spots, Node.spotsOf] at hmem

theorem nul_notMem_couple (hnul : 0 ∉ name) (location : Location) (node : Node)
    (h : (couple name).top.get? location = some node) : ∀ part ∈ location, 0 ∉ part := by
  by_cases hne : location = []
  · simp [hne]
  · have hmem := mem_spots_couple hname hbefore hne h
    have hdir : 0 ∉ Bytes.ofString "r" := by decide
    have hsecond : 0 ∉ Bytes.ofString "b.rb" := by decide
    simp only [couple, Node.spots, Node.spotsOf, List.map_cons, List.map_nil, List.append_nil,
      List.cons_append, List.nil_append, List.mem_cons, List.not_mem_nil, or_false,
      Prod.mk.injEq] at hmem
    rcases hmem with ⟨rfl, -⟩ | ⟨rfl, -⟩ | ⟨rfl, -⟩ <;> simp [hdir, hsecond, hnul]

end

theorem extract_rubies (t : FileTree) (parallel : Bool) (p q : Path) :
    (Registry.standard.extract t parallel ⟨[⟨p, .ruby⟩, ⟨q, .ruby⟩], []⟩).entries =
      [Scanner.stubEntry .ruby p, Scanner.stubEntry .ruby q] := by
  rw [Registry.extract_eq_concat]
  cbv

theorem entriesBelow_couple {name : Bytes} (hname : Path.IsName name)
    (hmarked : (Noise.ofExcludes (.ofString "r") []).isMarked ⟨name⟩ = false)
    (hruby : Language.ofPath ⟨name⟩ = .ruby) (parallel : Bool) :
    (couple name).entriesBelow (.ofString "r") [] parallel =
      [Scanner.stubEntry .ruby ((Path.ofString "r").join ⟨name⟩),
        Scanner.stubEntry .ruby (.ofString "r/b.rb")] := by
  have hdrop (other : Bytes) (h : (Noise.ofExcludes (.ofString "r") []).isMarked ⟨other⟩ = false) :
      (Noise.ofExcludes (.ofString "r") []).drop ((⟨[]⟩ : Path).below other) false = false := by
    rw [← Bool.not_eq_true]
    exact fun hdrop => Bool.false_ne_true (h.symm.trans ((Noise.drop_nil_iff _ _ _).mp hdrop))
  have hfirst := hdrop name hmarked
  have hsecond := hdrop (Bytes.ofString "b.rb") (by cbv)
  have hroot : (⟨.ofString "r", .dir⟩ : Visit).isDocDir = false := by cbv
  have hfile (p : Path) : (⟨p, .file⟩ : Visit).isDocDir = false := by simp [Visit.isDocDir]
  have hlanguage : Language.ofPath ((Path.ofString "r").join ⟨name⟩) = .ruby :=
    (Language.ofPath_join (Path.isPlain_name hname) _).trans hruby
  have hopen : (Path.ofString "r").bytes.length < maxPath := by decide
  have hjoin : (Path.ofString "r").join ⟨Bytes.ofString "b.rb"⟩ = .ofString "r/b.rb" := by decide
  have hlanguage' : Language.ofPath (.ofString "r/b.rb") = .ruby := by cbv
  have hstat : (couple name).linkStat (.ofString "r") =
    .ok (.dir [(name, .file []), (Bytes.ofString "b.rb", .file [])]) := by cbv
  have hmanifest : (couple name).manifest (.ofString "r") [] =
      ⟨[⟨(Path.ofString "r").join ⟨name⟩, .ruby⟩, ⟨.ofString "r/b.rb", .ruby⟩], []⟩ := by
    unfold manifest walk
    rw [if_neg (by decide), hstat]
    simp [Node.visits, Node.visitsOf, hopen, Node.isDir, hfirst, hsecond, Node.kind,
      Manifest.ofVisits, Visit.source?, hjoin, hlanguage, hlanguage', hroot, hfile,
      Language.isKnown]
  unfold entriesBelow
  rw [hmanifest, extract_rubies]

end FileTree

theorem PageWriter.documents_tree_iff_fits_couple :
    ∃ later generated, ({} : PageWriter).write (.couple (Bytes.ofString "a.rb"))
        (FileTree.entriesBelow (.couple (Bytes.ofString "a.rb")) (.ofString "r") [] true)
        (.ofString "out") = (later, .ok generated) ∧
      ({} : PageWriter).Documents
        (FileTree.entriesBelow (.couple (Bytes.ofString "a.rb")) (.ofString "r") [] true)
        later generated := by
  have hname : Path.IsName (Bytes.ofString "a.rb") := by constructor <;> decide
  have hbefore : Bytes.ofString "a.rb" < Bytes.ofString "b.rb" := by decide
  apply (documents_tree_iff_fits {} _ _ (.ofString "r") (.ofString "out") _ [] true
    (FileTree.wellFormed_couple hname hbefore) (FileTree.link_notMem_couple hname hbefore)
    (FileTree.nul_notMem_couple hname hbefore (by decide)) (FileTree.isDir_couple _)
    (FileTree.makesEmpty_couple _)).1.mpr
  rw [FileTree.entriesBelow_couple hname (by cbv) (by cbv)]
  have hnames : Collision.names .disambiguate Origins.standard.text
      [Scanner.stubEntry .ruby ((Path.ofString "r").join ⟨Bytes.ofString "a.rb"⟩),
        Scanner.stubEntry .ruby (.ofString "r/b.rb")] = ["a.rb", "b.rb"] := by cbv
  rw [hnames]
  simp only [List.forall_mem_cons]
  exact ⟨by decide, by decide, by simp⟩

theorem Utf8.length_le_encode (s : List Char) : s.length ≤ (encode s).length := by
  induction s with
  | nil => rfl
  | cons c s ih =>
    have hpos : 0 < (encodeChar c).length := by
      unfold encodeChar
      simp only
      split_ifs <;> simp
    rw [encode_cons, List.length_append, List.length_cons]
    omega

theorem length_add_three_le_pageName {name : Bytes} (h : ∀ b ∈ name, b.toNat < 0x80) :
    name.length + 3 ≤ (pageName (fileBase (Path.lossyText name))).length := by
  have hlength : (fileBase (Path.lossyText name)).toList.length = name.length := by
    unfold fileBase Path.lossyText
    rw [String.toList_ofList, String.toList_ofList, Utf8.decodeLossy_of_ascii name h]
    simp
  rw [pageName_eq, List.length_append, ← hlength]
  exact Nat.add_le_add_right (Utf8.length_le_encode _) 3

theorem FileTree.write_couple {name : Bytes} (hname : Path.IsName name)
    (hbefore : name < Bytes.ofString "b.rb") (hascii : ∀ b ∈ name, b.toNat < 0x80)
    (hnul : 0 ∉ name)
    (hmarked : (Noise.ofExcludes (.ofString "r") []).isMarked ⟨name⟩ = false)
    (hruby : Language.ofPath ⟨name⟩ = .ruby) (hlong : maxName < name.length + 3)
    (w : PageWriter) (parallel : Bool) :
    w.write (couple name) ((couple name).entriesBelow (.ofString "r") [] parallel)
      (.ofString "out") = (((couple name).makeDirs (.ofString "out")).1,
        .error (.io .nameTooLong)) := by
  have hzero := w.nul_notMem_filesBy .standard (wellFormed_couple hname hbefore)
    (link_notMem_couple hname hbefore) (nul_notMem_couple hname hbefore hnul) (isDir_couple name)
    [] parallel
  have hbase : ((Path.ofString "r").join ⟨name⟩).baseName = Path.lossyText name := by
    unfold Path.baseName
    rw [Path.fileName?_eq (Path.bytes_join hname _) hname (Path.frontOf_cases _)]
  rw [entriesBelow_couple hname hmarked hruby] at hzero ⊢
  refine PageWriter.writeBy_stops (makesEmpty_couple name) hzero
    (w.getElem?_filesBy_zero _ _ _) ?_ (by simp)
  intro hfits
  have hshort := hfits.short
  simp only [Scanner.stubEntry, hbase] at hshort
  have hgrown := length_add_three_le_pageName hascii
  omega

def longName : Bytes := List.replicate 252 0x61 ++ Bytes.ofString ".rb"

/-- A file of that name, in a language that is not even read, leaves the other without a page. -/
theorem PageWriter.not_documents_tree_longName :
    longName.length = FileTree.maxName ∧
    (FileTree.couple longName).isDir (.ofString "r") = true ∧
    (∀ location target, (FileTree.couple longName).top.get? location ≠ some (.link target)) ∧
    (∃ made there, (FileTree.couple longName).MakesEmpty (.ofString "out") made there) ∧
    Scanner.stubEntry .ruby (.ofString "r/b.rb") ∈
      FileTree.entriesBelow (.couple longName) (.ofString "r") [] false ∧
    ∃ later, ({} : PageWriter).write (.couple longName)
        (FileTree.entriesBelow (.couple longName) (.ofString "r") [] false) (.ofString "out") =
          (later, .error (.io .nameTooLong)) ∧
      later.readBytes (.ofString "out/b.rb.md") = .error .notFound := by
  have hname : Path.IsName longName := by constructor <;> decide +kernel
  have hbefore : longName < Bytes.ofString "b.rb" := by decide +kernel
  have hlength : longName.length = FileTree.maxName := by decide +kernel
  have hmarked : (Noise.ofExcludes (.ofString "r") []).isMarked ⟨longName⟩ = false := by
    decide +kernel
  have hruby : Language.ofPath ⟨longName⟩ = .ruby := by decide +kernel
  have hall : longName.all (·.toNat < 0x80) = true := by decide +kernel
  have hascii (b : UInt8) (hb : b ∈ longName) : b.toNat < 0x80 :=
    of_decide_eq_true (List.all_eq_true.mp hall b hb)
  refine ⟨hlength, FileTree.isDir_couple longName, FileTree.link_notMem_couple hname hbefore,
    ⟨_, _, FileTree.makesEmpty_couple longName⟩, ?_, _,
    FileTree.write_couple hname hbefore hascii (by decide +kernel) hmarked hruby (by omega) {}
      false, FileTree.readBytes_couple longName⟩
  rw [FileTree.entriesBelow_couple hname hmarked hruby]
  exact List.mem_cons_of_mem _ (List.mem_singleton_self _)

end ApiAtlas

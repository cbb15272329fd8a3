import ApiAtlas.Proofs.PageTargets

/-!
The same entries written more than once. Writing them again into their directory changes nothing,
and a directory that had no files comes out with the same files wherever it is and whatever else the
tree holds: names are given anew in every run, and what is there already has no say in them.
-/
namespace ApiAtlas

namespace FileTree

/-- The files that are right in a directory, by their names there. Without links, where the path
leads is told by its parts. -/
def filesIn (t : FileTree) (dir : Path) : Set (Bytes × Bytes) :=
  {file | t.top.get? (t.locationOf dir ++ [file.1]) = some (.file file.2)}

variable {t later : FileTree} {dir : Path}

theorem mem_filesIn_iff (t : FileTree) (dir : Path) (file : Bytes × Bytes) :
    file ∈ t.filesIn dir ↔ t.faceAt (t.locationOf dir ++ [file.1]) = some (.file file.2) :=
  (faceAt_eq_file_iff _ _ _).symm

theorem filesIn_of_missing (h : t.top.get? (t.locationOf dir) = none) : t.filesIn dir = ∅ := by
  rw [Set.eq_empty_iff_forall_notMem]
  intro file hfile
  obtain ⟨children, hchildren⟩ := isDirAt_of_append hfile (List.cons_ne_nil file.1 [])
  rw [h] at hchildren
  cases hchildren

theorem ConfinedTo.filesIn_eq {dirs files : Location → Prop} (h : ConfinedTo dirs files t later)
    (helsewhere : ∀ name, ¬ files (t.locationOf dir ++ [name])) :
    later.filesIn dir = t.filesIn dir := by
  ext file
  unfold filesIn
  rw [locationOf_keep h.keeps]
  exact h.get?_eq_file_iff (helsewhere file.1) file.2

theorem filesIn_made (t : FileTree) (p dir : Path) :
    (t.makeDirs p).1.filesIn dir = t.filesIn dir :=
  (t.confinedTo_made p).filesIn_eq fun _ => not_false

theorem filesIn_putFiles {files : List (Bytes × Bytes)} (hdir : t.IsDirAt (t.locationOf dir))
    (htakes : ∀ file ∈ files, t.TakesFile (t.locationOf dir ++ [file.1]))
    (hempty : t.filesIn dir = ∅) :
    (t.putFiles (t.locationOf dir) files).filesIn dir =
      {file | (files.filter (·.1 = file.1)).getLast? = some file} := by
  obtain ⟨hkeep, hfaces⟩ := putFiles_run hdir htakes
  ext file
  have hbefore : t.faceAt (t.locationOf dir ++ [file.1]) ≠ some (.file file.2) := by
    rw [Ne, ← mem_filesIn_iff, hempty]
    exact Set.notMem_empty file
  rw [mem_filesIn_iff, locationOf_keep hkeep, hfaces, faceAfter_name, Set.mem_ofPred_eq]
  cases hlast : (files.filter (·.1 = file.1)).getLast? with
  | none => simpa using hbefore
  | some last =>
    have hname : last.1 = file.1 :=
      of_decide_eq_true (List.mem_filter.mp (List.mem_of_getLast? hlast)).2
    simp [Prod.ext_iff, hname]

end FileTree

namespace PageWriter

section

variable {w : PageWriter} {origins : Origins} {t later : FileTree} {entries : List Entry}
  {dir : Path} {generated : List Path}
  (hlinks : ∀ location target, t.top.get? location ≠ some (.link target))
  (h : w.writeBy origins t entries dir = (later, .ok generated))
include hlinks

theorem made_there_eq {left : Nat} {there : Location}
    (hleads : (t.makeDirs dir).1.LeadsTo dir left there) : there = t.locationOf dir := by
  have hkeep : t.Keeps (t.makeDirs dir).1 := FileTree.keeps_makeDirs dir
  rw [← FileTree.locationOf_keep hkeep]
  exact hleads.there_eq_foldl fun _ _ => hkeep.noLinks hlinks _

include h

theorem keeps_writeBy : t.Keeps later :=
  (confinedTo_of_writeBy (fun location target _ => hlinks location target) h).keeps

/-- What a run leaves in a directory that had no files depends on the entries alone. -/
theorem filesIn_of_writeBy (hempty : t.filesIn dir = ∅) : later.filesIn dir =
    {file | ((w.filesBy origins entries).filter (·.1 = file.1)).getLast? = some file} := by
  have hmade : (t.makeDirs dir).1.filesIn dir = ∅ := (t.filesIn_made dir dir).trans hempty
  rcases putFiles_of_writeBy (fun location target _ => hlinks location target) h with
    ⟨hnone, rfl⟩ | ⟨left, there, hleads, hroom, rfl⟩
  · rw [hmade, hnone]
    simp
  · have hthere := made_there_eq hlinks hleads
    rw [← FileTree.locationOf_keep (FileTree.keeps_makeDirs dir)] at hthere
    rw [hthere] at hleads hroom ⊢
    exact FileTree.filesIn_putFiles hleads.isDirAt (fun file hfile => (hroom file hfile).takes) hmade

theorem filesIn_elsewhere {other : Path} (hother : t.locationOf other ≠ t.locationOf dir) :
    later.filesIn other = t.filesIn other := by
  refine (confinedTo_of_writeBy (fun location target _ => hlinks location target) h).filesIn_eq ?_
  rintro name ⟨there, node, hplace, page, -, heq⟩
  obtain ⟨⟨left, hleads⟩, -⟩ := FileTree.place_eq_ok_iff.mp hplace
  apply hother
  rw [(List.append_inj' heq rfl).1, made_there_eq hlinks hleads]

theorem filesIn_eq_of_writeBy_both {later' : FileTree} {dir' : Path} {generated' : List Path}
    (hempty : t.filesIn dir = ∅) (hempty' : t.filesIn dir' = ∅)
    (h' : w.writeBy origins later entries dir' = (later', .ok generated')) :
    later'.filesIn dir = later'.filesIn dir' := by
  have hkeep := keeps_writeBy hlinks h
  have hlinks' := hkeep.noLinks hlinks
  by_cases hsame : t.locationOf dir' = t.locationOf dir
  · have hkeep' := hkeep.trans (keeps_writeBy hlinks' h')
    unfold FileTree.filesIn
    rw [FileTree.locationOf_keep hkeep', FileTree.locationOf_keep hkeep', hsame]
  · have hsecond : later.filesIn dir' = ∅ := (filesIn_elsewhere hlinks h hsame).trans hempty'
    have hother : later.locationOf dir ≠ later.locationOf dir' := by
      rw [FileTree.locationOf_keep hkeep, FileTree.locationOf_keep hkeep]
      exact Ne.symm hsame
    rw [filesIn_elsewhere hlinks' h' hother, filesIn_of_writeBy hlinks h hempty,
      filesIn_of_writeBy hlinks' h' hsecond]

end

/-- A run that comes to its end can be made again, with the same paths and no change. Two runs into
directories without files leave the same files in them, in two trees or one after the other in one. -/
theorem writeBy_repeats (w : PageWriter) (origins : Origins) (t later : FileTree)
    (entries : List Entry) (dir : Path) (generated : List Path) (hwell : t.top.WellFormed)
    (hlinks : ∀ location target, t.top.get? location ≠ some (.link target))
    (h : w.writeBy origins t entries dir = (later, .ok generated)) :
    w.writeBy origins later entries dir = (later, .ok generated) ∧
    ∀ dir', t.filesIn dir = ∅ →
      (∀ t' later' generated', (∀ location target, t'.top.get? location ≠ some (.link target)) →
        t'.filesIn dir' = ∅ → w.writeBy origins t' entries dir' = (later', .ok generated') →
          later.filesIn dir = later'.filesIn dir') ∧
      ∀ later' generated', t.filesIn dir' = ∅ →
        w.writeBy origins later entries dir' = (later', .ok generated') →
          later'.filesIn dir = later'.filesIn dir' := by
  refine ⟨writeBy_again hwell hlinks h, fun dir' hempty => ⟨?_, ?_⟩⟩
  · intro t' later' generated' hlinks' hempty' h'
    rw [filesIn_of_writeBy hlinks h hempty, filesIn_of_writeBy hlinks' h' hempty']
  · intro later' generated' hempty' h'
    exact filesIn_eq_of_writeBy_both hlinks h hempty hempty' h'

theorem writeBy_repeats_clashing :
    ∃ later later', namingWriter.writeBy blankOrigins .empty clashingEntries (.ofString "out") =
        (later, .ok [.ofString "out/a.md", .ofString "out/a-00000000.md",
          .ofString "out/a-00000000-00000000.md"]) ∧
      namingWriter.writeBy blankOrigins later clashingEntries (.ofString "out") =
        (later, .ok [.ofString "out/a.md", .ofString "out/a-00000000.md",
          .ofString "out/a-00000000-00000000.md"]) ∧
      namingWriter.writeBy blankOrigins later clashingEntries (.ofString "in/other") =
        (later', .ok [.ofString "in/other/a.md", .ofString "in/other/a-00000000.md",
          .ofString "in/other/a-00000000-00000000.md"]) ∧
      later'.filesIn (.ofString "out") = later'.filesIn (.ofString "in/other") := by
  have hrun : namingWriter.writeBy blankOrigins .empty clashingEntries (.ofString "out") =
      ((namingWriter.writeBy blankOrigins .empty clashingEntries (.ofString "out")).1,
        .ok [.ofString "out/a.md", .ofString "out/a-00000000.md",
          .ofString "out/a-00000000-00000000.md"]) := Prod.ext rfl (by cbv)
  have hother : namingWriter.writeBy blankOrigins
      (namingWriter.writeBy blankOrigins .empty clashingEntries (.ofString "out")).1
        clashingEntries (.ofString "in/other") =
      ((namingWriter.writeBy blankOrigins
        (namingWriter.writeBy blankOrigins .empty clashingEntries (.ofString "out")).1
          clashingEntries (.ofString "in/other")).1,
        .ok [.ofString "in/other/a.md", .ofString "in/other/a-00000000.md",
          .ofString "in/other/a-00000000-00000000.md"]) := Prod.ext rfl (by cbv)
  have hempty : FileTree.empty.filesIn (.ofString "out") = ∅ :=
    FileTree.filesIn_of_missing (by cbv)
  have hempty' : FileTree.empty.filesIn (.ofString "in/other") = ∅ :=
    FileTree.filesIn_of_missing (by cbv)
  obtain ⟨hagain, hboth⟩ := writeBy_repeats namingWriter blankOrigins .empty _ clashingEntries _ _
    FileTree.wellFormed_empty link_notMem_empty hrun
  exact ⟨_, _, hrun, hagain, hother, (hboth _ hempty).2 _ _ hempty' hother⟩

end PageWriter

end ApiAtlas

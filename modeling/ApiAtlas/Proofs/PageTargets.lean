import ApiAtlas.Proofs.FileTree.Confined
import ApiAtlas.Proofs.FileTree.Writing

/-!
Where the pages of a run go: under their names, in the directory that is made for them. A run that
comes to its end puts them there, provided none of these places is a link, and beside them only
directories can be new.
-/
namespace ApiAtlas

namespace FileTree

/-- A place for a file of one of the names, in the directory that `dir` is once it is made. -/
def IsTarget (t : FileTree) (dir : Path) (names : List Bytes) (location : Location) : Prop :=
  ∃ there node, (t.makeDirs dir).1.place dir = .ok (.node there node) ∧
    ∃ name ∈ names, location = there ++ [name]

variable {t later : FileTree} {dir : Path} {left : Nat} {there : Location}

theorem isTarget_iff (hleads : (t.makeDirs dir).1.LeadsTo dir left there) {names : List Bytes}
    {location : Location} :
    t.IsTarget dir names location ↔ ∃ name ∈ names, location = there ++ [name] := by
  constructor
  · rintro ⟨there', node, hplace, hname⟩
    obtain ⟨⟨left', hleads'⟩, -⟩ := place_eq_ok_iff.mp hplace
    rwa [hleads.there_eq hleads']
  · intro hname
    obtain ⟨node, hplace⟩ := hleads.place_eq
    exact ⟨there, node, hplace, hname⟩

namespace ConfinedTo

variable {dirs files dirs' files' : Location → Prop}

theorem mono (h : ConfinedTo dirs files t later) (hdirs : ∀ location, dirs location → dirs' location)
    (hfiles : ∀ location, files location → files' location) : ConfinedTo dirs' files' t later where
  workingDir := h.workingDir
  faces location := (h.faces location).imp_right
    (Or.imp (And.imp_left (hdirs location)) (And.imp_left (hfiles location)))

theorem dirs_later (h : ConfinedTo dirs files t later) : ConfinedTo later.IsDirAt files t later where
  workingDir := h.workingDir
  faces location := (h.faces location).imp_right (Or.imp_left fun ⟨_, hnone, hdir⟩ =>
    ⟨(later.faceAt_eq_dir_iff location).mp hdir, hnone, hdir⟩)

theorem get?_eq_file_iff (h : ConfinedTo dirs files t later) {location : Location}
    (hfiles : ¬ files location) (content : Bytes) :
    later.top.get? location = some (.file content) ↔
      t.top.get? location = some (.file content) := by
  rw [← faceAt_eq_file_iff, ← faceAt_eq_file_iff]
  rcases h.faces location with hsame | ⟨-, hnone, hdir⟩ | ⟨hfile, -⟩
  · rw [hsame]
  · simp [hnone, hdir]
  · exact absurd hfile hfiles

end ConfinedTo

theorem confinedTo_made (t : FileTree) (p : Path) :
    ConfinedTo (t.makeDirs p).1.IsDirAt (fun _ => False) t (t.makeDirs p).1 := by
  have hstep (q : Path) (_ : q ∈ p.ancestors) (mid later : FileTree)
      (h : ConfinedTo (fun _ => True) (fun _ => False) t mid) (hmake : mid.makeDir q = .ok later) :
      ConfinedTo (fun _ => True) (fun _ => False) t later := by
    obtain ⟨there, name, htakes, rfl⟩ := makeDir_eq_ok_iff.mp hmake
    obtain ⟨front, left, -, hleads⟩ := htakes.way
    exact h.trans (confinedTo_putAt hleads.isDirAt (.inl htakes.free) (fun _ => rfl)
      (.inl ⟨trivial, (faceAt_eq_none_iff _ _).mpr htakes.free, rfl⟩))
  exact (makeDirs_induction hstep (.refl t)).dirs_later

theorem confinedTo_putFiles {dirs files : Location → Prop} {pages : List (Bytes × Bytes)}
    (hdir : t.IsDirAt there) (htakes : ∀ page ∈ pages, t.TakesFile (there ++ [page.1]))
    (hfiles : ∀ page ∈ pages, files (there ++ [page.1])) :
    ConfinedTo dirs files t (t.putFiles there pages) := by
  obtain ⟨hkeep, hfaces⟩ := putFiles_run hdir htakes
  refine ⟨hkeep.workingDir, fun location => ?_⟩
  rw [hfaces]
  rcases faceAfter_cases there pages location with hsame | ⟨page, hpage, rfl, hface⟩
  · exact .inl (hsame _)
  · exact .inr (.inr ⟨hfiles page hpage, htakes page hpage, page.2, hface _⟩)

end FileTree

namespace PageWriter

variable {w : PageWriter} {origins : Origins} {t later : FileTree} {entries : List Entry}
  {dir : Path} {generated : List Path}

/-- A run that comes to its end had room for each page, and put each in its place. -/
theorem putFiles_of_writeBy
    (hlinks : ∀ location target,
      t.IsTarget dir ((w.filesBy origins entries).map Prod.fst) location →
        t.top.get? location ≠ some (.link target))
    (h : w.writeBy origins t entries dir = (later, .ok generated)) :
    w.filesBy origins entries = [] ∧ later = (t.makeDirs dir).1 ∨
      ∃ left there, (t.makeDirs dir).1.LeadsTo dir left there ∧
        (∀ file ∈ w.filesBy origins entries, (t.makeDirs dir).1.HasRoom dir there file.1) ∧
        later = (t.makeDirs dir).1.putFiles there (w.filesBy origins entries) := by
  have hkeep : t.Keeps (t.makeDirs dir).1 := FileTree.keeps_makeDirs dir
  refine FileTree.writePages_cases (fun file => isName_of_mem_filesBy) ?_ (writeBy_eq_ok h).2
  intro left there hleads file hfile target hlink
  exact hlinks _ target ((FileTree.isTarget_iff hleads).mpr
    ⟨file.1, List.mem_map_of_mem hfile, rfl⟩) ((hkeep.links _ _).mp hlink)

theorem writeBy_of_hasRoom {made : FileTree} {left : Nat} {there : Location}
    (hmade : t.makeDirs dir = (made, .ok ())) (hleads : made.LeadsTo dir left there)
    (hroom : ∀ file ∈ w.filesBy origins entries, made.HasRoom dir there file.1) :
    w.writeBy origins t entries dir = (made.putFiles there (w.filesBy origins entries),
      .ok (((w.filesBy origins entries).map Prod.fst).map fun name => dir.join ⟨name⟩)) := by
  refine writeBy_eq_ok_iff.mpr ⟨rfl, made, hmade, ?_⟩
  refine (FileTree.writePages_eq_ok_iff (fun file => isName_of_mem_filesBy) hleads ?_).mpr
    ⟨hroom, rfl⟩
  intro file hfile target hlink
  rcases (hroom file hfile).takes with hfree | ⟨content, hcontent⟩
  · rw [hfree] at hlink
    cases hlink
  · rw [hcontent] at hlink
    cases hlink

theorem confinedTo_of_writeBy
    (hlinks : ∀ location target,
      t.IsTarget dir ((w.filesBy origins entries).map Prod.fst) location →
        t.top.get? location ≠ some (.link target))
    (h : w.writeBy origins t entries dir = (later, .ok generated)) :
    FileTree.ConfinedTo (t.makeDirs dir).1.IsDirAt
      (t.IsTarget dir ((w.filesBy origins entries).map Prod.fst)) t later := by
  have hmade := (t.confinedTo_made dir).mono (fun _ h => h) fun location hfalse =>
    (False.elim hfalse : t.IsTarget dir ((w.filesBy origins entries).map Prod.fst) location)
  rcases putFiles_of_writeBy hlinks h with ⟨-, rfl⟩ | ⟨left, there, hleads, hroom, rfl⟩
  · exact hmade
  · refine hmade.trans (FileTree.confinedTo_putFiles hleads.isDirAt
      (fun file hfile => (hroom file hfile).takes) fun file hfile => ?_)
    exact (FileTree.isTarget_iff hleads).mpr ⟨file.1, List.mem_map_of_mem hfile, rfl⟩

end PageWriter

theorem FileTree.wellFormed_empty : FileTree.empty.top.WellFormed := by
  have hname : Path.IsName (Bytes.ofString "work") := by constructor <;> decide
  exact ⟨⟨hname, trivial, trivial⟩, by simp, trivial, trivial⟩

end ApiAtlas

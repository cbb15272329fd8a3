import ApiAtlas.Proofs.FileTree.Ways
import ApiAtlas.Proofs.Pages

/-!
A run of pages as a change of the tree. Where no links are in the way, writing pages comes down to
putting one file after the other into the directory, up to the first that is refused; so it succeeds
exactly if each can be written on its own. Only the locations of the pages change, and doing it again
changes nothing.
-/
namespace ApiAtlas

namespace FileTree

def putFiles (t : FileTree) (there : Location) (files : List (Bytes × Bytes)) : FileTree :=
  files.foldl (fun t file => t.putAt (there ++ [file.1]) (.file file.2)) t

theorem putFiles_cons (t : FileTree) (there : Location) (file : Bytes × Bytes)
    (files : List (Bytes × Bytes)) :
    t.putFiles there (file :: files) =
      (t.putAt (there ++ [file.1]) (.file file.2)).putFiles there files := rfl

/-- What is shown at a location after files were put into a directory in turn. -/
def faceAfter (there : Location) (files : List (Bytes × Bytes)) (location : Location)
    (before : Option Face) : Option Face :=
  files.foldl (fun face file => if location = there ++ [file.1] then some (.file file.2) else face)
    before

theorem foldl_keepLast {α β : Type} (holds : α → Prop) [DecidablePred holds] (value : α → β)
    (items : List α) (before : Option β) :
    items.foldl (fun kept item => if holds item then some (value item) else kept) before =
      ((items.filter holds).getLast?.map value).or before := by
  induction items using List.reverseRecOn with
  | nil => rfl
  | append_singleton front final ih =>
    rw [List.foldl_append, List.foldl_cons, List.foldl_nil, ih, List.filter_append,
      List.filter_singleton]
    by_cases hfinal : holds final
    · simp [hfinal]
    · simp [hfinal]

theorem faceAfter_eq (there : Location) (files : List (Bytes × Bytes)) (location : Location)
    (before : Option Face) :
    faceAfter there files location before =
      ((files.filter (location = there ++ [·.1])).getLast?.map fun file => .file file.2).or before :=
  foldl_keepLast _ _ files before

theorem faceAfter_name (there : Location) (files : List (Bytes × Bytes)) (name : Bytes)
    (before : Option Face) :
    faceAfter there files (there ++ [name]) before =
      ((files.filter (·.1 = name)).getLast?.map fun file => .file file.2).or before := by
  have hname : files.filter (there ++ [name] = there ++ [·.1]) = files.filter (·.1 = name) := by
    apply List.filter_congr
    intro file _
    simp [eq_comm]
  rw [faceAfter_eq, hname]

theorem faceAfter_cases (there : Location) (files : List (Bytes × Bytes)) (location : Location) :
    (∀ before, faceAfter there files location before = before) ∨
      ∃ file ∈ files, location = there ++ [file.1] ∧
        ∀ before, faceAfter there files location before = some (.file file.2) := by
  simp only [faceAfter_eq]
  cases hlast : (files.filter (location = there ++ [·.1])).getLast? with
  | none => exact .inl fun before => rfl
  | some file =>
    obtain ⟨hfile, hlocation⟩ := List.mem_filter.mp (List.mem_of_getLast? hlast)
    exact .inr ⟨file, hfile, of_decide_eq_true hlocation, fun before => rfl⟩

theorem faceAfter_of_mem {files : List (Bytes × Bytes)} {file : Bytes × Bytes} (h : file ∈ files)
    (there : Location) (before : Option Face) :
    ∃ content, faceAfter there files (there ++ [file.1]) before = some (.file content) := by
  have hmem : file ∈ files.filter (there ++ [file.1] = there ++ [·.1]) :=
    List.mem_filter.mpr ⟨h, decide_eq_true rfl⟩
  rw [faceAfter_eq, List.getLast?_eq_some_getLast (List.ne_nil_of_mem hmem)]
  exact ⟨_, rfl⟩

theorem faceAfter_again (there : Location) (files : List (Bytes × Bytes)) (location : Location)
    (before : Option Face) :
    faceAfter there files location (faceAfter there files location before) =
      faceAfter there files location before := by
  rcases faceAfter_cases there files location with hsame | ⟨file, -, -, hfile⟩
  · rw [hsame, hsame]
  · rw [hfile, hfile]

theorem child?_file (content name : Bytes) : (Node.file content).child? name = none := rfl

section

variable {t later : FileTree} {there : Location}

theorem takesFile_putAt_iff {name : Bytes} (hdir : t.IsDirAt there)
    (h : t.TakesFile (there ++ [name])) (content other : Bytes) :
    (t.putAt (there ++ [name]) (.file content)).TakesFile (there ++ [other]) ↔
      t.TakesFile (there ++ [other]) := by
  rw [takesFile_iff, faceAt_putAt hdir h (child?_file content)]
  split
  · rename_i heq
    rw [heq]
    exact iff_of_true (.inr ⟨content, rfl⟩) h
  · exact (takesFile_iff _ _).symm

/-- Files put where there is room for them leave every way as it was, and show up one by one. -/
theorem putFiles_run {files : List (Bytes × Bytes)} (hdir : t.IsDirAt there)
    (htakes : ∀ file ∈ files, t.TakesFile (there ++ [file.1])) :
    t.Keeps (t.putFiles there files) ∧ ∀ location,
      (t.putFiles there files).faceAt location =
        faceAfter there files location (t.faceAt location) := by
  induction files generalizing t with
  | nil => exact ⟨.refl t, fun location => rfl⟩
  | cons file files ih =>
    rw [List.forall_mem_cons] at htakes
    have hkeep := keeps_putAt_file htakes.1 file.2
    obtain ⟨hrest, hfaces⟩ := ih (hkeep.dirs there hdir) fun other hother =>
      (takesFile_putAt_iff hdir htakes.1 file.2 other.1).mpr (htakes.2 other hother)
    refine ⟨hkeep.trans hrest, fun location => ?_⟩
    rw [putFiles_cons, hfaces, faceAt_putAt hdir htakes.1 (child?_file file.2)]
    rfl

theorem wellFormed_putFiles {files : List (Bytes × Bytes)} (hwell : t.top.WellFormed)
    (hnames : ∀ file ∈ files, Path.IsName file.1) : (t.putFiles there files).top.WellFormed := by
  induction files generalizing t with
  | nil => exact hwell
  | cons file files ih =>
    rw [List.forall_mem_cons] at hnames
    exact ih (hwell.put (Node.wellFormed_file file.2) there hnames.1) hnames.2

theorem takesFile_putFiles {files : List (Bytes × Bytes)} (hdir : t.IsDirAt there)
    (htakes : ∀ file ∈ files, t.TakesFile (there ++ [file.1])) {location : Location}
    (h : t.TakesFile location) : (t.putFiles there files).TakesFile location := by
  rw [takesFile_iff, (putFiles_run hdir htakes).2]
  rcases faceAfter_cases there files location with hsame | ⟨other, -, -, hother⟩
  · rw [hsame]
    exact (takesFile_iff _ _).mp h
  · exact .inr ⟨other.2, hother _⟩

theorem putFiles_again {files : List (Bytes × Bytes)} (hwell : t.top.WellFormed)
    (hdir : t.IsDirAt there) (hnames : ∀ file ∈ files, Path.IsName file.1)
    (htakes : ∀ file ∈ files, t.TakesFile (there ++ [file.1])) :
    (t.putFiles there files).putFiles there files = t.putFiles there files := by
  obtain ⟨hkeep, hfaces⟩ := putFiles_run hdir htakes
  obtain ⟨hkeep', hfaces'⟩ := putFiles_run (hkeep.dirs there hdir) fun file hfile =>
    takesFile_putFiles hdir htakes (htakes file hfile)
  have hwell' : (t.putFiles there files).top.WellFormed := wellFormed_putFiles hwell hnames
  apply eq_of_faceAt (wellFormed_putFiles hwell' hnames) hwell' hkeep'.workingDir
  intro location
  rw [hfaces', hfaces, faceAfter_again]

end

section

variable {t later : FileTree} {dir : Path} {left : Nat} {there : Location}

/-- What it takes to write a file in a directory. -/
structure HasRoom (t : FileTree) (dir : Path) (there : Location) (name : Bytes) : Prop where
  check : checkPath (dir.join ⟨name⟩) = .ok ()
  short : name.length ≤ maxName
  takes : t.TakesFile (there ++ [name])

theorem takesFile_iff_of_noLink {location : Location}
    (hlink : ∀ target, t.top.get? location ≠ some (.link target)) :
    t.TakesFile location ↔ t.faceAt location ≠ some .dir := by
  rw [takesFile_iff]
  cases hface : t.faceAt location with
  | none => simp
  | some face =>
    cases face with
    | file content => simp
    | dir => simp
    | link target => exact absurd ((t.faceAt_eq_link_iff _ _).mp hface) (hlink target)

/-- Why a directory does not take a file under a name, unless it does. -/
def refusal? (t : FileTree) (dir : Path) (there : Location) (name : Bytes) : Option IoError :=
  match checkPath (dir.join ⟨name⟩) with
  | .error e => some e
  | .ok () =>
    if maxName < name.length then some .nameTooLong
    else if t.faceAt (there ++ [name]) = some .dir then some .isDirectory
    else none

theorem refusal?_eq_none_iff {name : Bytes}
    (hlink : ∀ target, t.top.get? (there ++ [name]) ≠ some (.link target)) :
    t.refusal? dir there name = none ↔ t.HasRoom dir there name := by
  have htakes := takesFile_iff_of_noLink hlink
  unfold refusal?
  split
  · rename_i e hcheck
    have hnone : ¬ t.HasRoom dir there name := by
      rintro ⟨hok, -, -⟩
      rw [hcheck] at hok
      cases hok
    simp [hnone]
  · rename_i hcheck
    constructor
    · intro h
      split_ifs at h with hlong hdir
      exact ⟨hcheck, Nat.not_lt.mp hlong, htakes.mpr hdir⟩
    · intro h
      rw [if_neg (Nat.not_lt.mpr h.short), if_neg (htakes.mp h.takes)]

theorem writeFile_eq_refusal {name : Bytes} (hname : Path.IsName name)
    (hleads : t.LeadsTo dir left there)
    (hlink : ∀ target, t.top.get? (there ++ [name]) ≠ some (.link target)) (content : Bytes) :
    t.writeFile (dir.join ⟨name⟩) content =
      match t.refusal? dir there name with
      | some e => .error e
      | none => .ok (t.putAt (there ++ [name]) (.file content)) := by
  obtain ⟨children, hchildren⟩ := hleads.isDirAt
  unfold writeFile refusal?
  cases hcheck : checkPath (dir.join ⟨name⟩) with
  | error e =>
    unfold resolve
    rw [hcheck]
    rfl
  | ok u =>
    rw [resolve_join hname hleads .write hcheck, resolveFrom_name hname hchildren .write hlink]
    by_cases hlong : maxName < name.length
    · simp only [if_pos hlong]
      rfl
    · simp only [if_neg hlong]
      by_cases hdir : t.faceAt (there ++ [name]) = some .dir
      · obtain ⟨inner, hinner⟩ := (t.faceAt_eq_dir_iff _).mp hdir
        rw [if_pos hdir, hinner]
        rfl
      · rw [if_neg hdir]
        rcases (takesFile_iff_of_noLink hlink).mpr hdir with hfree | ⟨old, hfile⟩
        · rw [hfree]
          rfl
        · rw [hfile]
          rfl

theorem refusal?_putAt {name : Bytes} (hdir : t.IsDirAt there) (h : t.TakesFile (there ++ [name]))
    (content other : Bytes) :
    (t.putAt (there ++ [name]) (.file content)).refusal? dir there other =
      t.refusal? dir there other := by
  have hface : (t.putAt (there ++ [name]) (.file content)).faceAt (there ++ [other]) = some .dir ↔
      t.faceAt (there ++ [other]) = some .dir := by
    rw [faceAt_putAt hdir h (child?_file content)]
    split
    · rename_i heq
      rw [heq]
      rcases (takesFile_iff _ _).mp h with hfree | ⟨old, hfile⟩
      · simp [hfree, Node.face]
      · simp [hfile, Node.face]
    · rfl
  unfold refusal?
  simp only [hface]

/-- Pages are written one by one up to the first that is refused; the run ends there, with the
error of that page. -/
theorem writePages_eq {files : List (Bytes × Bytes)}
    (hnames : ∀ file ∈ files, Path.IsName file.1) (hleads : t.LeadsTo dir left there)
    (hlinks : ∀ file ∈ files, ∀ target, t.top.get? (there ++ [file.1]) ≠ some (.link target)) :
    t.writePages (files.map (Page.within dir)) =
      (t.putFiles there (files.takeWhile fun file => (t.refusal? dir there file.1).isNone),
        match files.findSome? fun file => t.refusal? dir there file.1 with
        | some e => .error e
        | none => .ok ()) := by
  induction files generalizing t with
  | nil => rfl
  | cons file files ih =>
    rw [List.forall_mem_cons] at hnames hlinks
    have hwrite := writeFile_eq_refusal hnames.1 hleads hlinks.1 file.2
    rw [List.map_cons, writePages, Page.within, hwrite, List.takeWhile_cons, List.findSome?_cons]
    cases hrefusal : t.refusal? dir there file.1 with
    | some e => rfl
    | none =>
      have htakes := ((refusal?_eq_none_iff hlinks.1).mp hrefusal).takes
      -- Once the first page is written, the rest finds the same room as before.
      have hkeep := keeps_putAt_file htakes file.2
      have hrest := ih hnames.2 (LeadsTo.keep hkeep hleads)
        fun other hother target hlink => hlinks.2 other hother target ((hkeep.links _ _).mp hlink)
      simp only [refusal?_putAt hleads.isDirAt htakes] at hrest
      exact hrest

theorem writePages_eq_ok_iff {files : List (Bytes × Bytes)}
    (hnames : ∀ file ∈ files, Path.IsName file.1) (hleads : t.LeadsTo dir left there)
    (hlinks : ∀ file ∈ files, ∀ target, t.top.get? (there ++ [file.1]) ≠ some (.link target)) :
    t.writePages (files.map (Page.within dir)) = (later, .ok ()) ↔
      (∀ file ∈ files, t.HasRoom dir there file.1) ∧ later = t.putFiles there files := by
  have hroom : (∀ file ∈ files, t.HasRoom dir there file.1) ↔
      ∀ file ∈ files, t.refusal? dir there file.1 = none :=
    forall₂_congr fun file hfile => (refusal?_eq_none_iff (hlinks file hfile)).symm
  rw [writePages_eq hnames hleads hlinks, hroom, ← List.findSome?_eq_none_iff]
  cases hfirst : files.findSome? fun file => t.refusal? dir there file.1 with
  | some e => simp
  | none =>
    have hall : files.takeWhile (fun file => (t.refusal? dir there file.1).isNone) = files := by
      rw [List.takeWhile_eq_self_iff]
      intro file hfile
      rw [List.findSome?_eq_none_iff.mp hfirst file hfile]
      rfl
    simp [hall, eq_comm]

theorem writePages_eq_error_iff {files : List (Bytes × Bytes)}
    (hnames : ∀ file ∈ files, Path.IsName file.1) (hleads : t.LeadsTo dir left there)
    (hlinks : ∀ file ∈ files, ∀ target, t.top.get? (there ++ [file.1]) ≠ some (.link target))
    {e : IoError} :
    t.writePages (files.map (Page.within dir)) = (later, .error e) ↔
      ∃ front file rest, files = front ++ file :: rest ∧ t.refusal? dir there file.1 = some e ∧
        (∀ earlier ∈ front, t.HasRoom dir there earlier.1) ∧ later = t.putFiles there front := by
  rw [writePages_eq hnames hleads hlinks]
  constructor
  · intro h
    obtain ⟨rfl, hstop⟩ := Prod.mk.inj h
    split at hstop
    · rename_i cause hfirst
      cases hstop
      obtain ⟨front, file, rest, rfl, hfile, hfront⟩ := List.findSome?_eq_some_iff.mp hfirst
      refine ⟨front, file, rest, rfl, hfile, fun earlier hearlier => ?_, ?_⟩
      · exact (refusal?_eq_none_iff (hlinks earlier (List.mem_append_left _ hearlier))).mp
          (hfront earlier hearlier)
      · rw [List.takeWhile_append_of_pos fun other hother => by rw [hfront other hother]; rfl,
          List.takeWhile_cons, hfile]
        simp
    · cases hstop
  · rintro ⟨front, file, rest, rfl, hfile, hroom, rfl⟩
    have hfront (other : Bytes × Bytes) (hother : other ∈ front) :
        t.refusal? dir there other.1 = none :=
      (refusal?_eq_none_iff (hlinks other (List.mem_append_left _ hother))).mpr (hroom other hother)
    rw [List.findSome?_eq_some_iff.mpr ⟨front, file, rest, rfl, hfile, hfront⟩,
      List.takeWhile_append_of_pos fun other hother => by rw [hfront other hother]; rfl,
      List.takeWhile_cons, hfile]
    simp

theorem writePages_cases {files : List (Bytes × Bytes)}
    (hnames : ∀ file ∈ files, Path.IsName file.1)
    (hlinks : ∀ left there, t.LeadsTo dir left there →
      ∀ file ∈ files, ∀ target, t.top.get? (there ++ [file.1]) ≠ some (.link target))
    (h : t.writePages (files.map (Page.within dir)) = (later, .ok ())) :
    files = [] ∧ later = t ∨ ∃ left there, t.LeadsTo dir left there ∧
      (∀ file ∈ files, t.HasRoom dir there file.1) ∧ later = t.putFiles there files := by
  cases files with
  | nil =>
    cases h
    exact .inl ⟨rfl, rfl⟩
  | cons first files =>
    obtain ⟨left, there, hleads⟩ :=
      PageWriter.leads_of_writePages (hnames first List.mem_cons_self) h
    exact .inr ⟨left, there, hleads,
      (writePages_eq_ok_iff hnames hleads (hlinks left there hleads)).mp h⟩

end

theorem wellFormed_makeDirs {t : FileTree} (h : t.top.WellFormed) (p : Path) :
    (t.makeDirs p).1.top.WellFormed := by
  have hstep (t : FileTree) (p : Path) (later : FileTree) (hwell : t.top.WellFormed)
      (hmake : t.makeDir p = .ok later) : later.top.WellFormed := by
    obtain ⟨there, name, htakes, rfl⟩ := makeDir_eq_ok_iff.mp hmake
    exact hwell.put Node.wellFormed_emptyDir there htakes.isName
  exact makeDirs_induction (fun q _ t later => hstep t q later) h

theorem writePages_again {t made later : FileTree} {dir : Path} {files : List (Bytes × Bytes)}
    (hmade : t.makeDirs dir = (made, .ok ())) (hwell : made.top.WellFormed)
    (hlinks : ∀ location target, made.top.get? location ≠ some (.link target))
    (hnames : ∀ file ∈ files, Path.IsName file.1)
    (h : made.writePages (files.map (Page.within dir)) = (later, .ok ())) :
    later.makeDirs dir = (later, .ok ()) ∧
      later.writePages (files.map (Page.within dir)) = (later, .ok ()) := by
  rcases writePages_cases hnames (fun _ there _ file _ => hlinks (there ++ [file.1])) h with
    ⟨rfl, rfl⟩ | ⟨left, there, hleads, hroom, rfl⟩
  · exact ⟨makeDirs_again hmade (.refl later), rfl⟩
  · have htakes (file : Bytes × Bytes) (hfile : file ∈ files) := (hroom file hfile).takes
    obtain ⟨hkeep, -⟩ := putFiles_run hleads.isDirAt htakes
    refine ⟨makeDirs_again hmade hkeep, ?_⟩
    rw [writePages_eq_ok_iff hnames (LeadsTo.keep hkeep hleads)
      fun file _ => hkeep.noLinks hlinks _]
    refine ⟨fun file hfile => ?_, (putFiles_again hwell hleads.isDirAt hnames htakes).symm⟩
    exact ⟨(hroom file hfile).check, (hroom file hfile).short,
      takesFile_putFiles hleads.isDirAt htakes (htakes file hfile)⟩

end FileTree

namespace PageWriter

variable {w : PageWriter} {origins : Origins} {t later : FileTree} {entries : List Entry}
  {dir : Path} {generated : List Path}

theorem writeBy_eq_ok_iff :
    w.writeBy origins t entries dir = (later, .ok generated) ↔
      generated = ((w.filesBy origins entries).map Prod.fst).map (fun name => dir.join ⟨name⟩) ∧
        ∃ made, t.makeDirs dir = (made, .ok ()) ∧
          made.writePages ((w.filesBy origins entries).map (Page.within dir)) =
            (later, .ok ()) := by
  have hpaths : (w.pagesBy origins entries dir).map (·.path) =
      ((w.filesBy origins entries).map Prod.fst).map (fun name => dir.join ⟨name⟩) := by
    rw [pagesBy_eq, List.map_map, List.map_map]
    rfl
  rw [← hpaths, ← pagesBy_eq]
  unfold writeBy
  constructor
  · intro h
    split at h
    · cases h
    · rename_i made hmade
      simp only at h
      split at h
      · cases h
      · rename_i written hwritten
        cases h
        exact ⟨rfl, made, hmade, hwritten⟩
  · rintro ⟨rfl, made, hmade, hwritten⟩
    rw [hmade]
    simp only [hwritten]

theorem writeBy_eq_error_iff {made : FileTree} {e : Error} (hmade : t.makeDirs dir = (made, .ok ())) :
    w.writeBy origins t entries dir = (later, .error e) ↔
      ∃ cause, made.writePages ((w.filesBy origins entries).map (Page.within dir)) =
        (later, .error cause) ∧ e = .io cause := by
  unfold writeBy
  rw [hmade, ← pagesBy_eq]
  simp only
  constructor
  · intro h
    split at h
    · rename_i stopped cause hstopped
      cases h
      exact ⟨cause, hstopped, rfl⟩
    · cases h
  · rintro ⟨cause, hstopped, rfl⟩
    rw [hstopped]

theorem writeBy_again (hwell : t.top.WellFormed)
    (hlinks : ∀ location target, t.top.get? location ≠ some (.link target))
    (h : w.writeBy origins t entries dir = (later, .ok generated)) :
    w.writeBy origins later entries dir = (later, .ok generated) := by
  obtain ⟨hgenerated, made, hmade, hwritten⟩ := writeBy_eq_ok_iff.mp h
  have hmadeWell := FileTree.wellFormed_makeDirs hwell dir
  have hkeep : t.Keeps (t.makeDirs dir).1 := FileTree.keeps_makeDirs dir
  rw [hmade] at hmadeWell hkeep
  obtain ⟨hdirs, hpages⟩ := FileTree.writePages_again hmade hmadeWell (hkeep.noLinks hlinks)
    (fun file => isName_of_mem_filesBy) hwritten
  exact writeBy_eq_ok_iff.mpr ⟨hgenerated, later, hdirs, hpages⟩

end PageWriter

end ApiAtlas

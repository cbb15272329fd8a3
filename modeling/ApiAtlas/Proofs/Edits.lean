import ApiAtlas.Proofs.Extraction
import ApiAtlas.Proofs.FileTree.Writing
import Mathlib

/-!
Edits stay local. When one file is rewritten, removed or replaced by an empty directory, every other
source reads as before, so a report changes in what it says of that file alone. An empty directory
can be walked through where a file cannot: a path that enters it and goes up again is the one kind
that an edit elsewhere reaches.
-/
namespace ApiAtlas

namespace FileTree

/-- `later` is `t` after an edit of the file that `p` denotes, at `spot`: it has another content, it
is gone, or an empty directory has taken its place. -/
structure Edited (t later : FileTree) (p : Path) (spot : Location) : Prop where
  workingDir : later.workingDir = t.workingDir
  file : ∃ content, t.resolve .look p = .ok (.node spot (.file content))
  others : ∀ location, location ≠ spot → later.faceAt location = t.faceAt location
  noLink : ∀ target, later.faceAt spot ≠ some (.link target)

/-- Following `parts` from `here`, with so many links allowed, comes to `spot` and asks to go up
from there. -/
inductive BacksOut (t : FileTree) (spot : Location) :
    (links : Nat) → (here : Location) → (parts : List Bytes) → Prop where
  | out {links : Nat} {rest : List Bytes} :
      BacksOut t spot links spot ([Path.dot, Path.dot] :: rest)
  | stay {links : Nat} {here : Location} {part : Bytes} {rest : List Bytes}
      (hdir : here = spot ∨ t.IsDirAt here) (hpart : part = [] ∨ part = [Path.dot])
      (hrest : BacksOut t spot links here rest) : BacksOut t spot links here (part :: rest)
  | up {links : Nat} {here : Location} {rest : List Bytes} (hdir : t.IsDirAt here)
      (hrest : BacksOut t spot links here.dropLast rest) :
      BacksOut t spot links here ([Path.dot, Path.dot] :: rest)
  | down {links : Nat} {here : Location} {part : Bytes} {rest : List Bytes} {node : Node}
      (hpart : ¬(part = [] ∨ part = [Path.dot])) (hdots : part ≠ [Path.dot, Path.dot])
      (hlength : part.length ≤ maxName) (hnode : t.top.get? (here ++ [part]) = some node)
      (hlink : ∀ target, node ≠ .link target)
      (hrest : BacksOut t spot links (here ++ [part]) rest) :
      BacksOut t spot links here (part :: rest)
  | follow {links : Nat} {here : Location} {part : Bytes} {rest : List Bytes} {target : Path}
      (hpart : ¬(part = [] ∨ part = [Path.dot])) (hdots : part ≠ [Path.dot, Path.dot])
      (hlength : part.length ≤ maxName)
      (hlink : t.top.get? (here ++ [part]) = some (.link target)) (htarget : target.bytes ≠ [])
      (hrest : BacksOut t spot links (startOf here target) (steps target ++ rest)) :
      BacksOut t spot (links + 1) here (part :: rest)

/-- The path `q` leads into `spot` and out of it again. -/
def Detours (t : FileTree) (spot : Location) (q : Path) : Prop :=
  t.BacksOut spot maxLinks (startOf t.workingDir q) (steps q)

def contentOf? : Except IoError Spot → Option Bytes
  | .ok (.node _ (.file content)) => some content
  | _ => none

theorem toOption_readBytes (t : FileTree) (q : Path) :
    (t.readBytes q).toOption = contentOf? (t.resolve .look q) := by
  unfold readBytes stat
  cases t.resolve .look q with
  | error e => rfl
  | ok spot =>
    cases spot with
    | vacant dir name => rfl
    | node location node => cases node <;> rfl

theorem toOption_readText (t : FileTree) (q : Path) :
    (t.readText q).toOption = (contentOf? (t.resolve .look q)).bind Utf8.decode := by
  rw [← toOption_readBytes]
  unfold readText
  cases t.readBytes q with
  | error e => rfl
  | ok content =>
    simp only [bind, Except.bind, Except.toOption, Option.bind]
    cases Utf8.decode content <;> rfl

theorem contentOf?_arrived (t : FileTree) (aim : Aim) (links : Nat) (here : Location) :
    contentOf? (t.resolveFrom aim links here []) =
      match t.faceAt here with
      | some (.file content) => some content
      | _ => none := by
  rw [resolveFrom_nil, faceAt]
  cases t.top.get? here with
  | none => rfl
  | some node => cases node <;> rfl

theorem contentOf?_of_none {t : FileTree} {here : Location} (h : t.faceAt here = none) (aim : Aim)
    (links : Nat) (parts : List Bytes) :
    contentOf? (t.resolveFrom aim links here parts) = none := by
  cases parts with
  | nil => rw [contentOf?_arrived, h]
  | cons part rest => rw [resolveFrom_cons, next, h]; rfl

theorem Moves.backsOut {t : FileTree} {spot : Location} {aim : Aim} {links links' : Nat}
    {here here' : Location} {part : Bytes} {rest parts : List Bytes}
    (h : t.Moves aim links here part rest links' here' parts)
    (hback : t.BacksOut spot links' here' parts) : t.BacksOut spot links here (part :: rest) := by
  cases h with
  | stay hdir hpart => exact .stay (.inr hdir) hpart hback
  | up hdir => exact .up hdir hback
  | down hname hnode hlink =>
    exact .down hname.notVoid hname.notDots hname.short hnode hlink hback
  | follow hname hlink _ htarget =>
    exact .follow hname.notVoid hname.notDots hname.short hlink htarget hback

namespace Edited

variable {t later : FileTree} {p : Path} {spot : Location}

theorem faceAt_spot (h : t.Edited later p spot) :
    ∃ content, t.faceAt spot = some (.file content) := by
  obtain ⟨content, hcontent⟩ := h.file
  exact ⟨content, (t.faceAt_eq_file_iff spot content).mpr (get?_of_resolve hcontent)⟩

theorem faceAt_below_spot (h : t.Edited later p spot) (name : Bytes) :
    later.faceAt (spot ++ [name]) = none := by
  obtain ⟨content, hcontent⟩ := h.faceAt_spot
  rw [h.others _ (by simp)]
  exact faceAt_below (by simp [hcontent]) name []

theorem contentOf?_spot (h : t.Edited later p spot) (links : Nat) {parts : List Bytes}
    (hparts : parts ≠ [])
    (hout : later.faceAt spot = some .dir → ¬ t.BacksOut spot links spot parts) :
    contentOf? (later.resolveFrom .look links spot parts) = none := by
  induction parts with
  | nil => exact absurd rfl hparts
  | cons part rest ih =>
    rw [resolveFrom_cons]
    unfold next
    rcases nextOf_cases .look links spot part rest (later.faceAt spot) with
      ⟨e, he⟩ | ⟨hdir, ⟨hpart, hnext⟩ | ⟨rfl, -⟩ | ⟨-, hnext⟩⟩
    · rw [he]
      rfl
    · rw [hnext]
      cases rest with
      | nil => rw [contentOf?_arrived, hdir]
      | cons next rest =>
        exact ih (List.cons_ne_nil next rest) fun hdir hback =>
          hout hdir (.stay (.inl rfl) hpart hback)
    · exact absurd .out (hout hdir)
    · rw [hnext, h.faceAt_below_spot, nextInto]
      simp only
      split <;> rfl

/-- A path that denotes another file, or none, has the same to be read in both trees. -/
theorem contentOf?_resolveFrom (h : t.Edited later p spot) {links : Nat} {here : Location}
    {parts : List Bytes}
    (hother : ∀ node, t.resolveFrom .look links here parts ≠ .ok (.node spot node))
    (hout : later.faceAt spot = some .dir → ¬ t.BacksOut spot links here parts) :
    contentOf? (later.resolveFrom .look links here parts) =
      contentOf? (t.resolveFrom .look links here parts) := by
  obtain ⟨content, hcontent⟩ := h.faceAt_spot
  have hfile := (t.faceAt_eq_file_iff spot content).mp hcontent
  induction links, here, parts using resolveFrom_induction t .look with
  | nil links here =>
    have hne : here ≠ spot := by
      rintro rfl
      exact hother (.file content) (by rw [resolveFrom_nil, hfile])
    rw [contentOf?_arrived, contentOf?_arrived, h.others here hne]
  | cons links here part rest ih =>
    have hgoes {links' : Nat} {here' : Location} {parts : List Bytes}
        (hmove : t.Moves .look links here part rest links' here' parts) :
        contentOf? (later.resolveFrom .look links' here' parts) =
          contentOf? (t.resolveFrom .look links' here' parts) := by
      rw [hmove.resolveFrom_eq] at hother
      exact ih links' here' parts hmove hother fun hdir hback => hout hdir (hmove.backsOut hback)
    by_cases hhere : here = spot
    · subst hhere
      rw [h.contentOf?_spot links (List.cons_ne_nil part rest) hout, resolveFrom_cons, next,
        hcontent]
      rfl
    rcases next_eq_or h.others hhere .look links part rest with hsame | ⟨rfl, hdir, hname⟩
    · rw [resolveFrom_cons, resolveFrom_cons, hsame]
      cases hnext : next .look links here part rest t with
      | ends found => rfl
      | goesOn links' here' parts => exact hgoes (moves_of_next hnext)
    · -- The part names the file, and what has taken its place if anything has.
      have hdown : t.Moves .look links here part rest links (here ++ [part]) rest :=
        .down hname hfile (by simp)
      have hlater : later.IsDirAt here := by
        rw [← faceAt_eq_dir_iff, h.others here hhere, faceAt_eq_dir_iff]
        exact hdir
      rw [hdown.resolveFrom_eq, ← hgoes hdown, resolveFrom_cons, next_of_lookup hname hlater]
      cases hface : later.faceAt (here ++ [part]) with
      | none =>
        rw [contentOf?_of_none hface, nextInto]
        simp only
        split <;> rfl
      | some face =>
        cases face with
        | file content => rfl
        | dir => rfl
        | link target => exact absurd hface (h.noLink target)

theorem toOption_readText (h : t.Edited later p spot) {q : Path}
    (hother : ∀ node, t.resolve .look q ≠ .ok (.node spot node))
    (hout : later.faceAt spot = some .dir → ¬ t.Detours spot q) :
    (later.readText q).toOption = (t.readText q).toOption := by
  rw [FileTree.toOption_readText, FileTree.toOption_readText]
  unfold resolve at hother ⊢
  cases hcheck : checkPath q with
  | error e => rfl
  | ok u =>
    rw [hcheck] at hother
    rw [h.workingDir]
    exact congrArg (·.bind Utf8.decode) (h.contentOf?_resolveFrom hother hout)

end Edited

theorem edited_putAt {t : FileTree} {p : Path} {there : Location} {name content : Bytes}
    (h : t.resolve .look p = .ok (.node (there ++ [name]) (.file content))) {new : Node}
    (hnew : ∀ n, new.child? n = none) (hlink : ∀ target, new ≠ .link target) :
    t.Edited (t.putAt (there ++ [name]) new) p (there ++ [name]) := by
  have hfile := get?_of_resolve h
  have hface := faceAt_putAt (isDirAt_of_append hfile (List.cons_ne_nil name []))
    (.inr ⟨content, hfile⟩) hnew
  refine ⟨rfl, ⟨content, h⟩, ?_, ?_⟩
  · intro location hne
    rw [hface, if_neg hne]
  · intro target htarget
    rw [hface, if_pos rfl] at htarget
    cases new with
    | link other => exact hlink other rfl
    | file content => cases htarget
    | dir children => cases htarget

end FileTree

theorem Grammar.file_of_mem_scan {g : Grammar} {path : Path} {text : List Char} {e : Entry}
    (h : e ∈ g.scan path text) : e.file = path := by
  cases g with
  | qualified g =>
    obtain ⟨hit, _, rfl⟩ := List.mem_map.mp h
    rfl
  | module g =>
    rcases List.mem_append.mp h with htype | hmodule
    · obtain ⟨name, _, rfl⟩ := List.mem_map.mp htype
      rfl
    · unfold Scan.Module.moduleEntry at hmodule
      split at hmodule
      · cases hmodule
      · rw [List.mem_singleton.mp hmodule]

namespace Source

theorem file_of_mem_yield {t : FileTree} {s : Source} {e : Entry} (h : e ∈ s.yield t) :
    e.file = s.path := by
  unfold yield at h
  split at h
  · split at h
    · exact Grammar.file_of_mem_scan h
    · cases h
  · rw [List.mem_singleton.mp h]

theorem yield_of_grammar {s : Source} {g : Grammar} (h : s.language.grammar? = some g)
    (t : FileTree) : s.yield t = ((t.readText s.path).toOption.map (g.scan s.path)).getD [] := by
  unfold yield
  rw [h]
  cases t.readText s.path <;> rfl

theorem yield_congr {t later : FileTree} {s : Source}
    (h : s.language.grammar?.isSome →
      (later.readText s.path).toOption = (t.readText s.path).toOption) :
    s.yield later = s.yield t ∧ s.isSkipped later = s.isSkipped t := by
  cases hgrammar : s.language.grammar? with
  | none => simp [yield, isSkipped, hgrammar]
  | some g =>
    have hread := h (by simp [hgrammar])
    exact ⟨by rw [yield_of_grammar hgrammar, yield_of_grammar hgrammar, hread],
      by rw [isSkipped, isSkipped, hread]⟩

end Source

namespace Registry

theorem has_standard (l : Language) : standard.has l = l.grammar?.isSome := by
  cases l <;> rfl

theorem extract_agree (t later : FileTree) (m : Manifest) (keep : Path → Bool)
    (h : ∀ s ∈ m.sources, keep s.path = true →
      s.yield later = s.yield t ∧ s.isSkipped later = s.isSkipped t)
    (parallel parallel' : Bool) :
    (standard.extract later parallel' m).entries.filter (keep ·.file) =
        (standard.extract t parallel m).entries.filter (keep ·.file) ∧
      (standard.extract later parallel' m).skipped.filter keep =
        (standard.extract t parallel m).skipped.filter keep := by
  have hyield (s : Source) (hs : s ∈ m.sources) :
      (s.yield later).filter (keep ·.file) = (s.yield t).filter (keep ·.file) := by
    cases hkeep : keep s.path with
    | true => rw [(h s hs hkeep).1]
    | false =>
      have hnone (tree : FileTree) : (s.yield tree).filter (keep ·.file) = [] := by
        rw [List.filter_eq_nil_iff]
        intro e he
        rw [Source.file_of_mem_yield he, hkeep]
        exact Bool.false_ne_true
      rw [hnone, hnone]
  rw [extract_eq_concat, extract_eq_concat]
  unfold reportInTurn
  simp only [Report.entries_concat, Report.skipped_concat, List.flatMap_map, List.filter_flatMap]
  constructor
  · apply List.flatMap_congr
    intro g hg
    rw [reportGroup_standard later m g hg, reportGroup_standard t m g hg]
    simp only [List.filter_flatMap]
    apply List.flatMap_congr
    intro s hs
    exact hyield s (List.mem_of_mem_filter hs)
  · apply List.flatMap_congr
    intro g hg
    rw [reportGroup_standard later m g hg, reportGroup_standard t m g hg]
    simp only [List.filter_map, List.filter_filter]
    apply congrArg (List.map _)
    apply List.filter_congr
    intro s hs
    cases hkeep : keep s.path with
    | true => simp [hkeep, (h s hs hkeep).2]
    | false => simp [hkeep]

/-- After an edit of one file the reports agree on every other path, and if no scanner opens the
file, they are the same. An empty directory in place of the file must not be the way to another. -/
theorem extract_of_edited {t later : FileTree} {p : Path} {spot : Location}
    (h : t.Edited later p spot) (m : Manifest) (parallel parallel' : Bool)
    (hothers : ∀ s ∈ m.sources, s.path ≠ p → ∀ node, t.resolve .look s.path ≠ .ok (.node spot node))
    (hout : later.faceAt spot = some .dir → ∀ s ∈ m.sources, s.path ≠ p → ¬ t.Detours spot s.path) :
    (standard.extract later parallel' m).entries.filter (·.file ≠ p) =
        (standard.extract t parallel m).entries.filter (·.file ≠ p) ∧
      (standard.extract later parallel' m).skipped.filter (· ≠ p) =
        (standard.extract t parallel m).skipped.filter (· ≠ p) ∧
      ((∀ s ∈ m.sources, s.path = p → standard.has s.language = false) →
        standard.extract later parallel' m = standard.extract t parallel m) := by
  have hother (s : Source) (hs : s ∈ m.sources) (hne : s.path ≠ p) :
      (later.readText s.path).toOption = (t.readText s.path).toOption :=
    h.toOption_readText (hothers s hs hne) fun hdir => hout hdir s hs hne
  have hkept (s : Source) (hs : s ∈ m.sources) (hne : decide (s.path ≠ p) = true) :
      s.yield later = s.yield t ∧ s.isSkipped later = s.isSkipped t :=
    Source.yield_congr fun _ => hother s hs (of_decide_eq_true hne)
  obtain ⟨hentries, hskipped⟩ := extract_agree t later m (· ≠ p) hkept parallel parallel'
  refine ⟨hentries, hskipped, ?_⟩
  intro hclosed
  have hall (s : Source) (hs : s ∈ m.sources) (_ : true = true) :
      s.yield later = s.yield t ∧ s.isSkipped later = s.isSkipped t := by
    apply Source.yield_congr
    intro hopened
    apply hother s hs
    intro hp
    have hstub := hclosed s hs hp
    rw [has_standard, hopened] at hstub
    cases hstub
  obtain ⟨hentries, hskipped⟩ := extract_agree t later m (fun _ => true) hall parallel parallel'
  rw [List.filter_true, List.filter_true] at hentries hskipped
  exact Report.ext hentries hskipped

end Registry

namespace FileTree

def paired : FileTree where
  top := .dir [(Bytes.ofString "a.py", .file (Bytes.ofString "class A:")),
    (Bytes.ofString "b.py", .file (Bytes.ofString "class B:"))]
  workingDir := []

def hollowed : FileTree := paired.putAt [Bytes.ofString "a.py"] (.dir [])

theorem edited_hollowed : paired.Edited hollowed (.ofString "a.py") [Bytes.ofString "a.py"] := by
  have hfile : paired.resolve .look (.ofString "a.py") =
      .ok (.node ([] ++ [Bytes.ofString "a.py"]) (.file (Bytes.ofString "class A:"))) := by cbv
  exact edited_putAt hfile (by simp [Node.child?]) (by simp)

end FileTree

def Manifest.ofPaired : Manifest where
  sources := [⟨.ofString "a.py", .python⟩, ⟨.ofString "b.py", .python⟩, ⟨.ofString "c.py", .python⟩,
    ⟨.ofString "a.py", .ruby⟩]
  docDirs := []

theorem Registry.extract_of_edited_paired :
    FileTree.paired.Edited .hollowed (.ofString "a.py") [Bytes.ofString "a.py"] ∧
      (standard.extract .hollowed true .ofPaired).entries.filter (·.file ≠ .ofString "a.py") =
        (standard.extract .paired false .ofPaired).entries.filter (·.file ≠ .ofString "a.py") ∧
      (standard.extract .hollowed true .ofPaired).skipped.filter (· ≠ .ofString "a.py") =
        (standard.extract .paired false .ofPaired).skipped.filter (· ≠ .ofString "a.py") ∧
      (standard.extract .paired false .ofPaired).entries.map (·.file) =
        [.ofString "a.py", .ofString "b.py", .ofString "a.py"] ∧
      (standard.extract .paired false .ofPaired).skipped = [.ofString "c.py"] := by
  have hfound : FileTree.paired.resolve .look (.ofString "b.py") =
      .ok (.node [Bytes.ofString "b.py"] (.file (Bytes.ofString "class B:"))) := by cbv
  have hmissing : FileTree.paired.resolve .look (.ofString "c.py") =
      .ok (.vacant [] (Bytes.ofString "c.py")) := by cbv
  have hsteps : FileTree.steps (.ofString "b.py") = [Bytes.ofString "b.py"] := by cbv
  have hsteps' : FileTree.steps (.ofString "c.py") = [Bytes.ofString "c.py"] := by cbv
  have hsecond (s : Source) (hs : s ∈ Manifest.ofPaired.sources) (hne : s.path ≠ .ofString "a.py") :
      s.path = .ofString "b.py" ∨ s.path = .ofString "c.py" := by
    simp only [Manifest.ofPaired, List.mem_cons, List.not_mem_nil, or_false] at hs
    rcases hs with rfl | rfl | rfl | rfl
    · exact absurd rfl hne
    · exact .inl rfl
    · exact .inr rfl
    · exact absurd rfl hne
  have hdirect {part : Bytes} (hpart : ¬(part = [] ∨ part = [Path.dot]))
      (hdots : part ≠ [Path.dot, Path.dot])
      (hlink : ∀ target, FileTree.paired.top.get? [part] ≠ some (.link target)) :
      ¬ FileTree.paired.BacksOut [Bytes.ofString "a.py"] FileTree.maxLinks [] [part] := by
    intro hback
    cases hback with
    | stay _ hvoid => exact hpart hvoid
    | up => exact hdots rfl
    | down _ _ _ _ _ hrest => cases hrest
    | follow _ _ _ htarget => exact hlink _ htarget
  obtain ⟨hentries, hskipped, -⟩ := extract_of_edited FileTree.edited_hollowed .ofPaired false true
    (by
      intro s hs hne node hnode
      rcases hsecond s hs hne with hpath | hpath
      · rw [hpath, hfound] at hnode
        cases hnode
      · rw [hpath, hmissing] at hnode
        cases hnode)
    (by
      intro _ s hs hne hback
      unfold FileTree.Detours at hback
      rcases hsecond s hs hne with hpath | hpath
      · rw [hpath, hsteps] at hback
        exact hdirect (by decide) (by decide) (fun target hlink => by cases hlink) hback
      · rw [hpath, hsteps'] at hback
        exact hdirect (by decide) (by decide) (fun target hlink => by cases hlink) hback)
  exact ⟨FileTree.edited_hollowed, hentries, hskipped, by cbv, by cbv⟩

/-- Without the condition on ways through the edited place, a source that was out of reach behind
the file is read once there is a directory to go up from. -/
theorem Registry.not_extract_of_edited_detour :
    FileTree.paired.Edited .hollowed (.ofString "a.py") [Bytes.ofString "a.py"] ∧
      (∀ node, FileTree.paired.resolve .look (.ofString "a.py/../b.py") ≠
        .ok (.node [Bytes.ofString "a.py"] node)) ∧
      (standard.extract .paired false ⟨[⟨.ofString "a.py/../b.py", .python⟩], []⟩).skipped.filter
          (· ≠ .ofString "a.py") = [.ofString "a.py/../b.py"] ∧
      (standard.extract .hollowed false ⟨[⟨.ofString "a.py/../b.py", .python⟩], []⟩).skipped.filter
          (· ≠ .ofString "a.py") = [] := by
  refine ⟨FileTree.edited_hollowed, ?_, by cbv, by cbv⟩
  have hblocked : FileTree.paired.resolve .look (.ofString "a.py/../b.py") =
      .error .notDirectory := by cbv
  simp [hblocked]

end ApiAtlas

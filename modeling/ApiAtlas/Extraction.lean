import ApiAtlas.Registry

/-!
Extraction: the sources of a manifest go to the scanners of their languages, language by language in
alphabetical order. Either one group is done after the other, or each has a worker of its own.
-/
namespace ApiAtlas

structure Group where
  language : Language
  files : List Path
  deriving DecidableEq, Repr

/-- Puts a source behind the files of its language. A language seen for the first time opens a group,
and groups stand in the order of names. -/
def Group.insert (s : Source) : List Group → List Group
  | [] => [⟨s.language, [s.path]⟩]
  | g :: groups =>
    if s.language.name < g.language.name then ⟨s.language, [s.path]⟩ :: g :: groups
    else if s.language.name = g.language.name then
      { g with files := g.files ++ [s.path] } :: groups
    else g :: insert s groups

def Manifest.groups (m : Manifest) : List Group :=
  m.sources.foldl (fun groups s => Group.insert s groups) []

def Registry.reportGroup (r : Registry) (t : FileTree) (g : Group) : Report :=
  (r.resolve g.language).report t g.files

def Registry.reportInTurn (r : Registry) (t : FileTree) (groups : List Group) : Report :=
  .concat (groups.map (r.reportGroup t))

/-- A worker: the files to come, one that is read and not yet scanned, and the outcome so far. -/
structure Worker where
  scanner : Scanner
  pending : List Path
  held : Option (Path × List Char) := none
  report : Report := {}

namespace Worker

def step (t : FileTree) (w : Worker) : Worker :=
  match w.held, w.pending with
  | some (path, text), _ =>
    match w.scanner with
    | .grammar g =>
      { w with held := none, report := w.report ++ { entries := g.scan path text } }
    | .stub _ => { w with held := none }
  | none, [] => w
  | none, path :: pending =>
    match w.scanner with
    | .stub l =>
      { w with
        pending := pending
        report := w.report ++ { entries := [Scanner.stubEntry l path] } }
    | .grammar _ =>
      match t.readText path with
      | .ok text => { w with pending := pending, held := some (path, text) }
      | .error _ =>
        { w with pending := pending, report := w.report ++ { skipped := [path] } }

end Worker

def Registry.hire (r : Registry) (groups : List Group) : List Worker :=
  groups.map fun g => { scanner := r.resolve g.language, pending := g.files }

def Worker.runSchedule (t : FileTree) (workers : List Worker) (schedule : List Nat) : List Worker :=
  schedule.foldl (fun ws i => ws.modify i (Worker.step t)) workers

def Worker.rounds (workers : List Worker) : List Nat :=
  let longest := (workers.map (·.pending.length)).foldl max 0
  (List.replicate (2 * longest) (List.range workers.length)).flatten

def Registry.reportAtOnce (r : Registry) (t : FileTree) (groups : List Group) : Report :=
  let workers := r.hire groups
  .concat ((Worker.runSchedule t workers (Worker.rounds workers)).map (·.report))

def Registry.extract (r : Registry) (t : FileTree) (parallel : Bool) (m : Manifest) : Report :=
  let groups := m.groups
  if parallel && 1 < groups.length then r.reportAtOnce t groups else r.reportInTurn t groups

end ApiAtlas

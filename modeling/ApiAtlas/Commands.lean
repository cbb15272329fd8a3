import ApiAtlas.CommandLine
import ApiAtlas.Console
import ApiAtlas.Service
import ApiAtlas.Settings.File

/-!
What each command does and prints. A command reads and changes a file tree; what it prints is a list
of lines, one of which can be left open for the time it took.
-/
namespace ApiAtlas

open Console (Theme)

inductive Line where
  | text (s : String)
  /-- The line that tells how long the command took. -/
  | elapsed
  deriving DecidableEq, Repr

structure Transcript where
  code : Nat := 0
  out : List Line := []
  err : List String := []
  deriving DecidableEq, Repr

structure Failure where
  message : String
  cause? : Option String := none
  deriving DecidableEq, Repr

namespace Failure

def ofError (e : Error) : Failure := ⟨e.message, e.cause?⟩

def ofSettings (e : SettingsError) : Failure := ⟨e.message, none⟩

def ofReason (reason : Json.Reason) : Failure := ⟨reason.message, none⟩

def lines (f : Failure) : List String :=
  ("Error: " ++ f.message) ::
    match f.cause? with
    | some cause => ["", "Caused by:", "    " ++ cause]
    | none => []

def transcript (f : Failure) : Transcript := { code := 1, err := f.lines }

end Failure

def Transcript.ofTexts (texts : List String) : Transcript := { out := texts.map .text }

namespace Console

def success (theme : Theme) (text : String) : String := "✅ " ++ theme.success.apply text

def status (theme : Theme) (icon label value : String) : String :=
  icon ++ " " ++ theme.dim.apply label ++ ": " ++ value

def warning (theme : Theme) (text : String) : String := "⚠️ " ++ theme.warn.apply text

def countRows (languages : List Language) : List (String × String) :=
  (Language.alphabetical.filter (languages.contains ·)).map fun l =>
    (l.name, Nat.repr (languages.countP (· = l)))

def countLines (languages : List Language) : List String :=
  if languages.isEmpty then [] else [table (countRows languages)]

def manifestLines (theme : Theme) (root : Path) (m : Manifest) : List String :=
  ("🚀 " ++ theme.header.apply ("Manifest for " ++ root.display)) ::
    countLines (m.sources.map (·.language)) ++
    m.docDirs.map (fun dir => status theme "📂" "docs" dir.display) ++
    [success theme (Nat.repr m.sources.length ++ " source files")]

def documentLine (theme : Theme) (d : Document) : String :=
  "📄 " ++ d.path.display ++ " " ++ theme.dim.apply d.kind.name

def entryLine (theme : Theme) (e : Entry) : String :=
  "📦 " ++ e.container ++ " " ++
    theme.dim.apply ("[" ++ e.language.name ++ " " ++ e.kind.name ++ "]") ++ " " ++
    theme.muted.apply (Nat.repr e.members.length ++ " members")

def reportLines (theme : Theme) (r : Report) : List String :=
  ["", "━" ++ theme.header.apply "API model" ++ "━"] ++
    r.entries.map (entryLine theme) ++
    countLines (r.entries.map (·.language)) ++
    r.skipped.map (fun path => status theme "⏭️" "skipped" path.display) ++
    ["  " ++ theme.dim.apply "containers" ++ " " ++ Nat.repr r.entries.length]

def totalsLine (theme : Theme) (sources entries pages : Nat) : String :=
  "  " ++ theme.info.apply "📄" ++ " " ++ Nat.repr sources ++
    "  " ++ theme.info.apply "📦" ++ " " ++ Nat.repr entries ++
    "  " ++ theme.info.apply "📚" ++ " " ++ Nat.repr pages

end Console

def Line.print (theme : Theme) (elapsed : String) : Line → String
  | .text s => s
  | .elapsed =>
    theme.success.apply "✅" ++ " " ++ theme.success.apply ("Complete in " ++ elapsed)

namespace Settings

def withRoot (s : Settings) (path? : Option Path) : Settings :=
  { s with root? := path?.or s.root? }

def withPages (s : Settings) (out? template? : Option Path) (collision? : Option Collision) :
    Settings :=
  { s with
    docsRoot? := out?.or s.docsRoot?
    template? := template?.or s.template?
    collision? := collision?.or s.collision? }

def withWorkers (s : Settings) (parallel : Bool) : Settings :=
  { s with parallel := s.parallel || parallel }

end Settings

/-- The entries in a model file: a list of them, or a whole report. -/
def Entry.ofModel (v : Json) : Except Json.Error (List Entry) :=
  match v with
  | .arr _ => (Json.Codec.list Entry.codec).ofValue v
  | _ => (Report.codec.ofValue v).map (·.entries)

def FileTree.loadModel (t : FileTree) (path : Path) : Except Failure (List Entry) :=
  match t.readText path with
  | .error e => .error ⟨"failed to read " ++ path.display, some e.message⟩
  | .ok text =>
    match (Json.Codec.json.ofText (String.ofList text)).bind Entry.ofModel with
    | .error e => .error ⟨e.message, none⟩
    | .ok entries => .ok entries

namespace Command

def abortCode : Nat := 101

def runManifest (theme : Theme) (json : Bool) (t : FileTree) (s : Settings) : Transcript :=
  let m := t.manifest s.root s.exclude
  if json then
    match Manifest.codec.toJson m with
    | .ok v => .ofTexts [v.pretty]
    | .error reason => (Failure.ofReason reason).transcript
  else .ofTexts (Console.manifestLines theme s.root m)

def runScanDocs (theme : Theme) (json : Bool) (t : FileTree) (s : Settings) : Transcript :=
  let docs := t.documents s.root
  if json then
    match Outcome.ofList "docs" Document.codec docs with
    | .done v => .ofTexts [v.pretty]
    | _ => { code := abortCode }
  else if docs.isEmpty then { err := [Console.warning theme "No Markdown documents found."] }
  else .ofTexts (docs.map (Console.documentLine theme))

def runExtract (theme : Theme) (json : Bool) (t : FileTree) (s : Settings) (output? : Option Path) :
    FileTree × Transcript :=
  let report := s.report t {}
  match output? with
  | some output =>
    match Report.codec.toJson report with
    | .error reason => (t, (Failure.ofReason reason).transcript)
    | .ok v =>
      match t.writeFile output (Bytes.ofString v.pretty) with
      | .error e => (t, Failure.transcript ⟨"failed to write " ++ output.display, some e.message⟩)
      | .ok t =>
        let count := Nat.repr report.entries.length
        let told := "Wrote " ++ count ++ " containers to " ++ output.display
        (t, if json then {} else .ofTexts [Console.success theme told])
  | none =>
    if json then
      match Report.codec.toJson report with
      | .error reason => (t, (Failure.ofReason reason).transcript)
      | .ok v => (t, .ofTexts [v.pretty])
    else (t, .ofTexts (Console.reportLines theme report))

def runRender (theme : Theme) (json : Bool) (t : FileTree) (s : Settings) (model : Path) :
    FileTree × Transcript :=
  match t.loadModel model with
  | .error f => (t, f.transcript)
  | .ok entries =>
    match s.render t { entries? := some entries } with
    | (t, .error e) => (t, (Failure.ofError e).transcript)
    | (t, .ok paths) =>
      if json then
        match Outcome.ofList "generated_files" .path paths with
        | .done v => (t, .ofTexts [v.pretty])
        | _ => (t, { code := abortCode })
      else
        let told := "Rendered " ++ Nat.repr paths.length ++ " pages into " ++ s.docsRoot.display
        (t, .ofTexts [Console.success theme told])

def totals (m : Manifest) (r : Report) (paths : List Path) : Except Json.Reason Json := do
  return .obj
    [("containers", .nat r.entries.length),
      ("generated_files", ← (Json.Codec.list .path).toJson paths),
      ("skipped", ← (Json.Codec.list .path).toJson r.skipped),
      ("sources", .nat m.sources.length)]

/-- A template that does not do is reported before any other work. -/
def runGenerate (theme : Theme) (json : Bool) (t : FileTree) (s : Settings) :
    FileTree × Transcript :=
  match s.pageWriter t with
  | .error e => (t, (Failure.ofError e).transcript)
  | .ok writer =>
    let m := t.manifest s.root s.exclude
    let report := Registry.standard.extract t s.parallel m
    match writer.write t report.entries s.docsRoot with
    | (t, .error e) => (t, (Failure.ofError e).transcript)
    | (t, .ok paths) =>
      if json then
        match totals m report paths with
        | .ok v => (t, .ofTexts [v.pretty])
        | .error _ => (t, { code := abortCode })
      else
        let last :=
          Console.totalsLine theme m.sources.length report.entries.length paths.length
        (t,
          { out := [.text "", .elapsed, .text last]
            err := report.skipped.map fun path =>
              Console.warning theme ("Skipped unreadable file " ++ path.display) })

def runServe (t : FileTree) (s : Settings) (input : Bytes) (notices : Notices) :
    FileTree × Transcript :=
  let served := s.serve t input notices
  let out := served.responses.map fun v => Line.text v.compact
  match served.error? with
  | none => (served.tree, { out })
  | some e => (served.tree, { (Failure.ofError e).transcript with out })

def initial : Settings where
  root? := some (.ofString ".")
  docsRoot? := some (.ofString "docs/api")
  collision? := some .disambiguate

def runInit (theme : Theme) (t : FileTree) (config? : Option Path) (force : Bool) :
    FileTree × Transcript :=
  let path := config?.getD Settings.fileName
  match t.saveSettings path initial force with
  | .error e => (t, (Failure.ofSettings e).transcript)
  | .ok t => (t, .ofTexts [Console.success theme ("Wrote " ++ path.display)])

end Command

/-- Runs a command under the settings of the settings file, which every command reads first. -/
def Invocation.run (i : Invocation) (theme : Theme) (t : FileTree) (input : Bytes)
    (notices : Notices := fun _ => "task panicked") : FileTree × Transcript :=
  match t.loadSettings i.config? with
  | .error e => (t, (Failure.ofSettings e).transcript)
  | .ok loaded =>
    let s := loaded.getD {}
    match i.command with
    | .manifest path? => (t, Command.runManifest theme i.json t (s.withRoot path?))
    | .scanDocs path? => (t, Command.runScanDocs theme i.json t (s.withRoot path?))
    | .extract path? output? parallel =>
      Command.runExtract theme i.json t ((s.withRoot path?).withWorkers parallel) output?
    | .render model out? template? collision? =>
      Command.runRender theme i.json t (s.withPages out? template? collision?) model
    | .generate path? out? template? collision? parallel =>
      Command.runGenerate theme i.json t
        (((s.withRoot path?).withPages out? template? collision?).withWorkers parallel)
    | .serve => Command.runServe t s input notices
    | .init force => Command.runInit theme t i.config? force

def Asked.perform (asked : Asked) (theme : Theme) (t : FileTree) (input : Bytes)
    (notices : Notices := fun _ => "task panicked") : FileTree × Transcript :=
  match asked with
  | .run i => i.run theme t input notices
  | .help => (t, .ofTexts CommandLine.usage)
  | .version => (t, .ofTexts ["docpipe 0.1.0"])
  | .misuse => (t, { code := 2 })

end ApiAtlas

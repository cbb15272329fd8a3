import ApiAtlas.Pages

/-!
The command line: global flags, a command, and the command's own options, each given at most once on
its side of the command.
-/
namespace ApiAtlas

inductive Command where
  | manifest (path? : Option Path)
  | scanDocs (path? : Option Path)
  | extract (path? output? : Option Path) (parallel : Bool)
  | render (model : Path) (out? template? : Option Path) (collision? : Option Collision)
  | generate (path? out? template? : Option Path) (collision? : Option Collision) (parallel : Bool)
  | serve
  | init (force : Bool)
  deriving DecidableEq, Repr

structure Invocation where
  verbose : Bool
  json : Bool
  config? : Option Path
  command : Command
  deriving DecidableEq, Repr

inductive Asked where
  | run (invocation : Invocation)
  | help
  | version
  | misuse
  deriving DecidableEq, Repr

namespace CommandLine

inductive Takes where
  | nothing
  | path
  | collision
  deriving DecidableEq, Repr

structure Flag where
  long : String
  short? : Option Char
  takes : Takes
  deriving DecidableEq, Repr

def verbose : Flag := ⟨"verbose", some 'v', .nothing⟩
def json : Flag := ⟨"json", none, .nothing⟩
def config : Flag := ⟨"config", some 'c', .path⟩
def help : Flag := ⟨"help", some 'h', .nothing⟩
def version : Flag := ⟨"version", some 'V', .nothing⟩

def path : Flag := ⟨"path", some 'p', .path⟩
def output : Flag := ⟨"output", some 'o', .path⟩
def parallel : Flag := ⟨"parallel", none, .nothing⟩
def model : Flag := ⟨"model", some 'm', .path⟩
def out : Flag := ⟨"out", some 'o', .path⟩
def template : Flag := ⟨"template", some 't', .path⟩
def collision : Flag := ⟨"collision", none, .collision⟩
def force : Flag := ⟨"force", some 'f', .nothing⟩

def globals : List Flag := [verbose, json, config, help]

def commands : List (String × List Flag) :=
  [("manifest", [path]), ("scan-docs", [path]), ("extract", [path, output, parallel]),
    ("render", [model, out, template, collision]),
    ("generate", [path, out, template, collision, parallel]), ("serve", []), ("init", [force])]

def usage : List String :=
  ["Usage: docpipe [OPTIONS] <COMMAND>",
    "",
    "Commands:",
    "  manifest   Classify source files and find docs directories",
    "  scan-docs  List existing Markdown documents",
    "  extract    Extract the normalized API model",
    "  render     Render pages from a saved API model",
    "  generate   Scan, extract and render in one run",
    "  serve      Serve JSON-lines requests on stdin/stdout",
    "  init       Write a default docpipe.toml",
    "",
    "Options:",
    "  -v, --verbose          Enable verbose logging",
    "      --json             Print machine-readable JSON instead of human output",
    "  -c, --config <CONFIG>  Path to the config file (defaults to ./docpipe.toml)",
    "  -h, --help             Print help",
    "  -V, --version          Print version"]

abbrev Given := List (Flag × String)

inductive Stop where
  | help
  | version
  | misuse
  deriving DecidableEq, Repr

def Flag.accepts (flag : Flag) (text : String) : Bool :=
  match flag.takes with
  | .nothing => text.isEmpty
  | .path => !text.isEmpty
  | .collision => (Collision.ofText text).isOk

def give (given : Given) (flag : Flag) (text : String) : Except Stop Given :=
  if flag = help then .error .help
  else if flag = version then .error .version
  else if given.any (·.1 = flag) || !flag.accepts text then .error .misuse
  else .ok ((flag, text) :: given)

def isValue (arg : List Char) : Bool := arg.head? ≠ some '-' || arg = ['-']

def giveNext (given : Given) (flag : Flag) :
    List (List Char) → Except Stop (Given × List (List Char))
  | value :: rest =>
    if isValue value then do return (← give given flag (String.ofList value), rest)
    else .error .misuse
  | [] => .error .misuse

def readLong (flags : List Flag) (given : Given) (arg : List Char) (rest : List (List Char)) :
    Except Stop (Given × List (List Char)) :=
  let name := String.ofList (arg.takeWhile (· ≠ '='))
  let attached := arg.dropWhile (· ≠ '=')
  match flags.find? (·.long = name) with
  | none => .error .misuse
  | some flag =>
    if flag.takes = .nothing then
      if attached.isEmpty then do return (← give given flag "", rest) else .error .misuse
    else if attached.isEmpty then giveNext given flag rest
    else do return (← give given flag (String.ofList attached.tail), rest)

/-- Short flags in one argument; the first that takes a value takes all that follows it. -/
def readShort (flags : List Flag) (given : Given) (rest : List (List Char)) :
    List Char → Except Stop (Given × List (List Char))
  | [] => .ok (given, rest)
  | c :: cs =>
    match flags.find? (·.short? = some c) with
    | none => .error .misuse
    | some flag =>
      if flag.takes = .nothing then do readShort flags (← give given flag "") rest cs
      else
        match cs with
        | [] => giveNext given flag rest
        | '=' :: value => do return (← give given flag (String.ofList value), rest)
        | value => do return (← give given flag (String.ofList value), rest)

/-- Reads flags up to the first argument that is none; nothing may follow a `--`. -/
def readFlags (flags : List Flag) : (limit : Nat) → Given → List (List Char) →
    Except Stop (Given × List (List Char))
  | 0, _, _ => .error .misuse
  | _, given, [] => .ok (given, [])
  | limit + 1, given, arg :: rest =>
    match arg with
    | ['-', '-'] => if rest.isEmpty then .ok (given, []) else .error .misuse
    | '-' :: '-' :: long => do
      let (given, rest) ← readLong flags given long rest
      readFlags flags limit given rest
    | '-' :: c :: cs => do
      let (given, rest) ← readShort flags given rest (c :: cs)
      readFlags flags limit given rest
    | _ => .ok (given, arg :: rest)

def has (given : Given) (flag : Flag) : Bool := given.any (·.1 = flag)

def path? (given : Given) (flag : Flag) : Option Path := (given.lookup flag).map Path.ofString

def collision? (given : Given) : Option Collision :=
  (given.lookup collision).bind fun text => (Collision.ofText text).toOption

def command? (name : String) (given : Given) : Option Command :=
  match name with
  | "manifest" => some (.manifest (path? given path))
  | "scan-docs" => some (.scanDocs (path? given path))
  | "extract" => some (.extract (path? given path) (path? given output) (has given parallel))
  | "render" => do
    return .render (← path? given model) (path? given out) (path? given template) (collision? given)
  | "generate" =>
    some (.generate (path? given path) (path? given out) (path? given template) (collision? given)
      (has given parallel))
  | "serve" => some .serve
  | "init" => some (.init (has given force))
  | _ => none

def readHelp : List (List Char) → Stop
  | [] => .help
  | [name] =>
    if commands.any (·.1 = String.ofList name) || name = "help".toList then .help else .misuse
  | _ => .misuse

/-- A global flag counts on either side of the command; behind it, it wins. -/
def readInvocation (args : List (List Char)) : Except Stop Invocation := do
  let (before, rest) ← readFlags (version :: globals) (args.length + 1) [] args
  match rest with
  | [] => throw .misuse
  | name :: rest =>
    if name = "help".toList then throw (readHelp rest)
    else
      let name := String.ofList name
      match commands.lookup name with
      | none => throw .misuse
      | some flags =>
        let (given, extra) ← readFlags (flags ++ globals) (rest.length + 1) [] rest
        match command? name given with
        | none => throw .misuse
        | some command =>
          if !extra.isEmpty then throw .misuse
          else
            return {
              verbose := has given verbose || has before verbose
              json := has given json || has before json
              config? := (path? given config).or (path? before config)
              command }

end CommandLine

def Asked.readsInput : Asked → Bool
  | .run i => i.command = .serve
  | _ => false

def Asked.ofArgs (args : List String) : Asked :=
  match CommandLine.readInvocation (args.map (·.toList)) with
  | .ok invocation => .run invocation
  | .error .help => .help
  | .error .version => .version
  | .error .misuse => .misuse

end ApiAtlas

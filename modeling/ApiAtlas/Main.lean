import ApiAtlas.Commands

/-!
The program: takes the working directory in as a file tree, runs what the arguments ask for on it,
and carries what changed back to disk.
-/
namespace ApiAtlas.Main

def nameBytes (name : String) : Bytes := Bytes.ofString name

/-- What is on disk at a path. A link is kept with the place it leads to; what is neither file nor
directory is left out. -/
partial def load (path : String) : IO (Option Node) := do
  let here := (← IO.currentDir) / path
  match (← here.symlinkMetadata).type with
  | .file => return some (.file (← IO.FS.readBinFile path).toList)
  | .symlink => return some (.link (.ofString (← IO.FS.realPath path).toString))
  | .other => return none
  | .dir =>
    let mut children := []
    for entry in ← here.readDir do
      try
        if let some node ← load (path ++ "/" ++ entry.fileName) then
          children := Node.insertChild (nameBytes entry.fileName) node children
      catch _ => continue
    return some (.dir children)

def nest (node : Node) : Location → Node
  | [] => node
  | name :: rest => .dir [(name, nest node rest)]

def snapshot : IO FileTree := do
  let location := (Path.splitSlash (nameBytes (← IO.currentDir).toString)).filter (· ≠ [])
  let node := (← load ".").getD (.dir [])
  return ⟨nest node location, location⟩

/-- Writes files that are new or changed, and makes directories that are new. -/
def carryBack (before after : FileTree) : IO Unit := do
  for (path, node) in after.listing do
    let text := path.display
    match node, before.linkStat path with
    | .dir _, .error _ => IO.FS.createDirAll text
    | .file new, .ok (.file old) =>
      if new ≠ old then IO.FS.writeBinFile text ⟨new.toArray⟩
    | .file new, .error _ => IO.FS.writeBinFile text ⟨new.toArray⟩
    | _, _ => pure ()

def runOnce (asked : Asked) (theme : Console.Theme) (input : Bytes) : IO Nat := do
  let started ← IO.monoMsNow
  let before ← snapshot
  let (after, said) := asked.perform theme before input
  carryBack before after
  let elapsed := Console.duration ((← IO.monoMsNow) - started)
  for line in said.out do
    IO.println (line.print theme elapsed)
  for line in said.err do
    IO.eprintln line
  (← IO.getStdout).flush
  return said.code

partial def runLines (asked : Asked) (theme : Console.Theme) (input : IO.FS.Stream) : IO Nat := do
  let line ← input.getLine
  if line.isEmpty then return 0
  let code ← runOnce asked theme (nameBytes line)
  if code ≠ 0 then return code
  runLines asked theme input

def chooseTheme : IO Console.Theme := do
  let off := (← IO.getEnv "NO_COLOR").any (!·.isEmpty)
  if off || !(← (← IO.getStdout).isTty) then return .plain
  return .colored

end ApiAtlas.Main

open ApiAtlas in
def main (args : List String) : IO UInt32 := do
  let asked := Asked.ofArgs args
  let theme ← Main.chooseTheme
  let code ← Main.runOnce asked theme []
  if code = 0 && asked.readsInput then
    return UInt32.ofNat (← Main.runLines asked theme (← IO.getStdin))
  if asked = .misuse then
    for line in CommandLine.usage do
      IO.eprintln line
  return UInt32.ofNat code

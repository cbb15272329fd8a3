import ApiAtlas.Settings
import ApiAtlas.Toml.Reader
import ApiAtlas.Toml.Writer

/-!
The settings file. Fields that are not set are not written, and fields that are not known are not
read.
-/
namespace ApiAtlas

inductive SettingsError where
  | malformed
  | io (e : IoError)
  | notText
  | alreadyThere (path : Path)
  deriving DecidableEq, Repr

def SettingsError.message : SettingsError → String
  | .malformed => "TOML parse error"
  | .io e => e.message
  | .notText => "path contains invalid UTF-8 characters"
  | .alreadyThere path =>
    "config already exists at " ++ path.display ++ " (use --force to overwrite)"

namespace Toml

def Node.string? : Node → Option (List Char)
  | .string s => some s
  | _ => none

def Node.name? : Node → Option (List Char)
  | .string s => some s
  | .inline [(key, node)] => if isVoid node then some key else none
  | .table _ [(key, node)] => if isVoid node then some key else none
  | _ => none
where
  isVoid : Node → Bool
    | .array [] => true
    | .inline [] => true
    | .table _ [] => true
    | _ => false

end Toml

namespace Settings

def fileName : Path := .ofString "docpipe.toml"

def field {α : Type} (fields : Toml.Fields) (key : String) (decode : Toml.Node → Option α) :
    Option (Option α) :=
  match fields.lookup key.toList with
  | none => some none
  | some node => (decode node).map some

def pathOf (node : Toml.Node) : Option Path := node.string?.map fun s => ⟨Utf8.encode s⟩

def stringsOf : Toml.Node → Option (List String)
  | .array items => items.mapM fun item => item.string?.map String.ofList
  | _ => none

def collisionOf (node : Toml.Node) : Option Collision := do
  let name ← node.name?
  [Collision.overwrite, .disambiguate].find? (·.name.toList = name)

def boolOf : Toml.Node → Option Bool
  | .bool b => some b
  | _ => none

def ofFields (fields : Toml.Fields) : Option Settings := do
  let root? ← field fields "root" pathOf
  let docsRoot? ← field fields "docs_root" pathOf
  let template? ← field fields "template" pathOf
  let exclude ← field fields "exclude" stringsOf
  let collision? ← field fields "collision" collisionOf
  let parallel ← field fields "parallel" boolOf
  return {
    root?, docsRoot?, template?, collision?
    exclude := exclude.getD []
    parallel := parallel.getD false }

def ofText (text : List Char) : Option Settings := (Toml.read text).bind ofFields

/-- A line for a path, if it is set; a path that is no text has none. -/
def writePath (key : String) : Option Path → Option (List Char)
  | none => some []
  | some p => (Utf8.decode p.bytes).map fun s => Toml.writeField key (Toml.writeString s)

def toText (s : Settings) : Option (List Char) := do
  let root ← writePath "root" s.root?
  let docsRoot ← writePath "docs_root" s.docsRoot?
  let template ← writePath "template" s.template?
  let exclude := Toml.writeField "exclude" (Toml.writeStrings (s.exclude.map (·.toList)))
  let collision :=
    match s.collision? with
    | none => []
    | some c => Toml.writeField "collision" (Toml.writeString c.name.toList)
  let parallel := Toml.writeField "parallel" (Toml.writeBool s.parallel)
  return root ++ docsRoot ++ template ++ exclude ++ collision ++ parallel

end Settings

namespace FileTree

/-- The settings in a file; none if the file is not there. -/
def loadSettings (t : FileTree) (path : Option Path) : Except SettingsError (Option Settings) :=
  let path := path.getD Settings.fileName
  if !t.pathExists path then .ok none
  else
    match t.readText path with
    | .error e => .error (.io e)
    | .ok text =>
      match Settings.ofText text with
      | none => .error .malformed
      | some s => .ok (some s)

def saveSettings (t : FileTree) (path : Path) (s : Settings) (force : Bool) :
    Except SettingsError FileTree :=
  if t.pathExists path && !force then .error (.alreadyThere path)
  else
    match s.toText with
    | none => .error .notText
    | some text =>
      match t.writeFile path (Utf8.encode text) with
      | .ok t => .ok t
      | .error e => .error (.io e)

end FileTree

end ApiAtlas

import ApiAtlas.FileTree
import ApiAtlas.Json.Fault
import ApiAtlas.Template

/-!
Why a request or a command failed.
-/
namespace ApiAtlas

inductive Error where
  | io (e : IoError)
  /-- An input line that is no text from an offset on. -/
  | line (offset : Nat) (run : Utf8.Piece)
  | json (e : Json.Error)
  | templateMissing (path : Path)
  | templateLacks (placeholders : List Placeholder)
  | unknownCollision (text : String)
  | unknownTool (name : String)
  | invalidRequest (e : Json.Error)
  deriving DecidableEq, Repr

namespace Error

def lineMessage (offset : Nat) : Utf8.Piece → String
  | .broken n =>
    "invalid utf-8 sequence of " ++ Nat.repr n ++ " bytes from index " ++ Nat.repr offset
  | _ => "incomplete utf-8 byte sequence from index " ++ Nat.repr offset

def cause? : Error → Option String
  | .io e => some e.message
  | .line offset run => some (lineMessage offset run)
  | .json e => some e.message
  | _ => none

def message : Error → String
  | .io e => "IO error: " ++ e.message
  | .line offset run => "IO error: " ++ lineMessage offset run
  | .json e => "JSON error: " ++ e.message
  | .templateMissing path => "Template not found: " ++ path.display
  | .templateLacks placeholders =>
    "Invalid template: missing placeholders: " ++
      String.intercalate ", " (placeholders.map Placeholder.token)
  | .unknownCollision text => "Config error: Unknown collision policy: " ++ text
  | .unknownTool name => "Unknown tool: " ++ name
  | .invalidRequest e => "Invalid request: " ++ e.message

end Error

/-- A template file has to be there before it is read. -/
def FileTree.template (t : FileTree) (path : Path) : Except Error Template :=
  if !t.isFile path then .error (.templateMissing path)
  else
    match t.readText path with
    | .error e => .error (.io e)
    | .ok text =>
      match Template.ofText text with
      | .ok template => .ok template
      | .error lacking => .error (.templateLacks lacking)

end ApiAtlas

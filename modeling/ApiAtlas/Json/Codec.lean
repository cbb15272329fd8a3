import ApiAtlas.Json.Reader
import ApiAtlas.Path

/-!
Codecs: a type is read from JSON text, taken from a JSON value, and given back as one. Text is
decoded in one pass, so a fault has the place where that pass notices it.
-/
namespace ApiAtlas.Json

structure Codec (α : Type) where
  /-- Reads a value nested fewer than `depth` levels deep. -/
  read : (depth : Nat) → List Char → Except Fault (α × List Char)
  ofJson : Json → Except Reason α
  toJson : α → Except Reason Json

namespace Codec

variable {α β : Type}

def ofText (c : Codec α) (text : String) : Except Error α :=
  let cs := text.toList
  match c.read maxDepth cs with
  | .error f => .error (f.inText cs)
  | .ok (a, rest) =>
    match atEnd rest with
    | .error f => .error (f.inText cs)
    | .ok () => .ok a

def ofValue (c : Codec α) (v : Json) : Except Error α :=
  match c.ofJson v with
  | .ok a => .ok a
  | .error reason => .error (.ofReason reason)

def json : Codec Json where
  read := readValue
  ofJson v := .ok v
  toJson v := .ok v

def readText (expected : String) (cs : List Char) : Except Fault (List Char × List Char) :=
  match skipSpace cs with
  | [] => .error ⟨.eofInValue, 0⟩
  | '"' :: rest => readString rest
  | other => .error (wrongType expected other)

def textOf (expected : String) : Json → Except Reason String
  | .str s => .ok s
  | v => .error (.invalidType v.found expected)

def string : Codec String where
  read _ cs := do
    let (s, rest) ← readText "a string" cs
    return (String.ofList s, rest)
  ofJson := textOf "a string"
  toJson s := .ok (.str s)

/-- A path is written as text, so one whose bytes are no text cannot be written. -/
def path : Codec Path where
  read _ cs := do
    let (s, rest) ← readText "path string" cs
    return (⟨Utf8.encode s⟩, rest)
  ofJson v := do return Path.ofString (← textOf "path string" v)
  toJson p :=
    match p.toText? with
    | some s => .ok (.str s)
    | none => .error .pathNotText

def bool : Codec Bool where
  read _ cs :=
    match skipSpace cs with
    | [] => .error ⟨.eofInValue, 0⟩
    | 't' :: rest => do return (true, ← readWord ['r', 'u', 'e'] rest)
    | 'f' :: rest => do return (false, ← readWord ['a', 'l', 's', 'e'] rest)
    | other => .error (wrongType "a boolean" other)
  ofJson
    | .bool b => .ok b
    | v => .error (.invalidType v.found "a boolean")
  toJson b := .ok (.bool b)

def nested (depth : Nat) (cs : List Char)
    (inside : (depth : Nat) → Except Fault (α × List Char)) : Except Fault (α × List Char) :=
  if depth ≤ 1 then .error (faultOn .tooDeep cs) else inside (depth - 1)

def list (c : Codec α) : Codec (List α) where
  read depth cs :=
    match skipSpace cs with
    | [] => .error ⟨.eofInValue, 0⟩
    | '[' :: rest =>
      nested depth ('[' :: rest) fun depth => do
        let (items, rest) ← readItems (c.read depth) ('[' :: rest) true rest
        return (items, ← endList rest)
    | other => .error (wrongType "a sequence" other)
  ofJson
    | .arr items => items.mapM c.ofJson
    | v => .error (.invalidType v.found "a sequence")
  toJson items := do return .arr (← items.mapM c.toJson)

def option (c : Codec α) : Codec (Option α) where
  read depth cs :=
    match skipSpace cs with
    | 'n' :: rest => do return (none, ← readWord ['u', 'l', 'l'] rest)
    | other => do
      let (a, rest) ← c.read depth other
      return (some a, rest)
  ofJson
    | .null => .ok none
    | v => do return some (← c.ofJson v)
  toJson
    | none => .ok .null
    | some a => c.toJson a

/-- The names a value can have; `other` is what any further name stands for. -/
structure Variants (α : Type) where
  names : List (String × α)
  other : Option α
  name : α → String

def Variants.find (vs : Variants α) (name : String) : Except Reason α :=
  match vs.names.lookup name, vs.other with
  | some a, _ => .ok a
  | none, some a => .ok a
  | none, none => .error (.unknownVariant name (vs.names.map (·.1)))

def Variants.read (vs : Variants α) (cs : List Char) : Except Fault (α × List Char) := do
  let (s, rest) ← readText "variant identifier" cs
  match vs.find (String.ofList s) with
  | .ok a => return (a, rest)
  | .error reason => throw (faultAt reason rest)

def Variants.readKey (vs : Variants α) (cs : List Char) : Except Fault (α × List Char) :=
  match skipSpace cs with
  | [] => .error ⟨.eofInObject, 0⟩
  | '"' :: rest => vs.read ('"' :: rest)
  | '\x7d' :: rest => .error (faultOn .expectedValue ('\x7d' :: rest))
  | other => .error (faultOn .keyNotString other)

def readUnit (cs : List Char) : Except Fault (List Char) :=
  match skipSpace cs with
  | [] => .error ⟨.eofInValue, 0⟩
  | 'n' :: rest => readWord ['u', 'l', 'l'] rest
  | other => .error (wrongType "unit" other)

def unitOf : Json → Except Reason Unit
  | .null => .ok ()
  | v => .error (.invalidType v.found "unit")

/-- A name is written as a string; an object whose one field has that name and holds `null` is read
as the same. -/
def variant (vs : Variants α) : Codec α where
  read depth cs :=
    match skipSpace cs with
    | [] => .error ⟨.eofInValue, 0⟩
    | '"' :: rest => vs.read ('"' :: rest)
    | '\x7b' :: rest =>
      nested depth ('\x7b' :: rest) fun _ => do
        let (a, rest) ← vs.readKey rest
        let rest ← readColon rest
        let rest ← readUnit rest
        match skipSpace rest with
        | [] => throw (faultAt .eofInObject [])
        | '\x7d' :: rest => return (a, rest)
        | other => throw (faultAt .expectedValue other)
    | other => .error (faultOn .expectedValue other)
  ofJson
    | .str s => vs.find s
    | .obj [(name, value)] => do
      let a ← vs.find name
      unitOf value
      return a
    | .obj _ => .error (.invalidValue .map "map with a single key")
    | v => .error (.invalidType v.found "string or map")
  toJson a := .ok (.str (vs.name a))

end Codec

end ApiAtlas.Json

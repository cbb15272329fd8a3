import ApiAtlas.Json
import ApiAtlas.Text.Quoted
import ApiAtlas.Text.Utf8

/-!
Why JSON text or a JSON value was refused. A fault in text also says how many bytes were left when
it was noticed, from which its line and column follow.
-/
namespace ApiAtlas.Json

inductive Found where
  | null
  | bool (b : Bool)
  | num (n : Number)
  | str (s : String)
  | sequence
  | map
  deriving DecidableEq, Repr

def found : Json → Found
  | .null => .null
  | .bool b => .bool b
  | .num n => .num n
  | .str s => .str s
  | .arr _ => .sequence
  | .obj _ => .map

def Found.message : Found → String
  | .null => "null"
  | .bool true => "boolean `true`"
  | .bool false => "boolean `false`"
  | .num (.float minus x) => "floating point `" ++ (Number.float minus x).text ++ "`"
  | .num n => "integer `" ++ n.text ++ "`"
  | .str s => "string " ++ Text.quote s
  | .sequence => "sequence"
  | .map => "map"

inductive Reason where
  | eofInValue
  | eofInObject
  | eofInList
  | eofInString
  | expectedValue
  | expectedIdent
  | expectedColon
  | expectedObjectEnd
  | expectedListEnd
  | keyNotString
  | trailingComma
  | trailingCharacters
  | invalidEscape
  | invalidNumber
  | numberOutOfRange
  | controlCharacter
  | loneSurrogate
  | brokenSurrogatePair
  | tooDeep
  | invalidType (found : Found) (expected : String)
  | invalidValue (found : Found) (expected : String)
  | invalidLength (length : Nat) (expected : String)
  | missingField (name : String)
  | duplicateField (name : String)
  | unknownVariant (name : String) (variants : List String)
  | pathNotText
  deriving DecidableEq, Repr

def ticked (s : String) : String := "`" ++ s ++ "`"

def alternatives : List String → String
  | [] => "there are no variants"
  | [a] => ticked a
  | [a, b] => ticked a ++ " or " ++ ticked b
  | names => "one of " ++ String.intercalate ", " (names.map ticked)

def Reason.message : Reason → String
  | .eofInValue => "EOF while parsing a value"
  | .eofInObject => "EOF while parsing an object"
  | .eofInList => "EOF while parsing a list"
  | .eofInString => "EOF while parsing a string"
  | .expectedValue => "expected value"
  | .expectedIdent => "expected ident"
  | .expectedColon => "expected `:`"
  | .expectedObjectEnd => "expected `,` or `\x7d`"
  | .expectedListEnd => "expected `,` or `]`"
  | .keyNotString => "key must be a string"
  | .trailingComma => "trailing comma"
  | .trailingCharacters => "trailing characters"
  | .invalidEscape => "invalid escape"
  | .invalidNumber => "invalid number"
  | .numberOutOfRange => "number out of range"
  | .controlCharacter => "control character (\\u0000-\\u001F) found while parsing a string"
  | .loneSurrogate => "lone leading surrogate in hex escape"
  | .brokenSurrogatePair => "unexpected end of hex escape"
  | .tooDeep => "recursion limit exceeded"
  | .invalidType found expected => "invalid type: " ++ found.message ++ ", expected " ++ expected
  | .invalidValue found expected => "invalid value: " ++ found.message ++ ", expected " ++ expected
  | .invalidLength n expected => "invalid length " ++ Nat.repr n ++ ", expected " ++ expected
  | .missingField name => "missing field " ++ ticked name
  | .duplicateField name => "duplicate field " ++ ticked name
  | .unknownVariant name variants =>
    "unknown variant " ++ ticked name ++ ", expected " ++ alternatives variants
  | .pathNotText => "path contains invalid UTF-8 characters"

structure Fault where
  reason : Reason
  /-- Bytes of the text behind the place where the fault was noticed. -/
  left : Nat
  deriving DecidableEq, Repr

/-- Line and column behind the first `offset` bytes: lines count from one, columns in bytes. -/
def placeFrom (line column : Nat) : Nat → List Char → Nat × Nat
  | _, [] => (line, column)
  | offset, c :: cs =>
    if offset = 0 then (line, column)
    else if c = '\n' then placeFrom (line + 1) 0 (offset - 1) cs
    else
      let n := min offset (Utf8.charSize c)
      placeFrom line (column + n) (offset - n) cs

structure Error where
  reason : Reason
  place : Option (Nat × Nat)
  deriving DecidableEq, Repr

def Error.message (e : Error) : String :=
  match e.place with
  | none => e.reason.message
  | some (line, column) =>
    e.reason.message ++ " at line " ++ Nat.repr line ++ " column " ++ Nat.repr column

def Fault.inText (text : List Char) (f : Fault) : Error :=
  ⟨f.reason, some (placeFrom 1 0 (Utf8.size text - f.left) text)⟩

def Error.ofReason (reason : Reason) : Error := ⟨reason, none⟩

end ApiAtlas.Json

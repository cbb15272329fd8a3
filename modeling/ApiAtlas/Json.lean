import ApiAtlas.Number.Shortest

/-!
JSON values and their two written forms: compact, and pretty with two spaces a level. The fields of
an object stand in the order they are given in; `sorted` puts them in key order.
-/
namespace ApiAtlas

/-- Integers are kept exact within 64 bits; every other number is a double. -/
inductive Json.Number where
  | nat (n : Nat)
  | negative (n : Nat)
  | float (minus : Bool) (magnitude : Binary64)
  deriving DecidableEq, Repr

inductive Json where
  | null
  | bool (b : Bool)
  | num (n : Json.Number)
  | str (s : String)
  | arr (items : List Json)
  | obj (fields : List (String × Json))
  deriving Repr, Inhabited

namespace Json

def nat (n : Nat) : Json := .num (.nat n)

def Number.text : Number → String
  | .nat n => Nat.repr n
  | .negative n => "-" ++ Nat.repr n
  | .float minus x => (if minus then "-" else "") ++ x.text

def hexDigit (n : Nat) : Char := (Nat.toDigits 16 n).headD '0'

def escapeChar (c : Char) : List Char :=
  match c with
  | '"' => ['\\', '"']
  | '\\' => ['\\', '\\']
  | '\n' => ['\\', 'n']
  | '\r' => ['\\', 'r']
  | '\t' => ['\\', 't']
  | '\x08' => ['\\', 'b']
  | '\x0c' => ['\\', 'f']
  | c =>
    if c.toNat < 0x20 then ['\\', 'u', '0', '0', hexDigit (c.toNat / 16), hexDigit (c.toNat % 16)]
    else [c]

def stringChars (s : String) : List Char := '"' :: s.toList.flatMap escapeChar ++ ['"']

mutual

def compactChars : Json → List Char
  | .null => ['n', 'u', 'l', 'l']
  | .bool true => ['t', 'r', 'u', 'e']
  | .bool false => ['f', 'a', 'l', 's', 'e']
  | .num n => n.text.toList
  | .str s => stringChars s
  | .arr items => '[' :: compactItems items ++ [']']
  | .obj fields => '\x7b' :: compactFields fields ++ ['\x7d']

def compactItems : List Json → List Char
  | [] => []
  | [item] => compactChars item
  | item :: items => compactChars item ++ ',' :: compactItems items

def compactFields : List (String × Json) → List Char
  | [] => []
  | [(key, value)] => stringChars key ++ ':' :: compactChars value
  | (key, value) :: fields =>
    stringChars key ++ ':' :: compactChars value ++ ',' :: compactFields fields

end

def newline (level : Nat) : List Char := '\n' :: List.replicate (2 * level) ' '

mutual

def prettyChars (level : Nat) : Json → List Char
  | .arr [] => ['[', ']']
  | .arr items => '[' :: prettyItems (level + 1) items ++ newline level ++ [']']
  | .obj [] => ['\x7b', '\x7d']
  | .obj fields => '\x7b' :: prettyFields (level + 1) fields ++ newline level ++ ['\x7d']
  | .null => compactChars .null
  | .bool b => compactChars (.bool b)
  | .num n => compactChars (.num n)
  | .str s => compactChars (.str s)

def prettyItems (level : Nat) : List Json → List Char
  | [] => []
  | [item] => newline level ++ prettyChars level item
  | item :: items => newline level ++ prettyChars level item ++ ',' :: prettyItems level items

def prettyFields (level : Nat) : List (String × Json) → List Char
  | [] => []
  | [(key, value)] =>
    newline level ++ stringChars key ++ ':' :: ' ' :: prettyChars level value
  | (key, value) :: fields =>
    newline level ++ stringChars key ++ ':' :: ' ' :: prettyChars level value ++
      ',' :: prettyFields level fields

end

def compact (v : Json) : String := String.ofList v.compactChars

def pretty (v : Json) : String := String.ofList (v.prettyChars 0)

def insertField (key : String) (value : Json) : List (String × Json) → List (String × Json)
  | [] => [(key, value)]
  | (k, v) :: fields =>
    if key < k then (key, value) :: (k, v) :: fields
    else if key = k then (key, value) :: fields
    else (k, v) :: insertField key value fields

def sortFields (fields : List (String × Json)) : List (String × Json) :=
  fields.foldl (fun acc field => insertField field.1 field.2 acc) []

mutual

def sorted : Json → Json
  | .null => .null
  | .bool b => .bool b
  | .num n => .num n
  | .str s => .str s
  | .arr items => .arr (sortedItems items)
  | .obj fields => .obj (sortFields (sortedFields fields))

def sortedItems : List Json → List Json
  | [] => []
  | item :: items => sorted item :: sortedItems items

def sortedFields : List (String × Json) → List (String × Json)
  | [] => []
  | (key, value) :: fields => (key, sorted value) :: sortedFields fields

end

end Json

end ApiAtlas

import ApiAtlas.Toml

/-!
Writing TOML strings and lists. A string takes the plainest of the four quoting styles that holds it
without escapes; where none does, double quotes with escapes.
-/
namespace ApiAtlas.Toml

def needsCode (c : Char) : Bool :=
  (c.toNat < 0x20 && c ≠ '\t' && c ≠ '\n') || c.toNat = 0x7F

def longestRunFrom (c : Char) (run : Nat) : List Char → Nat
  | [] => run
  | d :: ds => if d = c then longestRunFrom c (run + 1) ds else max run (longestRunFrom c 0 ds)

def longestRun (c : Char) (s : List Char) : Nat := longestRunFrom c 0 s

inductive Quoting where
  | basic
  | literal
  | block
  | literalBlock
  deriving DecidableEq, Repr

def quoting (s : List Char) : Quoting :=
  let coded := s.any needsCode
  let escaped := '\\' ∈ s
  let broken := '\n' ∈ s
  if !coded && !escaped && '"' ∉ s && !broken then .basic
  else if !coded && '\'' ∉ s && !broken then .literal
  else if !coded && !escaped && longestRun '"' s ≤ 2 then .block
  else if !coded && longestRun '\'' s ≤ 2 then .literalBlock
  else if broken then .block
  else .basic

def upperHexDigit (n : Nat) : Char := (Nat.toDigits 16 n).headD '0' |>.toUpper

def escapeCode (c : Char) : List Char :=
  ['\\', 'u', '0', '0', upperHexDigit (c.toNat / 16), upperHexDigit (c.toNat % 16)]

/-- Escapes what a string in double quotes cannot hold; `quotes` counts the quotes right before that
stand unescaped, of which there may be `spare`. -/
def escapeFrom (spare : Nat) (quotes : Nat) : List Char → List Char
  | [] => []
  | c :: cs =>
    match c with
    | '"' =>
      if quotes < spare then '"' :: escapeFrom spare (quotes + 1) cs
      else '\\' :: '"' :: escapeFrom spare 0 cs
    | '\x08' => '\\' :: 'b' :: escapeFrom spare 0 cs
    | '\t' => '\\' :: 't' :: escapeFrom spare 0 cs
    | '\n' => (if spare = 0 then ['\\', 'n'] else ['\n']) ++ escapeFrom spare 0 cs
    | '\x0c' => '\\' :: 'f' :: escapeFrom spare 0 cs
    | '\r' => '\\' :: 'r' :: escapeFrom spare 0 cs
    | '\\' => '\\' :: '\\' :: escapeFrom spare 0 cs
    | c => (if needsCode c then escapeCode c else [c]) ++ escapeFrom spare 0 cs

/-- A line break for the opening quotes of a block, so that the text starts on a line of its own. -/
def openingBreak (s : List Char) : List Char := if '\n' ∈ s then ['\n'] else []

def writeString (s : List Char) : List Char :=
  match quoting s with
  | .basic => '"' :: escapeFrom 0 0 s ++ ['"']
  | .literal => '\'' :: s ++ ['\'']
  | .block => "\"\"\"".toList ++ openingBreak s ++ escapeFrom 2 0 s ++ "\"\"\"".toList
  | .literalBlock => "'''".toList ++ openingBreak s ++ s ++ "'''".toList

def writeStrings : List (List Char) → List Char
  | [] => "[]".toList
  | [s] => '[' :: writeString s ++ [']']
  | items =>
    "[\n".toList ++ items.flatMap (fun s => "    ".toList ++ writeString s ++ ",\n".toList) ++ [']']

def writeBool (b : Bool) : List Char := (if b then "true" else "false").toList

def writeField (key : String) (value : List Char) : List Char :=
  key.toList ++ " = ".toList ++ value ++ ['\n']

end ApiAtlas.Toml

import ApiAtlas.Text.Width

/-!
Text for people: styles, tables and durations.
-/
namespace ApiAtlas.Console

structure Style where
  code? : Option String := none
  deriving DecidableEq, Repr

def Style.apply (s : Style) (text : String) : String :=
  match s.code? with
  | some code => "\x1b[" ++ code ++ "m" ++ text ++ "\x1b[0m"
  | none => text

structure Theme where
  header : Style := {}
  success : Style := {}
  warn : Style := {}
  info : Style := {}
  dim : Style := {}
  muted : Style := {}
  deriving DecidableEq, Repr

def Theme.plain : Theme := {}

def Theme.colored : Theme where
  header := ⟨some "36;1"⟩
  success := ⟨some "32;1"⟩
  warn := ⟨some "33;1"⟩
  info := ⟨some "34"⟩
  dim := ⟨some "2"⟩
  muted := ⟨some "90"⟩

def splitLines : List Char → List (List Char)
  | [] => [[]]
  | c :: cs =>
    if c = '\n' then [] :: splitLines cs
    else
      match splitLines cs with
      | line :: rest => (c :: line) :: rest
      | [] => [[c]]

def widest (lines : List (List Char)) : Nat := (lines.map Text.width).foldl max 0

def padded (width : Nat) (line : List Char) : List Char :=
  ' ' :: line ++ List.replicate (width - Text.width line) ' ' ++ [' ']

structure Row where
  label : List (List Char)
  value : List (List Char)

def Row.ofTexts (label value : String) : Row := ⟨splitLines label.toList, splitLines value.toList⟩

def Row.lines (labelWidth valueWidth : Nat) (row : Row) : List (List Char) :=
  (List.range (max row.label.length row.value.length)).map fun i =>
    '│' :: padded labelWidth (row.label.getD i []) ++
      '│' :: padded valueWidth (row.value.getD i []) ++ ['│']

def rule (left middle right : Char) (labelWidth valueWidth : Nat) : List Char :=
  left :: List.replicate (labelWidth + 2) '─' ++
    middle :: List.replicate (valueWidth + 2) '─' ++ [right]

def table (rows : List (String × String)) : String :=
  if rows.isEmpty then ""
  else
    let heading := Row.ofTexts "Metric" "Value"
    let body := rows.map fun (label, value) => Row.ofTexts label value
    let l := widest ((heading :: body).flatMap (·.label))
    let v := widest ((heading :: body).flatMap (·.value))
    let lines :=
      rule '╭' '┬' '╮' l v :: heading.lines l v ++
        rule '├' '┼' '┤' l v :: body.flatMap (·.lines l v) ++ [rule '╰' '┴' '╯' l v]
    String.ofList (['\n'].intercalate lines)

def units : List (String × Nat) :=
  [("year", 31536000), ("week", 604800), ("day", 86400), ("hour", 3600), ("minute", 60),
    ("second", 1)]

/-- A duration in the first unit of which it is one and a half, less half of the next unit. -/
def durationIn (ms : Nat) : List (String × Nat) → String
  | [] => ""
  | (name, seconds) :: smaller =>
    let count := (2 * ms + 1000 * seconds) / (2000 * seconds)
    match smaller with
    | [] => Nat.repr count ++ " " ++ name ++ (if count = 1 then "" else "s")
    | (_, next) :: _ =>
      if 1500 * seconds ≤ ms + 500 * next then Nat.repr (max count 2) ++ " " ++ name ++ "s"
      else durationIn ms smaller

def duration (ms : Nat) : String := durationIn ms units

end ApiAtlas.Console

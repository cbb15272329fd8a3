import ApiAtlas.Number.Binary64
import ApiAtlas.Toml

/-!
TOML strings, numbers and dates. A reader takes its token from the front of a text and gives back
the rest, or nothing if there is no such token.
-/
namespace ApiAtlas.Toml

abbrev Read (α : Type) := List Char → Option (α × List Char)

def isSpace (c : Char) : Bool := c = ' ' || c = '\t'

def isPlain (c : Char) : Bool := c = '\t' || (0x20 ≤ c.toNat && c.toNat ≠ 0x7F)

def readBreak : List Char → Option (List Char)
  | '\n' :: rest => some rest
  | '\r' :: '\n' :: rest => some rest
  | _ => none

def isDigit (c : Char) : Bool := '0' ≤ c && c ≤ '9'

def digitOf (c : Char) : Nat :=
  if isDigit c then c.toNat - 48 else if c.toNat < 0x61 then c.toNat - 55 else c.toNat - 87

def isHexDigit (c : Char) : Bool :=
  isDigit c || ('a' ≤ c && c ≤ 'f') || ('A' ≤ c && c ≤ 'F')

def natOf (base : Nat) (digits : List Char) : Nat :=
  digits.foldl (fun n c => n * base + digitOf c) 0

def readEscape : Read Char
  | 'b' :: rest => some ('\x08', rest)
  | 't' :: rest => some ('\t', rest)
  | 'n' :: rest => some ('\n', rest)
  | 'f' :: rest => some ('\x0c', rest)
  | 'r' :: rest => some ('\r', rest)
  | '"' :: rest => some ('"', rest)
  | '\\' :: rest => some ('\\', rest)
  | 'u' :: rest => code 4 rest
  | 'U' :: rest => code 8 rest
  | _ => none
where
  code (width : Nat) (cs : List Char) : Option (Char × List Char) :=
    let digits := cs.take width
    let n := natOf 16 digits
    if digits.length = width ∧ digits.all isHexDigit ∧ n.isValidChar then
      some (.ofNat n, cs.drop width)
    else none

def readBasic : (bound : List Char) → Read (List Char)
  | [], _ => none
  | _, [] => none
  | _ :: bound, c :: cs =>
    if c = '"' then some ([], cs)
    else if c = '\\' then do
      let (c, rest) ← readEscape cs
      let (s, rest) ← readBasic bound rest
      return (c :: s, rest)
    else if isPlain c then do
      let (s, rest) ← readBasic bound cs
      return (c :: s, rest)
    else none

def readLiteral : Read (List Char)
  | [] => none
  | c :: cs =>
    if c = '\'' then some ([], cs)
    else if isPlain c then do
      let (s, rest) ← readLiteral cs
      return (c :: s, rest)
    else none

/-- At a run of quotes in a string that three of them end: how many belong to the string, and what
follows the end, if it ends there. -/
def closing (quote : Char) (cs : List Char) : List Char × Option (List Char) :=
  let run := cs.takeWhile (· = quote)
  if run.length < 3 then (run, none)
  else
    let inside := min (run.length - 3) 2
    (run.take inside, some (cs.drop (inside + 3)))

def skipBreaks : (bound : List Char) → List Char → List Char
  | [], cs => cs
  | _ :: bound, cs =>
    match cs.dropWhile isSpace with
    | '\n' :: rest => skipBreaks bound rest
    | '\r' :: '\n' :: rest => skipBreaks bound rest
    | rest => rest

/-- The inside of a string between three double quotes. A backslash at the end of a line leaves out
all blanks and breaks behind it. -/
def readBlock : (bound : List Char) → Read (List Char)
  | [], _ => none
  | _, [] => none
  | _ :: bound, c :: cs =>
    if c = '"' then
      match closing '"' (c :: cs) with
      | (inside, some rest) => some (inside, rest)
      | (inside, none) => do
        let (s, rest) ← readBlock bound ((c :: cs).drop inside.length)
        return (inside ++ s, rest)
    else if c = '\\' then
      match readBreak (cs.dropWhile isSpace) with
      | some rest => readBlock bound (skipBreaks rest rest)
      | none => do
        let (c, rest) ← readEscape cs
        let (s, rest) ← readBlock bound rest
        return (c :: s, rest)
    else
      match readBreak (c :: cs) with
      | some rest => do
        let (s, rest) ← readBlock bound rest
        return ('\n' :: s, rest)
      | none =>
        if isPlain c then do
          let (s, rest) ← readBlock bound cs
          return (c :: s, rest)
        else none

def readLiteralBlock : (bound : List Char) → Read (List Char)
  | [], _ => none
  | _, [] => none
  | _ :: bound, c :: cs =>
    if c = '\'' then
      match closing '\'' (c :: cs) with
      | (inside, some rest) => some (inside, rest)
      | (inside, none) => do
        let (s, rest) ← readLiteralBlock bound ((c :: cs).drop inside.length)
        return (inside ++ s, rest)
    else
      match readBreak (c :: cs) with
      | some rest => do
        let (s, rest) ← readLiteralBlock bound rest
        return ('\n' :: s, rest)
      | none =>
        if isPlain c then do
          let (s, rest) ← readLiteralBlock bound cs
          return (c :: s, rest)
        else none

def dropFirstBreak (cs : List Char) : List Char := (readBreak cs).getD cs

def readString : Read (List Char)
  | '"' :: '"' :: '"' :: rest =>
    let rest := dropFirstBreak rest
    readBlock rest rest
  | '"' :: rest => readBasic rest rest
  | '\'' :: '\'' :: '\'' :: rest =>
    let rest := dropFirstBreak rest
    readLiteralBlock rest rest
  | '\'' :: rest => readLiteral rest
  | _ => none

def readMoreDigits (isOne : Char → Bool) : Read (List Char)
  | '_' :: c :: cs =>
    if isOne c then do
      let (digits, rest) ← readMoreDigits isOne cs
      return (c :: digits, rest)
    else none
  | c :: cs =>
    if isOne c then do
      let (digits, rest) ← readMoreDigits isOne cs
      return (c :: digits, rest)
    else if c = '_' then none
    else some ([], c :: cs)
  | [] => some ([], [])

def readDigits (isOne : Char → Bool) : Read (List Char)
  | c :: cs =>
    if isOne c then do
      let (digits, rest) ← readMoreDigits isOne cs
      return (c :: digits, rest)
    else none
  | [] => none

def readWhole : Read (List Char)
  | '0' :: rest => some (['0'], rest)
  | cs => readDigits isDigit cs

def readSign : List Char → Bool × List Char
  | '-' :: rest => (true, rest)
  | '+' :: rest => (false, rest)
  | cs => (false, cs)

def readFraction : Read (List Char)
  | '.' :: rest => readDigits isDigit rest
  | rest => some ([], rest)

def isPowerMark (c : Char) : Bool := c = 'e' || c = 'E'

def readPower (cs : List Char) : Option (Int × List Char) :=
  match cs with
  | c :: rest =>
    if isPowerMark c then do
      let (minus, rest) := readSign rest
      let (digits, rest) ← readDigits isDigit rest
      let n := natOf 10 digits
      return (if minus then -Int.ofNat n else Int.ofNat n, rest)
    else some (0, cs)
  | [] => some (0, [])

def overflows (digits : Nat) (power : Int) : Bool :=
  let size := Int.ofNat (Nat.toDigits 10 digits).length + power
  digits ≠ 0 && (400 < size ||
    (0 ≤ size &&
      if 0 ≤ power then (Binary64.round (digits * Binary64.tenTo power.toNat) 1).isNone
      else (Binary64.round digits (Binary64.tenTo (-power).toNat)).isNone))

def wholeLimit : Nat := 9223372036854775808

/-- A decimal number. A whole one fits 64 bits with its sign; another is at most too small. -/
def readDecimal (cs : List Char) : Option (List Char) := do
  let (minus, cs) := readSign cs
  let (whole, cs) ← readWhole cs
  let (fraction, rest) ← readFraction cs
  let (power, rest) ← readPower rest
  let n := natOf 10 whole
  if fraction.isEmpty ∧ !(cs.head?.any isPowerMark) then
    if n < wholeLimit ∨ (minus ∧ n = wholeLimit) then return rest else none
  else if !minus && overflows (natOf 10 (whole ++ fraction)) (power - fraction.length) then none
  else return rest

def readBased (base : Nat) (isOne : Char → Bool) (cs : List Char) : Option (List Char) := do
  let (digits, rest) ← readDigits isOne cs
  if natOf base digits < wholeLimit then return rest else none

def readSpecial (cs : List Char) : Option (List Char) :=
  match (readSign cs).2 with
  | 'i' :: 'n' :: 'f' :: rest => some rest
  | 'n' :: 'a' :: 'n' :: rest => some rest
  | _ => none

def readPart (width least greatest : Nat) : Read Nat := fun cs =>
  let digits := cs.take width
  let n := natOf 10 digits
  if digits.length = width ∧ digits.all isDigit ∧ least ≤ n ∧ n ≤ greatest then
    some (n, cs.drop width)
  else none

def readMark (mark : Char) : List Char → Option (List Char)
  | c :: rest => if c = mark then some rest else none
  | [] => none

def isLeapYear (year : Nat) : Bool := year % 4 = 0 && (year % 100 ≠ 0 || year % 400 = 0)

def daysIn (year month : Nat) : Nat :=
  if month = 2 then if isLeapYear year then 29 else 28
  else if month ∈ [4, 6, 9, 11] then 30
  else 31

def readDate (cs : List Char) : Option (List Char) := do
  let (year, cs) ← readPart 4 0 9999 cs
  let cs ← readMark '-' cs
  let (month, cs) ← readPart 2 1 12 cs
  let cs ← readMark '-' cs
  let (_, cs) ← readPart 2 1 (daysIn year month) cs
  return cs

def skipSecondFraction : List Char → List Char
  | '.' :: c :: rest => if isDigit c then rest.dropWhile isDigit else '.' :: c :: rest
  | cs => cs

def readTime (cs : List Char) : Option (List Char) := do
  let (_, cs) ← readPart 2 0 23 cs
  let cs ← readMark ':' cs
  let (_, cs) ← readPart 2 0 59 cs
  let cs ← readMark ':' cs
  let (_, cs) ← readPart 2 0 60 cs
  return skipSecondFraction cs

def readOffset (cs : List Char) : Option (List Char) := do
  match cs with
  | [] => none
  | c :: rest =>
    if c = 'Z' ∨ c = 'z' then return rest
    else if c = '+' ∨ c = '-' then
      let (_, rest) ← readPart 2 0 23 rest
      let rest ← readMark ':' rest
      let (_, rest) ← readPart 2 0 59 rest
      return rest
    else none

def readMoment (cs : List Char) : Option (List Char) :=
  match readDate cs with
  | none => readTime cs
  | some rest =>
    match rest with
    | [] => some []
    | c :: after =>
      if c = 'T' ∨ c = 't' ∨ c = ' ' then
        match readTime after with
        | none => some rest
        | some after => some ((readOffset after).getD after)
      else some rest

/-- Any number or moment; nothing of it is kept. -/
def readScalar (cs : List Char) : Option (List Char) :=
  match readMoment cs with
  | some rest => some rest
  | none =>
    match cs with
    | '0' :: 'x' :: rest => readBased 16 isHexDigit rest
    | '0' :: 'o' :: rest => readBased 8 (fun c => '0' ≤ c && c ≤ '7') rest
    | '0' :: 'b' :: rest => readBased 2 (fun c => c = '0' || c = '1') rest
    | _ =>
      match readSpecial cs with
      | some rest => some rest
      | none => readDecimal cs

end ApiAtlas.Toml

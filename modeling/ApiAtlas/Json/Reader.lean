import ApiAtlas.Json.Fault

/-!
Reading JSON text from the front: strings, numbers, words, and the punctuation of lists and objects.
Every reader returns what is left of the text, and a fault records how much was left.
-/
namespace ApiAtlas.Json

def faultAt (reason : Reason) (rest : List Char) : Fault := ⟨reason, Utf8.size rest⟩

def faultOn (reason : Reason) (rest : List Char) : Fault := ⟨reason, Utf8.size rest - 1⟩

def isSpace (c : Char) : Bool := c = ' ' || c = '\n' || c = '\t' || c = '\r'

def skipSpace (cs : List Char) : List Char := cs.dropWhile isSpace

def hexValue (c : Char) : Option Nat :=
  if '0' ≤ c ∧ c ≤ '9' then some (c.toNat - 48)
  else if 'a' ≤ c ∧ c ≤ 'f' then some (c.toNat - 87)
  else if 'A' ≤ c ∧ c ≤ 'F' then some (c.toNat - 55)
  else none

def hexFour (a b c d : Char) : Option Nat :=
  match hexValue a, hexValue b, hexValue c, hexValue d with
  | some w, some x, some y, some z => some (w * 4096 + x * 256 + y * 16 + z)
  | _, _, _, _ => none

def hexFault (rest : List Char) : Fault :=
  if Utf8.size rest < 4 then ⟨.eofInString, 0⟩ else ⟨.invalidEscape, Utf8.size rest - 4⟩

def shortEscape (c : Char) : Option Char :=
  match c with
  | '"' => some '"'
  | '\\' => some '\\'
  | '/' => some '/'
  | 'b' => some '\x08'
  | 'f' => some '\x0c'
  | 'n' => some '\n'
  | 'r' => some '\r'
  | 't' => some '\t'
  | _ => none

def isLeadSurrogate (n : Nat) : Bool := 0xD800 ≤ n && n ≤ 0xDBFF

def isTrailSurrogate (n : Nat) : Bool := 0xDC00 ≤ n && n ≤ 0xDFFF

def pushChar (c : Char) :
    Except Fault (List Char × List Char) → Except Fault (List Char × List Char)
  | .ok (cs, rest) => .ok (c :: cs, rest)
  | .error f => .error f

def readString : List Char → Except Fault (List Char × List Char)
  | [] => .error ⟨.eofInString, 0⟩
  | '"' :: rest => .ok ([], rest)
  | '\\' :: [] => .error ⟨.eofInString, 0⟩
  | '\\' :: 'u' :: a :: b :: c :: d :: rest =>
    match hexFour a b c d with
    | none => .error (hexFault (a :: b :: c :: d :: rest))
    | some n =>
      if isTrailSurrogate n then .error (faultAt .loneSurrogate rest)
      else if isLeadSurrogate n then
        match rest with
        | [] => .error ⟨.eofInString, 0⟩
        | '\\' :: [] => .error ⟨.eofInString, 0⟩
        | '\\' :: 'u' :: e :: f :: g :: h :: after =>
          match hexFour e f g h with
          | none => .error (hexFault (e :: f :: g :: h :: after))
          | some m =>
            if isTrailSurrogate m then
              pushChar (Char.ofNat (0x10000 + (n - 0xD800) * 1024 + (m - 0xDC00)))
                (readString after)
            else .error (faultAt .loneSurrogate after)
        | '\\' :: 'u' :: short => .error (hexFault short)
        | '\\' :: other => .error (faultOn .brokenSurrogatePair other)
        | other => .error (faultOn .brokenSurrogatePair other)
      else pushChar (Char.ofNat n) (readString rest)
  | '\\' :: 'u' :: short => .error (hexFault short)
  | '\\' :: c :: rest =>
    match shortEscape c with
    | some d => pushChar d (readString rest)
    | none => .error (faultOn .invalidEscape (c :: rest))
  | c :: rest =>
    if c.toNat < 0x20 then .error (faultOn .controlCharacter (c :: rest))
    else pushChar c (readString rest)

/-- Passes over a string behind its opening quote; surrogates need no partner here. -/
def skipString : List Char → Except Fault (List Char)
  | [] => .error ⟨.eofInString, 0⟩
  | '"' :: rest => .ok rest
  | '\\' :: [] => .error ⟨.eofInString, 0⟩
  | '\\' :: 'u' :: a :: b :: c :: d :: rest =>
    match hexFour a b c d with
    | none => .error (hexFault (a :: b :: c :: d :: rest))
    | some _ => skipString rest
  | '\\' :: 'u' :: short => .error (hexFault short)
  | '\\' :: c :: rest =>
    match shortEscape c with
    | some _ => skipString rest
    | none => .error (faultOn .invalidEscape (c :: rest))
  | c :: rest =>
    if c.toNat < 0x20 then .error (faultAt .controlCharacter (c :: rest)) else skipString rest

def readWord : List Char → List Char → Except Fault (List Char)
  | [], rest => .ok rest
  | _ :: _, [] => .error ⟨.eofInValue, 0⟩
  | w :: ws, c :: rest =>
    if c = w then readWord ws rest else .error (faultOn .expectedIdent (c :: rest))

def digitValue (c : Char) : Nat := c.toNat - 48

def isDigit (c : Char) : Bool := '0' ≤ c && c ≤ '9'

/-- Appends digits as long as the value fits 64 bits, and counts the appended and the other ones. -/
def appendDigits (value taken : Nat) : List Char → Nat × Nat × Nat
  | [] => (value, taken, 0)
  | c :: cs =>
    let next := value * 10 + digitValue c
    if 18446744073709551616 ≤ next then (value, taken, cs.length + 1)
    else appendDigits next (taken + 1) cs

def toFloat (positive : Bool) (digits : Nat) (exponent : Int) (rest : List Char) :
    Except Fault (Number × List Char) :=
  match Binary64.ofDecimal digits exponent with
  | some x => .ok (.float (!positive) x, rest)
  | none => .error (faultAt .numberOutOfRange rest)

/-- The digits of an exponent while it fits 31 bits; past that only zero is in range. -/
def readExponentDigits (positive positiveExponent : Bool) (digits : Nat) (exponent : Int) :
    Nat → List Char → Except Fault (Number × List Char)
  | n, c :: rest =>
    if isDigit c then
      let next := n * 10 + digitValue c
      if 2147483648 ≤ next then
        if digits ≠ 0 ∧ positiveExponent then .error (faultAt .numberOutOfRange rest)
        else .ok (.float (!positive) .zero, rest.dropWhile isDigit)
      else readExponentDigits positive positiveExponent digits exponent next rest
    else
      toFloat positive digits (if positiveExponent then exponent + n else exponent - n) (c :: rest)
  | n, [] => toFloat positive digits (if positiveExponent then exponent + n else exponent - n) []

def readExponent (positive : Bool) (digits : Nat) (exponent : Int) (cs : List Char) :
    Except Fault (Number × List Char) :=
  let (positiveExponent, cs) :=
    match cs with
    | '+' :: rest => (true, rest)
    | '-' :: rest => (false, rest)
    | _ => (true, cs)
  match cs with
  | [] => .error ⟨.eofInValue, 0⟩
  | c :: rest =>
    if isDigit c then
      readExponentDigits positive positiveExponent digits exponent (digitValue c) rest
    else .error (faultOn .invalidNumber (c :: rest))

def isExponentMark (c : Char) : Bool := c = 'e' || c = 'E'

def readFraction (positive : Bool) (digits dropped : Nat) (cs : List Char) :
    Except Fault (Number × List Char) :=
  match cs with
  | '.' :: rest =>
    let fraction := rest.takeWhile isDigit
    let rest := rest.dropWhile isDigit
    match fraction with
    | [] => .error (faultOn (if rest.isEmpty then .eofInValue else .invalidNumber) rest)
    | _ :: _ =>
      let (digits, taken, _) := appendDigits digits 0 fraction
      let exponent : Int := Int.ofNat dropped - Int.ofNat taken
      match rest with
      | c :: after =>
        if isExponentMark c then readExponent positive digits exponent after
        else toFloat positive digits exponent rest
      | [] => toFloat positive digits exponent []
  | c :: rest =>
    if isExponentMark c then readExponent positive digits dropped rest
    else whole cs
  | [] => whole cs
where
  whole (rest : List Char) : Except Fault (Number × List Char) :=
    if dropped ≠ 0 then toFloat positive digits dropped rest
    else if positive then .ok (.nat digits, rest)
    else if digits = 0 ∨ 9223372036854775808 < digits then
      toFloat false digits 0 rest
    else .ok (.negative digits, rest)

def readNumber (positive : Bool) (cs : List Char) : Except Fault (Number × List Char) :=
  match cs with
  | [] => .error ⟨.eofInValue, 0⟩
  | '0' :: rest =>
    match rest with
    | c :: _ =>
      if isDigit c then .error (faultOn .invalidNumber rest) else readFraction positive 0 0 rest
    | [] => readFraction positive 0 0 []
  | c :: rest =>
    if isDigit c then
      let (digits, _, dropped) := appendDigits 0 0 (c :: rest.takeWhile isDigit)
      readFraction positive digits dropped (rest.dropWhile isDigit)
    else .error (faultOn .invalidNumber (c :: rest))

def skipExponent (cs : List Char) : Except Fault (List Char) :=
  let cs :=
    match cs with
    | '+' :: rest => rest
    | '-' :: rest => rest
    | _ => cs
  match cs with
  | [] => .error ⟨.invalidNumber, 0⟩
  | c :: rest =>
    if isDigit c then .ok (rest.dropWhile isDigit) else .error (faultOn .invalidNumber (c :: rest))

def skipFraction (cs : List Char) : Except Fault (List Char) :=
  match cs with
  | '.' :: rest =>
    if (rest.takeWhile isDigit).isEmpty then .error (faultOn .invalidNumber rest)
    else
      match rest.dropWhile isDigit with
      | c :: after => if isExponentMark c then skipExponent after else .ok (c :: after)
      | [] => .ok []
  | c :: rest => if isExponentMark c then skipExponent rest else .ok cs
  | [] => .ok []

def skipNumber (cs : List Char) : Except Fault (List Char) :=
  match cs with
  | [] => .error ⟨.invalidNumber, 0⟩
  | '0' :: rest =>
    match rest with
    | c :: _ => if isDigit c then .error (faultOn .invalidNumber rest) else skipFraction rest
    | [] => .ok []
  | c :: rest =>
    if isDigit c then skipFraction (rest.dropWhile isDigit)
    else .error (faultOn .invalidNumber (c :: rest))

/-- The fault for a value of the wrong kind: a scalar is read first, a list or object is not. -/
def wrongType (expected : String) (cs : List Char) : Fault :=
  match cs with
  | 'n' :: rest => word ['u', 'l', 'l'] .null rest
  | 't' :: rest => word ['r', 'u', 'e'] (.bool true) rest
  | 'f' :: rest => word ['a', 'l', 's', 'e'] (.bool false) rest
  | '-' :: rest => number (readNumber false rest)
  | '"' :: rest =>
    match readString rest with
    | .ok (s, rest) => faultAt (.invalidType (.str (String.ofList s)) expected) rest
    | .error f => f
  | '[' :: _ => faultAt (.invalidType .sequence expected) cs
  | '\x7b' :: _ => faultAt (.invalidType .map expected) cs
  | c :: _ => if isDigit c then number (readNumber true cs) else faultOn .expectedValue cs
  | [] => faultOn .expectedValue cs
where
  word (letters : List Char) (found : Found) (rest : List Char) : Fault :=
    match readWord letters rest with
    | .ok rest => faultAt (.invalidType found expected) rest
    | .error f => f
  number : Except Fault (Number × List Char) → Fault
    | .ok (n, rest) => faultAt (.invalidType (.num n) expected) rest
    | .error f => f

def nextItem (first : Bool) (cs : List Char) : Except Fault (Option (List Char)) :=
  match skipSpace cs with
  | [] => .error ⟨.eofInList, 0⟩
  | ']' :: _ => .ok none
  | ',' :: rest =>
    if first then .ok (some (',' :: rest))
    else
      match skipSpace rest with
      | [] => .error ⟨.eofInValue, 0⟩
      | ']' :: after => .error (faultOn .trailingComma (']' :: after))
      | after => .ok (some after)
  | c :: rest =>
    if first then .ok (some (c :: rest)) else .error (faultOn .expectedListEnd (c :: rest))

def nextKey (first : Bool) (cs : List Char) : Except Fault (Option (List Char)) :=
  match skipSpace cs with
  | [] => .error ⟨.eofInObject, 0⟩
  | '\x7d' :: _ => .ok none
  | c :: rest =>
    if first then
      if c = '"' then .ok (some rest) else .error (faultOn .keyNotString (c :: rest))
    else if c = ',' then
      match skipSpace rest with
      | [] => .error ⟨.eofInValue, 0⟩
      | '"' :: after => .ok (some after)
      | '\x7d' :: after => .error (faultOn .trailingComma ('\x7d' :: after))
      | after => .error (faultOn .keyNotString after)
    else .error (faultOn .expectedObjectEnd (c :: rest))

def readColon (cs : List Char) : Except Fault (List Char) :=
  match skipSpace cs with
  | [] => .error ⟨.eofInObject, 0⟩
  | ':' :: rest => .ok rest
  | other => .error (faultOn .expectedColon other)

def endList (cs : List Char) : Except Fault (List Char) :=
  match skipSpace cs with
  | [] => .error ⟨.eofInList, 0⟩
  | ']' :: rest => .ok rest
  | ',' :: rest =>
    match skipSpace rest with
    | ']' :: after => .error (faultOn .trailingComma (']' :: after))
    | after => .error (faultOn .trailingCharacters after)
  | other => .error (faultOn .trailingCharacters other)

def pastList (cs : List Char) : List Char :=
  match skipSpace cs with
  | ']' :: rest => rest
  | ',' :: rest => skipSpace rest
  | other => other

def endObject (cs : List Char) : Except Fault (List Char) :=
  match skipSpace cs with
  | [] => .error ⟨.eofInObject, 0⟩
  | '\x7d' :: rest => .ok rest
  | ',' :: rest => .error (faultOn .trailingComma (',' :: rest))
  | other => .error (faultOn .trailingCharacters other)

def pastObject (cs : List Char) : List Char :=
  match skipSpace cs with
  | '\x7d' :: rest => rest
  | other => other

/-- Items up to the closing bracket; `bound` is longer than the text. -/
def readItems {α : Type} (item : List Char → Except Fault (α × List Char)) :
    (bound : List Char) → (first : Bool) → List Char → Except Fault (List α × List Char)
  | [], _, cs => .error (faultAt .eofInList cs)
  | _ :: bound, first, cs => do
    match ← nextItem first cs with
    | none => return ([], cs)
    | some rest =>
      let (a, rest) ← item rest
      let (as, rest) ← readItems item bound false rest
      return (a :: as, rest)

def readFields (value : List Char → Except Fault (Json × List Char)) :
    (bound : List Char) → (first : Bool) → List (String × Json) → List Char →
      Except Fault (List (String × Json) × List Char)
  | [], _, _, cs => .error (faultAt .eofInObject cs)
  | _ :: bound, first, fields, cs => do
    match ← nextKey first cs with
    | none => return (fields, cs)
    | some rest =>
      let (key, rest) ← readString rest
      let rest ← readColon rest
      let (v, rest) ← value rest
      readFields value bound false (insertField (String.ofList key) v fields) rest

def readValue : (depth : Nat) → List Char → Except Fault (Json × List Char)
  | depth, cs =>
    match skipSpace cs with
    | [] => .error ⟨.eofInValue, 0⟩
    | 'n' :: rest => do return (.null, ← readWord ['u', 'l', 'l'] rest)
    | 't' :: rest => do return (.bool true, ← readWord ['r', 'u', 'e'] rest)
    | 'f' :: rest => do return (.bool false, ← readWord ['a', 'l', 's', 'e'] rest)
    | '-' :: rest => do
      let (n, rest) ← readNumber false rest
      return (.num n, rest)
    | '"' :: rest => do
      let (s, rest) ← readString rest
      return (.str (String.ofList s), rest)
    | '[' :: rest =>
      match depth with
      | 0 => .error (faultOn .tooDeep ('[' :: rest))
      | 1 => .error (faultOn .tooDeep ('[' :: rest))
      | depth + 1 => do
        let (items, rest) ← readItems (readValue depth) ('[' :: rest) true rest
        return (.arr items, ← endList rest)
    | '\x7b' :: rest =>
      match depth with
      | 0 => .error (faultOn .tooDeep ('\x7b' :: rest))
      | 1 => .error (faultOn .tooDeep ('\x7b' :: rest))
      | depth + 1 => do
        let (fields, rest) ← readFields (readValue depth) ('\x7b' :: rest) true [] rest
        return (.obj fields, ← endObject rest)
    | c :: rest =>
      if isDigit c then do
        let (n, rest) ← readNumber true (c :: rest)
        return (.num n, rest)
      else .error (faultOn .expectedValue (c :: rest))

inductive Frame where
  | list
  | object

def Frame.eof : Frame → Reason
  | .list => .eofInList
  | .object => .eofInObject

def Frame.unended : Frame → Reason
  | .list => .expectedListEnd
  | .object => .expectedObjectEnd

def Frame.close : Frame → Char
  | .list => ']'
  | .object => '\x7d'

def skipKey : Frame → List Char → Except Fault (List Char)
  | .list, cs => .ok cs
  | .object, cs =>
    match skipSpace cs with
    | [] => .error ⟨.eofInObject, 0⟩
    | '"' :: rest => do readColon (← skipString rest)
    | other => .error (faultOn .keyNotString other)

def skipOpening (frame : Frame) (cs : List Char) : Except Fault (Option Frame × List Char) :=
  match skipSpace cs with
  | [] => .error ⟨frame.eof, 0⟩
  | c :: rest =>
    if c = frame.close then .ok (none, rest)
    else do return (some frame, ← skipKey frame (c :: rest))

mutual

/-- Passes over a value of any depth inside the given containers, and then over the rest of them;
`bound` is longer than the text. -/
def skipInside : (bound : List Char) → List Frame → List Char → Except Fault (List Char)
  | [], _, cs => .error (faultAt .eofInValue cs)
  | _ :: bound, frames, cs =>
    match skipSpace cs with
    | [] => .error ⟨.eofInValue, 0⟩
    | 'n' :: rest => do skipBehind bound frames (← readWord ['u', 'l', 'l'] rest)
    | 't' :: rest => do skipBehind bound frames (← readWord ['r', 'u', 'e'] rest)
    | 'f' :: rest => do skipBehind bound frames (← readWord ['a', 'l', 's', 'e'] rest)
    | '-' :: rest => do skipBehind bound frames (← skipNumber rest)
    | '"' :: rest => do skipBehind bound frames (← skipString rest)
    | '[' :: rest => do
      match ← skipOpening .list rest with
      | (none, rest) => skipBehind bound frames rest
      | (some frame, rest) => skipInside bound (frame :: frames) rest
    | '\x7b' :: rest => do
      match ← skipOpening .object rest with
      | (none, rest) => skipBehind bound frames rest
      | (some frame, rest) => skipInside bound (frame :: frames) rest
    | c :: rest =>
      if isDigit c then do skipBehind bound frames (← skipNumber (c :: rest))
      else .error (faultOn .expectedValue (c :: rest))

def skipBehind : (bound : List Char) → List Frame → List Char → Except Fault (List Char)
  | _, [], cs => .ok cs
  | [], _ :: _, cs => .error (faultAt .eofInValue cs)
  | _ :: bound, frame :: frames, cs =>
    match skipSpace cs with
    | [] => .error ⟨frame.eof, 0⟩
    | c :: rest =>
      if c = ',' then do skipInside bound (frame :: frames) (← skipKey frame rest)
      else if c = frame.close then skipBehind bound frames rest
      else .error (faultOn frame.unended (c :: rest))

end

def skipValue (cs : List Char) : Except Fault (List Char) := skipInside (' ' :: cs) [] cs

def atEnd (cs : List Char) : Except Fault Unit :=
  match skipSpace cs with
  | [] => .ok ()
  | other => .error (faultOn .trailingCharacters other)

def maxDepth : Nat := 128

end ApiAtlas.Json

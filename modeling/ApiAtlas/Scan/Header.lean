import ApiAtlas.Text.Blank
import ApiAtlas.Text.Word

/-!
Declaration headers in source text. A reading lists every way to take characters from the front of a
text, the preferred one first; a header is a lead, a name and a tail, and its hits are taken from
left to right without overlap.
-/
namespace ApiAtlas.Scan

structure Taken where
  size : Nat
  rest : List Char

abbrev Reading := List Char → List Taken

def Taken.plus (n : Nat) (taken : Taken) : Taken := { taken with size := n + taken.size }

/-- Behind each prefix of characters in `p`, longest first; `shorter` holds those already passed. -/
def runFrom (p : Char → Bool) (size : Nat) (shorter : List Taken) : List Char → List Taken
  | [] => ⟨size, []⟩ :: shorter
  | c :: cs =>
    if p c then runFrom p (size + 1) (⟨size, c :: cs⟩ :: shorter) cs
    else ⟨size, c :: cs⟩ :: shorter

def many (p : Char → Bool) : Reading := runFrom p 0 []

def some1 (p : Char → Bool) : Reading
  | [] => []
  | c :: cs => if p c then runFrom p 1 [] cs else []

def literalFrom (size : Nat) : List Char → Reading
  | [], cs => [⟨size, cs⟩]
  | _ :: _, [] => []
  | w :: ws, c :: cs => if c = w then literalFrom (size + 1) ws cs else []

def word (s : String) : Reading := literalFrom 0 s.toList

def seq (a b : Reading) : Reading := fun cs =>
  (a cs).flatMap fun taken => (b taken.rest).map (.plus taken.size)

def optional (r : Reading) : Reading := fun cs => r cs ++ [⟨0, cs⟩]

def oneOf (rs : List Reading) : Reading := fun cs => rs.flatMap fun r => r cs

/-- Puts in front of `others` the ways to read `r` as often as it can be, `size` characters being
taken before; `bound` is no shorter than the text. -/
def repeatOnto (r : Reading) : (bound : List Char) → (size : Nat) → List Char → List Taken →
    List Taken
  | [], size, cs, others => ⟨size, cs⟩ :: others
  | _ :: bound, size, cs, others =>
    (r cs).foldr (fun taken others => repeatOnto r bound (size + taken.size) taken.rest others)
      (⟨size, cs⟩ :: others)

def repeated (r : Reading) : Reading := fun cs => repeatOnto r cs 0 cs []

def blanks : Reading := many Text.isBlank

def blanks1 : Reading := some1 Text.isBlank

def spaced (s : String) : Reading := seq (word s) blanks1

def upToFrom (close : Char) (size : Nat) : Reading
  | [] => []
  | c :: cs =>
    (if c = close then [⟨size + 1, cs⟩] else []) ++
      (if c = '\n' then [] else upToFrom close (size + 1) cs)

def upTo (close : Char) : Reading := upToFrom close 0

/-- A declaration header; `κ` is what its lead tells about the declaration. -/
structure Header (κ : Type) where
  /-- Whether it may stand only at the start of a line. -/
  lineStart : Bool
  lead : List Char → List (κ × Taken)
  inName : Char → Bool
  tail : Reading

def plain (r : Reading) : List Char → List (Unit × Taken) := fun cs => (r cs).map ((), ·)

/-- A header that was found: what it tells, its name, and the text from where it starts. -/
structure Hit (κ : Type) where
  note : κ
  name : List Char
  text : List Char

namespace Header

variable {κ : Type}

def readAt (h : Header κ) (cs : List Char) : Option (Hit κ × Nat) :=
  (h.lead cs).findSome? fun (note, lead) =>
    (some1 h.inName lead.rest).findSome? fun name =>
      (h.tail name.rest).head?.map fun tail =>
        (⟨note, lead.rest.take name.size, cs⟩, lead.size + name.size + tail.size)

/-- Hits in a text of which `skip` more characters belong to the hit before. -/
def hitsFrom (h : Header κ) (skip : Nat) (atLineStart : Bool) : List Char → List (Hit κ)
  | [] => []
  | c :: cs =>
    if skip ≠ 0 then h.hitsFrom (skip - 1) (c = '\n') cs
    else if h.lineStart && !atLineStart then h.hitsFrom 0 (c = '\n') cs
    else
      match h.readAt (c :: cs) with
      | some (hit, size) => hit :: h.hitsFrom (size - 1) (c = '\n') cs
      | none => h.hitsFrom 0 (c = '\n') cs

def hits (h : Header κ) (text : List Char) : List (Hit κ) := h.hitsFrom 0 true text

def names (h : Header κ) (text : List Char) : List (List Char) := (h.hits text).map (·.name)

end Header

end ApiAtlas.Scan

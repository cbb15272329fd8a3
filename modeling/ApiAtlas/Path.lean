import ApiAtlas.Text.Utf8

/-!
Paths are byte strings kept as written. Reading one splits it at slashes; empty parts and `.` parts
say nothing, except a `.` that a relative path starts with.
-/
namespace ApiAtlas

@[ext]
structure Path where
  bytes : Bytes
  deriving DecidableEq, Repr, Inhabited

namespace Path

def slash : UInt8 := 0x2F
def dot : UInt8 := 0x2E

def ofString (s : String) : Path := ⟨Bytes.ofString s⟩

def toText? (p : Path) : Option String := (Utf8.decode p.bytes).map String.ofList

def display (p : Path) : String := String.ofList (Utf8.decodeLossy p.bytes)

def isAbsolute (p : Path) : Bool := p.bytes.head? = some slash

def splitSlash : Bytes → List Bytes
  | [] => [[]]
  | b :: bs =>
    if b = slash then [] :: splitSlash bs
    else
      match splitSlash bs with
      | part :: parts => (b :: part) :: parts
      | [] => [[b]]

def joinSlash : List Bytes → Bytes
  | [] => []
  | [part] => part
  | part :: parts => part ++ slash :: joinSlash parts

theorem splitSlash_ne_nil (bs : Bytes) : splitSlash bs ≠ [] := by
  cases bs with
  | nil => simp [splitSlash]
  | cons b bs =>
    rw [splitSlash]
    split
    · simp
    · split <;> simp

theorem joinSlash_cons_nil (parts : List Bytes) (h : parts ≠ []) :
    joinSlash ([] :: parts) = slash :: joinSlash parts := by
  cases parts with
  | nil => exact absurd rfl h
  | cons p ps => rfl

theorem joinSlash_cons_cons (b : UInt8) (part : Bytes) (parts : List Bytes) :
    joinSlash ((b :: part) :: parts) = b :: joinSlash (part :: parts) := by
  cases parts <;> rfl

@[simp] theorem joinSlash_splitSlash (bs : Bytes) : joinSlash (splitSlash bs) = bs := by
  induction bs with
  | nil => rfl
  | cons b bs ih =>
    rw [splitSlash]
    split
    · next h => rw [joinSlash_cons_nil _ (splitSlash_ne_nil bs), ih, h]
    · split
      · next part parts h => rw [joinSlash_cons_cons, ← h, ih]
      · next h => exact absurd h (splitSlash_ne_nil bs)

/-- What stands before the first part: the root, or the `.` a relative path starts with. -/
def lead (p : Path) : Bytes :=
  match p.bytes with
  | [] => []
  | b :: rest =>
    if b = slash then [slash]
    else if b = dot ∧ (rest = [] ∨ rest.head? = some slash) then [dot]
    else []

def isVoidPart (part : Bytes) : Bool := part = [] || part = [dot]

def dropVoidEnd (parts : List Bytes) : List Bytes :=
  (parts.reverse.dropWhile isVoidPart).reverse

/-- The parts behind the lead, without the void ones at the end. -/
def parts (p : Path) : List Bytes :=
  dropVoidEnd (splitSlash (p.bytes.drop p.lead.length))

/-- The last part, unless it is `..` or there is none. -/
def fileName? (p : Path) : Option Bytes :=
  match p.parts.getLast? with
  | some name => if name = [dot, dot] then none else some name
  | none => none

/-- A name splits at its last dot, unless that is its first byte. -/
def splitName (name : Bytes) : Bytes × Option Bytes :=
  let after := (name.reverse.takeWhile (· ≠ dot)).reverse
  let before := name.take (name.length - after.length - 1)
  if after.length = name.length ∨ before = [] then (name, none) else (before, some after)

def extension? (p : Path) : Option Bytes :=
  p.fileName?.bind fun name => (splitName name).2

def lossyText (bs : Bytes) : String := String.ofList (Utf8.decodeLossy bs)

def baseName (p : Path) : String :=
  match p.fileName? with
  | some name => lossyText name
  | none => p.display

def stem (p : Path) : String :=
  match p.fileName? with
  | some name => lossyText (splitName name).1
  | none => p.display

def parent? (p : Path) : Option Path :=
  match p.parts with
  | [] => if p.lead = [dot] then some ⟨[]⟩ else none
  | part :: parts => some ⟨p.lead ++ joinSlash (dropVoidEnd (part :: parts).dropLast)⟩

def ancestorsUpTo : Nat → Path → List Path
  | 0, _ => []
  | limit + 1, p =>
    p :: match p.parent? with
      | some q => ancestorsUpTo limit q
      | none => []

def ancestors (p : Path) : List Path := ancestorsUpTo (p.bytes.length + 2) p

/-- Puts `q` below `p`: one slash between them, unless `p` is empty or ends in one; an absolute
`q` stands alone. -/
def join (p q : Path) : Path :=
  if q.isAbsolute then q
  else if p.bytes = [] ∨ p.bytes.getLast? = some slash then ⟨p.bytes ++ q.bytes⟩
  else ⟨p.bytes ++ slash :: q.bytes⟩

/-- Spelled as the working directory: `.`, and nothing but void parts behind it. -/
def isDot (p : Path) : Bool := p.lead = [dot] && p.parts.isEmpty

/-- Spelled as standard input: `-`, and nothing but void parts behind it. -/
def isDash (p : Path) : Bool := p.lead = [] && p.parts = [[0x2D]]

end Path

end ApiAtlas

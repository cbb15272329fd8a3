/-!
UTF-8. A byte string splits into characters and ill-formed runs; a text is a byte string with no
such run, and reading lossily puts U+FFFD for each.
-/
namespace ApiAtlas

abbrev Bytes := List UInt8

namespace Utf8

def encodeChar (c : Char) : Bytes :=
  let n := c.toNat
  if n < 0x80 then [.ofNat n]
  else if n < 0x800 then [.ofNat (0xC0 + n / 64), .ofNat (0x80 + n % 64)]
  else if n < 0x10000 then
    [.ofNat (0xE0 + n / 4096), .ofNat (0x80 + n / 64 % 64), .ofNat (0x80 + n % 64)]
  else
    [.ofNat (0xF0 + n / 262144), .ofNat (0x80 + n / 4096 % 64), .ofNat (0x80 + n / 64 % 64),
      .ofNat (0x80 + n % 64)]

def encode (s : List Char) : Bytes := s.flatMap encodeChar

def charSize (c : Char) : Nat := (encodeChar c).length

def size (s : List Char) : Nat := s.foldr (fun c n => charSize c + n) 0

/-- A character, a run of bytes that no later byte completes, or a run the string ends in. -/
inductive Piece where
  | char (c : Char)
  | broken (length : Nat)
  | cut (length : Nat)
  deriving DecidableEq, Repr

def Piece.size : Piece → Nat
  | .char c => charSize c
  | .broken n => n
  | .cut n => n

/-- A character under way: bytes still owed, bounds of the next one, value and bytes so far. -/
structure Pending where
  owed : Nat
  least : UInt8
  greatest : UInt8
  value : Nat
  seen : Nat

def start (b : UInt8) : Piece ⊕ Pending :=
  let n := b.toNat
  if n < 0x80 then .inl (.char (.ofNat n))
  else if n < 0xC2 then .inl (.broken 1)
  else if n < 0xE0 then .inr ⟨1, 0x80, 0xBF, n - 0xC0, 1⟩
  else if n = 0xE0 then .inr ⟨2, 0xA0, 0xBF, 0, 1⟩
  else if n = 0xED then .inr ⟨2, 0x80, 0x9F, 0xD, 1⟩
  else if n < 0xF0 then .inr ⟨2, 0x80, 0xBF, n - 0xE0, 1⟩
  else if n = 0xF0 then .inr ⟨3, 0x90, 0xBF, 0, 1⟩
  else if n < 0xF4 then .inr ⟨3, 0x80, 0xBF, n - 0xF0, 1⟩
  else if n = 0xF4 then .inr ⟨3, 0x80, 0x8F, 4, 1⟩
  else .inl (.broken 1)

def piecesFrom : Option Pending → Bytes → List Piece
  | none, [] => []
  | some p, [] => [.cut p.seen]
  | none, b :: bs =>
    match start b with
    | .inl piece => piece :: piecesFrom none bs
    | .inr p => piecesFrom (some p) bs
  | some p, b :: bs =>
    if p.least ≤ b ∧ b ≤ p.greatest then
      let value := p.value * 64 + (b.toNat - 0x80)
      if p.owed = 1 then .char (.ofNat value) :: piecesFrom none bs
      else piecesFrom (some ⟨p.owed - 1, 0x80, 0xBF, value, p.seen + 1⟩) bs
    else
      .broken p.seen ::
        match start b with
        | .inl piece => piece :: piecesFrom none bs
        | .inr q => piecesFrom (some q) bs

def pieces (bs : Bytes) : List Piece := piecesFrom none bs

def charsOf : List Piece → Option (List Char)
  | [] => some []
  | .char c :: rest => (charsOf rest).map (c :: ·)
  | _ :: _ => none

def decode (bs : Bytes) : Option (List Char) := charsOf (pieces bs)

def decodeLossy (bs : Bytes) : List Char :=
  (pieces bs).map fun
    | .char c => c
    | _ => '\ufffd'

def faultFrom (offset : Nat) : List Piece → Option (Nat × Piece)
  | [] => none
  | .char c :: rest => faultFrom (offset + charSize c) rest
  | piece :: _ => some (offset, piece)

def fault (bs : Bytes) : Option (Nat × Piece) := faultFrom 0 (pieces bs)

end Utf8

def Bytes.ofString (s : String) : Bytes := Utf8.encode s.toList

end ApiAtlas

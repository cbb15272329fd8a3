/-!
Double-precision magnitudes as exact values `significand * 2 ^ exponent`. Every operation rounds the
exact result to the nearest such value, a tie to the even significand, and has no result where that
value would be infinite.
-/
namespace ApiAtlas

structure Binary64 where
  significand : Nat
  exponent : Int
  deriving DecidableEq, Repr, Inhabited

namespace Binary64

def twoTo (k : Nat) : Nat := Nat.pow 2 k

def tenTo (k : Nat) : Nat := Nat.pow 10 k

/-- The significands of normal values start here and end before `tooLarge`. -/
def leastNormal : Nat := 4503599627370496

def tooLarge : Nat := 9007199254740992

def zero : Binary64 := ⟨0, -1074⟩

def isZero (x : Binary64) : Bool := x.significand = 0

def scale (num den : Nat) (e : Int) : Nat × Nat :=
  if 0 ≤ e then (num, den * twoTo e.toNat) else (num * twoTo (-e).toNat, den)

def divHalfEven (num den : Nat) : Nat :=
  let q := num / den
  let r := 2 * (num % den)
  if r < den ∨ (r = den ∧ q % 2 = 0) then q else q + 1

def round (num den : Nat) : Option Binary64 :=
  if num = 0 then some zero
  else
    let low : Int := max (-1074) (Int.ofNat num.log2 - Int.ofNat den.log2 - 53)
    let (n, d) := scale num den low
    let e := if n / d < tooLarge then low else low + 1
    let (n, d) := scale num den e
    let m := divHalfEven n d
    let (m, e) := if m = tooLarge then (leastNormal, e + 1) else (m, e)
    if 971 < e then none else some ⟨m, e⟩

def ratio (x : Binary64) : Nat × Nat :=
  if 0 ≤ x.exponent then (x.significand * twoTo x.exponent.toNat, 1)
  else (x.significand, twoTo (-x.exponent).toNat)

def mul (x y : Binary64) : Option Binary64 :=
  round (x.ratio.1 * y.ratio.1) (x.ratio.2 * y.ratio.2)

def div (x y : Binary64) : Option Binary64 :=
  round (x.ratio.1 * y.ratio.2) (x.ratio.2 * y.ratio.1)

def powerOfTen (k : Nat) : Option Binary64 := round (tenTo k) 1

/-- `x * 10 ^ exponent` by one product or quotient with a power of ten up to `10 ^ 308`, after as
many divisions by `10 ^ 308` as a smaller exponent needs. -/
def scaleByTen : Nat → Binary64 → Int → Option Binary64
  | 0, x, _ => some x
  | steps + 1, x, exponent =>
    if exponent.natAbs ≤ 308 then
      (powerOfTen exponent.natAbs).bind fun power =>
        if 0 ≤ exponent then x.mul power else x.div power
    else if x.isZero then some x
    else if 0 ≤ exponent then none
    else
      match (powerOfTen 308).bind x.div with
      | some y => scaleByTen steps y (exponent + 308)
      | none => none

def ofDecimal (digits : Nat) (exponent : Int) : Option Binary64 :=
  (round digits 1).bind fun x => scaleByTen 4 x exponent

end Binary64

end ApiAtlas

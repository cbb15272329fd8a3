import ApiAtlas.Number.Binary64

/-!
The fewest decimal digits that read back as a given double, and their layout: positional up to
sixteen integer digits and down to four zeros behind the point, scientific beyond.
-/
namespace ApiAtlas.Binary64

/-- Lower end, value and upper end of the numbers that round to `x`, over one denominator. -/
def interval (x : Binary64) : Nat × Nat × Nat × Nat :=
  let m := x.significand
  let below := if m = leastNormal ∧ -1074 < x.exponent then 1 else 2
  let k := if 0 ≤ x.exponent then twoTo x.exponent.toNat else 1
  let den := if 0 ≤ x.exponent then 4 else 4 * twoTo (-x.exponent).toNat
  ((4 * m - below) * k, 4 * m * k, (4 * m + 2) * k, den)

def readsBack (x : Binary64) (d : Nat) (p : Int) : Bool :=
  let (lo, _, hi, den) := x.interval
  let a := if 0 ≤ p then d * tenTo p.toNat * den else d * den
  let s := if 0 ≤ p then 1 else tenTo (-p).toNat
  if x.significand % 2 = 0 then lo * s ≤ a && a ≤ hi * s else lo * s < a && a < hi * s

/-- The largest `p` with `10 ^ p` at most the value, among `limit` exponents from `p` down. -/
def leadingExponent (x : Binary64) : Nat → Int → Int
  | 0, p => p
  | limit + 1, p =>
    let (_, v, _, den) := x.interval
    let reached := if 0 ≤ p then tenTo p.toNat * den ≤ v else den ≤ v * tenTo (-p).toNat
    if reached then p else leadingExponent x limit (p - 1)

/-- Of the two neighbours of `x` on the grid of `10 ^ p`, the nearer that reads back. -/
def onGrid (x : Binary64) (p : Int) : Option Nat :=
  let (_, v, _, den) := x.interval
  let n := if 0 ≤ p then v else v * tenTo (-p).toNat
  let d := if 0 ≤ p then den * tenTo p.toNat else den
  let down := n / d
  let nearest := divHalfEven n d
  let other := if nearest = down then down + 1 else down
  if x.readsBack nearest p then some nearest
  else if x.readsBack other p then some other
  else none

def shortestFrom (x : Binary64) (top : Int) : Nat → Nat → Nat × Int
  | 0, _ => (0, 0)
  | more + 1, digits =>
    let p := top - digits
    match x.onGrid p with
    | some d => (d, p)
    | none => shortestFrom x top more (digits + 1)

def stripZeros : Nat → Nat × Int → Nat × Int
  | 0, d => d
  | limit + 1, (d, p) => if d ≠ 0 ∧ d % 10 = 0 then stripZeros limit (d / 10, p + 1) else (d, p)

def shortest (x : Binary64) : Nat × Int :=
  stripZeros 20 (shortestFrom x (x.leadingExponent 640 309) 18 0)

def zeros (n : Nat) : String := String.ofList (List.replicate n '0')

def layout (digits : String) (exponent : Int) : String :=
  let count : Int := digits.length
  let point := count + exponent
  if 0 ≤ exponent ∧ point ≤ 16 then digits ++ zeros exponent.toNat ++ ".0"
  else if 0 < point ∧ point ≤ 16 then
    String.ofList (digits.toList.take point.toNat) ++ "." ++
      String.ofList (digits.toList.drop point.toNat)
  else if -5 < point ∧ point ≤ 0 then "0." ++ zeros (-point).toNat ++ digits
  else
    let fraction := String.ofList (digits.toList.drop 1)
    String.ofList (digits.toList.take 1) ++ (if fraction = "" then "" else "." ++ fraction) ++
      "e" ++ (if point - 1 < 0 then "-" else "+") ++ Nat.repr (point - 1).natAbs

def text (x : Binary64) : String :=
  if x.isZero then "0.0"
  else
    let (digits, exponent) := x.shortest
    layout (Nat.repr digits) exponent

end ApiAtlas.Binary64

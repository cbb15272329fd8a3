import ApiAtlas.Exclude.Glob

/-!
The room that globs take once they are laid out for matching: a byte is a state, a class two with
its ranges, and runs and choices are states with several ways on. Globs that only spell names out
are looked up as they are and take none. What is laid out is matched only up to a fixed size.
-/
namespace ApiAtlas.Glob

namespace Room

def state : Nat := 32
def range : Nat := 8
def way : Nat := 4

def oneOf (ranges : Nat) : Nat := 2 * state + min ranges 128 * range

def run (size : Nat) : Nat := state + 2 * way + size

def optional (size : Nat) : Nat := 2 * state + 2 * way + size

def choice : List Nat → Nat
  | [] => 0
  | [size] => size
  | sizes => 2 * state + sizes.foldr (fun size total => way + size + total) 0

def anything : Nat := run (oneOf 1)

end Room

open Room in
mutual

def room : Token → Nat
  | .literal c => (Utf8.encodeChar c).length * state
  | .any => oneOf 2
  | .star => run (oneOf 2)
  | .anyPrefix => choice [optional state, anything + state]
  | .anySuffix => state + anything
  | .anyMiddle => choice [state, state + anything + state]
  | .oneOf true ranges => oneOf ((ranges.flatMap byteRanges).length + 1)
  | .oneOf false ranges =>
    match ranges.flatMap byteRanges with
    | [(low, high)] => if low = high then state else oneOf 1
    | bytes => oneOf bytes.length
  | .alternates branches => choice (roomAny branches)

def roomAll : List Token → Nat
  | [] => 0
  | token :: tokens => room token + roomAll tokens

def roomAny : List (List Token) → List Nat
  | [] => []
  | branch :: branches =>
    if allVoid branch then roomAny branches else roomAll branch :: roomAny branches

end

/-- Globs laid out together: each has its two ends, where it starts and stops, and a last state. -/
def roomTogether (globs : List (List Token)) : Nat :=
  Room.state + Room.choice (globs.map fun glob => roomAll glob + 5 * Room.state)

def isSpelled : List Token → Bool
  | .anyPrefix :: .star :: .literal '.' :: rest =>
    rest.all fun token => isLiteral token && !isSlash token && !isDot token
  | .anyPrefix :: rest => rest.all isLiteral
  | tokens => tokens.all isLiteral

def endsInExtension (tokens : List Token) : Bool :=
  (tokens.reverse.takeWhile fun token => isLiteral token && !isSlash token).any isDot

def maxRoom : Nat := 10485760

/-- Whether globs can be matched at once. Those that end in an extension are laid out one by one,
all others together. -/
def fit (globs : List (List Token)) : Bool :=
  let (alone, together) := (globs.filter (!isSpelled ·)).partition endsInExtension
  alone.all (roomTogether [·] ≤ maxRoom) && roomTogether together ≤ maxRoom

end ApiAtlas.Glob

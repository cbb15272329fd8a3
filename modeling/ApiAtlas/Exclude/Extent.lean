import ApiAtlas.Exclude.Glob

/-!
How deep a glob is nested. A row of several pieces, a group, a choice, a run and a class are a level
each: `{a,bc}` is a group, in it a choice, and in that the row `bc`. Globs are matched only up to a
depth that is fixed.
-/
namespace ApiAtlas.Glob

/-- How many pieces stand side by side, and how many levels there are in the deepest. -/
structure Extent where
  pieces : Nat
  depth : Nat
  deriving DecidableEq, Repr

namespace Extent

def nothing : Extent := ⟨0, 0⟩

def single : Extent := ⟨1, 0⟩

def beside (a b : Extent) : Extent := ⟨a.pieces + b.pieces, max a.depth b.depth⟩

def row (extents : List Extent) : Extent := extents.foldr beside nothing

def raised (e : Extent) : Extent := ⟨1, e.depth + 1⟩

/-- As one piece, for which several take a level more. -/
def joined (e : Extent) : Extent := if e.pieces ≤ 1 then e else e.raised

def group (branches : Extent) : Extent :=
  if branches.pieces = 0 then nothing else branches.joined.raised

def run (e : Extent) : Extent := e.raised

def oneOf (ranges : Nat) : Extent := (row (List.replicate ranges single)).joined.raised

end Extent

open Extent in
mutual

def extent : Token → Extent
  | .literal c => row ((Utf8.encodeChar c).map fun _ => single)
  | .any => oneOf 1
  | .star => run (oneOf 1)
  | .anyPrefix => group (row [run single, (row [run single, single]).joined])
  | .anySuffix => row [single, run single]
  | .anyMiddle => group (row [single, (row [single, run single, single]).joined])
  | .oneOf _ ranges => oneOf (ranges.flatMap byteRanges).length
  | .alternates branches => group (extentAny branches)

def extentAll : List Token → Extent
  | [] => nothing
  | token :: tokens => (extent token).beside (extentAll tokens)

def extentAny : List (List Token) → Extent
  | [] => nothing
  | branch :: branches => (extentAll branch).joined.beside (extentAny branches)

end

def maxDepth : Nat := 250

def depth (tokens : List Token) : Nat := (extentAll tokens).raised.depth

def isTooDeep (tokens : List Token) : Bool := maxDepth < depth tokens

end ApiAtlas.Glob

/-!
Sets of characters given as closed intervals of code points.
-/
namespace ApiAtlas.Text

abbrev Ranges := List (Nat × Nat)

def Ranges.holds (ranges : Ranges) (c : Char) : Bool :=
  ranges.any fun r => r.1 ≤ c.toNat && c.toNat ≤ r.2

end ApiAtlas.Text

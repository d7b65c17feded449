/-!
Sets of characters given by closed ranges of code points.
-/

namespace SampleTypes.Text

abbrev Ranges := List (Nat × Nat)

def Ranges.contains (ranges : Ranges) (c : Char) : Bool :=
  ranges.any fun range => decide (range.1 ≤ c.toNat) && decide (c.toNat ≤ range.2)

end SampleTypes.Text

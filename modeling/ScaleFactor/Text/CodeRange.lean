/-!
# Ranges of code points

A property of characters is kept as the increasing list of the code point ranges that have it.
-/

namespace ScaleFactor.Text

/-- Whether the character lies in one of the ranges, both ends included. -/
def inRanges (ranges : List (Nat × Nat)) (c : Char) : Bool :=
  ranges.any fun r => r.1 ≤ c.toNat && c.toNat ≤ r.2

end ScaleFactor.Text

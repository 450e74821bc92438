/-!
# Classes of characters

A class of characters is a list of ranges of code points.
-/

namespace TypeAssay

/-- Whether a code point lies in one of some ranges, both ends included. -/
def inRanges (ranges : List (Nat × Nat)) (code : Nat) : Bool :=
  ranges.any fun (low, high) => low ≤ code && code ≤ high

end TypeAssay

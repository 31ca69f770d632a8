/-!
# Ranges of characters

A class of characters is given by closed ranges of code points.
-/

namespace DeltaView

namespace Letter

/-- Is a character in one of the ranges? -/
def inRanges (ranges : List (Nat × Nat)) (c : Char) : Bool :=
  ranges.any fun (first, last) => first ≤ c.toNat && c.toNat ≤ last

end Letter

end DeltaView

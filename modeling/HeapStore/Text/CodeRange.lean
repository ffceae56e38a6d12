/-!
# Ranges of code points

A property of characters is a table of ranges, both ends included.
-/

namespace HeapStore.Text

/-- First and last code point of a range. -/
abbrev CodeRange := Nat × Nat

/-- The code point of `c` lies in one of the ranges. -/
def inRanges (ranges : List CodeRange) (c : Char) : Bool :=
  ranges.any fun (first, last) => first ≤ c.toNat && c.toNat ≤ last

end HeapStore.Text

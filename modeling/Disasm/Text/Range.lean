/-!
# Sets of characters by ranges

The sets of characters that a standard lays down are given by their ranges of
code points.
-/

namespace Disasm

namespace Text

/-- Whether a character lies in one of some ranges, each given by its first and
last code point. -/
def inRanges (ranges : List (Nat × Nat)) (c : Char) : Bool :=
  ranges.any fun (first, last) => decide (first ≤ c.toNat) && decide (c.toNat ≤ last)

end Text

end Disasm

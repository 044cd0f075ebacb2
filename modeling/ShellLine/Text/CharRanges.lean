/-! # Sets of characters

A property of characters is given by closed ranges of code points, ascending and
apart, so that each property has one table. -/

namespace ShellLine

/-- Closed ranges of code points. -/
abbrev CharRanges := List (Nat × Nat)

namespace CharRanges

/-- Whether a code point lies in one of the ranges. -/
def contains (ranges : CharRanges) (c : Char) : Bool :=
  ranges.any fun (low, high) => low ≤ c.toNat && c.toNat ≤ high

end CharRanges

end ShellLine

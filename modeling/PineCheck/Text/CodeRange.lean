/-!
# PineCheck — tables of code points

A property of characters is given as a list of inclusive ranges of code points,
in increasing order.
-/

namespace PineCheck.Text

/-- Inclusive ranges of code points. -/
abbrev CodeRanges := List (Nat × Nat)

/-- Whether a character's code point lies in one of the ranges. -/
def CodeRanges.covers (ranges : CodeRanges) (c : Char) : Bool :=
  ranges.any fun r => r.1 ≤ c.toNat && c.toNat ≤ r.2

end PineCheck.Text

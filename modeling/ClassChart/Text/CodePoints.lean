/-!
# Sets of code points

A character property is a set of code points, kept as the inclusive ranges it consists of.

## Main definitions

* `CodePoints`: a set of code points by ranges.
* `CodePoints.contains`: membership of a character.
-/

namespace ClassChart.Text

/-- A set of code points, given by its inclusive ranges in ascending order. -/
structure CodePoints where
  ranges : List (Nat × Nat)

/-- Whether a character lies in one of the ranges. -/
def CodePoints.contains (s : CodePoints) (c : Char) : Bool :=
  s.ranges.any fun r => r.1 ≤ c.toNat && c.toNat ≤ r.2

end ClassChart.Text

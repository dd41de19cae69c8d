import StraightLine.Text.Basic

/-!
# Ranges — sets of characters as closed intervals of code points
-/

namespace StraightLine

/-- Whether a code point lies in one of the closed intervals. -/
def inRanges (table : List (Nat × Nat)) (n : Nat) : Bool :=
  table.any fun r => r.1 ≤ n && n ≤ r.2

end StraightLine

import StraightLine.Text.Basic

/-!
# Integers in decimal — written and in range

Integers are written with a minus and no leading zeros; literals hold those
of sixty-four bits.
-/

namespace StraightLine

/-- The decimal digits of a natural number. -/
def Text.ofNat (n : Nat) : Text := Nat.toDigits 10 n

/-- An integer in decimal. -/
def Text.ofInt : Int → Text
  | .ofNat n => Text.ofNat n
  | .negSucc n => '-' :: Text.ofNat (n + 1)

/-- Whether an integer is one of sixty-four bits. -/
def isWord (n : Int) : Bool := -0x8000000000000000 ≤ n && n < 0x8000000000000000

end StraightLine

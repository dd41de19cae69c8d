import StraightLine.Decimal.Shortest

/-!
# Decimal layouts — where the point goes

A layout says which magnitudes are written with a point among their digits
and which with an exponent, how the exponent shows its sign, and which of two
equally near decimals is taken. A point is never left without digits on
either side.
-/

namespace StraightLine

/-- How a finite double is written. -/
structure Layout where
  /-- The least exponent, in the sense of `DecimalDigits`, that needs none. -/
  lowest : Int
  /-- The greatest exponent that needs none. -/
  highest : Int
  /-- Whether a positive exponent has a plus. -/
  plus : Bool
  tie : Tie
  deriving DecidableEq, Repr

/-- Zeros. -/
def Text.zeros (n : Nat) : Text := List.replicate n '0'

namespace Layout

/-- Digits with a point after the first `e` of them. -/
def positional (digits : Text) (e : Int) : Text :=
  if e ≤ 0 then '0' :: '.' :: (Text.zeros (-e).toNat ++ digits)
  else
    let n := e.toNat
    if digits.length ≤ n then digits ++ Text.zeros (n - digits.length) ++ ['.', '0']
    else digits.take n ++ '.' :: digits.drop n

/-- One digit, the others behind a point, and an exponent. -/
def scientific (l : Layout) (digits : Text) (e : Int) : Text :=
  let rest := match digits.drop 1 with
    | [] => []
    | more => '.' :: more
  let power := e - 1
  let sign := if power < 0 then ['-'] else if l.plus then ['+'] else []
  digits.take 1 ++ rest ++ 'e' :: (sign ++ Nat.toDigits 10 power.natAbs)

/-- A magnitude without its sign. -/
def magnitude (l : Layout) (rank : Nat) : Text :=
  let d := Double.shortest l.tie rank
  if l.lowest ≤ d.exponent ∧ d.exponent ≤ l.highest then positional d.digits d.exponent
  else l.scientific d.digits d.exponent

/-- A finite double. -/
def finite (l : Layout) (negative : Bool) (rank : Nat) : Text :=
  if negative then '-' :: l.magnitude rank else l.magnitude rank

end Layout

end StraightLine

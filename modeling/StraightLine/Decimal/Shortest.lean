import StraightLine.Decimal.Double

/-!
# Shortest decimals — the fewest digits that read back

Around every magnitude lies the interval of reals that round to it, its ends
included when the mantissa is even. The text of a magnitude is taken from the
coarsest decimal grid that has a point in the interval, and of the two grid
points next to the magnitude the nearer one is taken. Seventeen digits always
suffice.
-/

namespace StraightLine

/-- Digits `d₁d₂…dₙ` that stand for `0.d₁d₂…dₙ * 10 ^ exponent`. -/
structure DecimalDigits where
  digits : Text
  exponent : Int
  deriving DecidableEq, Repr

/-- Which of two equally near decimals is written. -/
inductive Tie where
  | toEven
  | up
  deriving DecidableEq, Repr

/-- A magnitude `value / unit` with the interval of reals that round to it,
all over one denominator. -/
structure Interval where
  low : Nat
  value : Nat
  high : Nat
  unit : Nat
  closed : Bool
  deriving DecidableEq, Repr

namespace Interval

/-- Whether the `p`-th multiple of the unit lies in the interval. -/
def holds (i : Interval) (p : Nat) : Bool :=
  if i.closed then i.low ≤ p * i.unit && p * i.unit ≤ i.high
  else i.low < p * i.unit && p * i.unit < i.high

/-- The interval in units of `10 ^ e`. -/
def scaled (i : Interval) (e : Int) : Interval :=
  let k := Nat.pow 10 (-e).toNat
  { i with
    low := i.low * k
    value := i.value * k
    high := i.high * k
    unit := i.unit * Nat.pow 10 e.toNat }

/-- The nearer of the two multiples of the unit next to the value, as far as
they lie in the interval. -/
def nearest? (i : Interval) (tie : Tie) : Option Nat :=
  let p := i.value / i.unit
  let twice := 2 * (i.value % i.unit)
  match i.holds p, i.holds (p + 1) with
  | false, false => none
  | true, false => some p
  | false, true => some (p + 1)
  | true, true =>
    if twice < i.unit then some p
    else if i.unit < twice then some (p + 1)
    else
      match tie with
      | .up => some (p + 1)
      | .toEven => some (if p % 2 = 0 then p else p + 1)

/-- The interval of a rank, in quarters of its spacing. Below a power of two
the spacing is half of that above. -/
def ofRank (rank : Nat) : Interval :=
  let b := Double.binary rank
  let e := b.exponent - 2
  let k := Nat.pow 2 e.toNat
  let down := if Nat.pow 2 52 < rank ∧ rank % Nat.pow 2 52 = 0 then 1 else 2
  ⟨(4 * b.mantissa - down) * k, 4 * b.mantissa * k, (4 * b.mantissa + 2) * k, Nat.pow 2 (-e).toNat,
    b.mantissa % 2 = 0⟩

/-- The exponent `e` with `10 ^ (e - 1) ≤ value / unit < 10 ^ e`. -/
def exponent (i : Interval) : Int :=
  let guess : Int := (Nat.toDigits 10 i.value).length - (Nat.toDigits 10 i.unit).length
  if i.unit * Nat.pow 10 guess.toNat ≤ i.value * Nat.pow 10 (-guess).toNat then guess + 1 else guess

/-- The digits of a grid point, without the zeros at their end. -/
def digitsOf (p : Nat) (gridExponent : Int) : DecimalDigits :=
  let written := Nat.toDigits 10 p
  ⟨(written.reverse.dropWhile (· == '0')).reverse, gridExponent + written.length⟩

/-- The digits of the coarsest grid with a point in the interval. -/
def shortest (i : Interval) (tie : Tie) : DecimalDigits :=
  let e := i.exponent
  let found := (List.range 17).findSome? fun n : Nat =>
    let grid := e - (n + 1)
    ((i.scaled grid).nearest? tie).map fun p => digitsOf p grid
  found.getD (digitsOf (i.scaled (e - 17)).value (e - 17))

end Interval

namespace Double

/-- The fewest digits that read back as a magnitude; a single zero for zero. -/
def shortest (tie : Tie) (rank : Nat) : DecimalDigits :=
  if rank = 0 then ⟨['0'], 1⟩ else (Interval.ofRank rank).shortest tie

end Double

end StraightLine

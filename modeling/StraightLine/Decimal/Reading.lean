import StraightLine.Decimal.Double

/-!
# Reading decimals — the double nearest to a written number

A written number is a sign, digits with at most one point, and an optional
exponent; the words for infinity and for what is no number are read too, in
any case. Of the doubles around the exact value the nearest is taken, the one
of even rank on a tie, and a value beyond the largest by half a step or more is
infinite.
-/

namespace StraightLine

/-- A written number: `digits * 10 ^ exponent` with a sign. -/
structure Decimal where
  negative : Bool
  digits : Nat
  exponent : Int
  deriving DecidableEq, Repr

namespace Text

/-- The number that digits write. -/
def digitsValue (t : Text) : Nat := t.foldl (fun n c => 10 * n + (c.toNat - '0'.toNat)) 0

/-- The digits at the start of a text, and the rest. -/
def spanDigits (t : Text) : Text × Text := (t.takeWhile Char.isDigit, t.dropWhile Char.isDigit)

/-- A sign, when there is one, and the rest. -/
def spanSign : Text → Bool × Text
  | '-' :: t => (true, t)
  | '+' :: t => (false, t)
  | t => (false, t)

end Text

namespace Decimal

/-- An exponent as it is written after its letter; nothing when the text is
exhausted before the letter. -/
def exponentOf? : Text → Option Int
  | [] => some 0
  | c :: t =>
    if c = 'e' ∨ c = 'E' then
      let (negative, t) := Text.spanSign t
      if t.isEmpty || !t.all Char.isDigit then none
      else if negative then some (-(Text.digitsValue t : Int)) else some (Text.digitsValue t : Int)
    else none

/-- Digits with at most one point among or around them, and the rest. -/
def mantissaOf? (t : Text) : Option (Nat × Nat × Text) :=
  let (whole, t) := Text.spanDigits t
  let (part, t) := match t with
    | '.' :: t => Text.spanDigits t
    | t => ([], t)
  if whole.isEmpty && part.isEmpty then none
  else some (Text.digitsValue (whole ++ part), part.length, t)

/-- A written number. -/
def ofText? (t : Text) : Option Decimal :=
  let (negative, t) := Text.spanSign t
  match mantissaOf? t with
  | none => none
  | some (digits, places, t) =>
    (exponentOf? t).map fun e => ⟨negative, digits, e - places⟩

end Decimal

/-- `num / den` to the nearest whole number, to the even one on a tie. -/
def roundHalfEven (num den : Nat) : Nat :=
  let low := num / den
  let twice := 2 * (num % den)
  if twice < den ∨ (twice = den ∧ low % 2 = 0) then low else low + 1

namespace Double

/-- The greatest `e` with `2 ^ e ≤ num / den`, both being positive. -/
def floorLog (num den : Nat) : Int :=
  let guess : Int := (num.log2 : Int) - den.log2
  if den * Nat.pow 2 guess.toNat ≤ num * Nat.pow 2 (-guess).toNat then guess else guess - 1

/-- The rank nearest to `num / den`, both being positive. A mantissa that
rounds up to `2 ^ 53` is the first of the next spacing. -/
def rankOf (num den : Nat) : Nat :=
  let spacing := (floorLog num den + 1022).toNat
  let e : Int := spacing - 1074
  spacing * Nat.pow 2 52 +
    roundHalfEven (num * Nat.pow 2 (-e).toNat) (den * Nat.pow 2 e.toNat)

/-- The double nearest to a written number. Values of more than 310 digits
before the point, or that start more than 330 places after it, need no
arithmetic. -/
def ofDecimal (d : Decimal) : Double :=
  if d.digits = 0 then ofRank d.negative 0
  else
    let places : Int := (Nat.toDigits 10 d.digits).length + d.exponent
    if 310 < places then .infinite d.negative
    else if places < -330 then ofRank d.negative 0
    else
      ofRank d.negative
        (rankOf (d.digits * Nat.pow 10 d.exponent.toNat) (Nat.pow 10 (-d.exponent).toNat))

/-- The double a text writes. -/
def ofText? (t : Text) : Option Double :=
  match Decimal.ofText? t with
  | some d => some (ofDecimal d)
  | none =>
    let (negative, word) := Text.spanSign t
    let word := word.map Char.toLower
    if word = "inf".toList ∨ word = "infinity".toList then some (.infinite negative)
    else if word = "nan".toList then some .notANumber
    else none

end Double

end StraightLine

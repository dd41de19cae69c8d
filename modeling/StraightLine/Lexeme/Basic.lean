import StraightLine.Decimal.Reading
import StraightLine.Decimal.Integer

/-!
# Lexemes — numbers and names at the start of a text

Each reader takes the longest lexeme of its class and gives the rest. A float
has a point with a digit on at least one side; its exponent belongs to it only
when it has digits.
-/

namespace StraightLine

namespace Text

/-- An optional minus and what follows. -/
def spanMinus : Text → Text × Text
  | '-' :: t => (['-'], t)
  | t => ([], t)

/-- An integer: an optional minus and digits. -/
def integerLexeme? (t : Text) : Option (Text × Text) :=
  let (minus, t) := spanMinus t
  let (digits, rest) := spanDigits t
  if digits.isEmpty then none else some (minus ++ digits, rest)

/-- A plus or minus of an exponent and what follows. -/
def spanExponentSign : Text → Text × Text
  | '-' :: t => (['-'], t)
  | '+' :: t => (['+'], t)
  | t => ([], t)

/-- An exponent, empty when there is none. -/
def spanExponent : Text → Text × Text
  | [] => ([], [])
  | c :: t =>
    if c = 'e' ∨ c = 'E' then
      let (sign, t') := spanExponentSign t
      let (digits, rest) := spanDigits t'
      if digits.isEmpty then ([], c :: t) else (c :: (sign ++ digits), rest)
    else ([], c :: t)

/-- A float: an optional minus, digits around a point, an optional exponent. -/
def floatLexeme? (t : Text) : Option (Text × Text) :=
  let (minus, t) := spanMinus t
  let (whole, t) := spanDigits t
  match t with
  | '.' :: t =>
    let (part, t) := spanDigits t
    if whole.isEmpty && part.isEmpty then none
    else
      let (exponent, rest) := spanExponent t
      some (minus ++ whole ++ '.' :: (part ++ exponent), rest)
  | _ => none

/-- The first character of a name. -/
def isNameStart (c : Char) : Bool := c.isAlpha || c == '_'

/-- A further character of a name. -/
def isNameChar (c : Char) : Bool := c.isAlphanum || c == '_'

/-- A name. -/
def nameLexeme? : Text → Option (Text × Text)
  | [] => none
  | c :: t =>
    if isNameStart c then some (c :: t.takeWhile isNameChar, t.dropWhile isNameChar) else none

/-- The integer of sixty-four bits that a text writes, with an optional
sign. -/
def wordOf? (t : Text) : Option Int :=
  let (negative, digits) := spanSign t
  if digits.isEmpty || !digits.all Char.isDigit then none
  else
    let n : Int := digitsValue digits
    let n := if negative then -n else n
    if isWord n then some n else none

end Text

end StraightLine

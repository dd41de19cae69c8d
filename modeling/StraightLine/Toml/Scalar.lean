import StraightLine.Toml.Basic
import StraightLine.Decimal.Reading

/-!
# Scalars — values that are one word

Truth values, integers in four bases, floats and moments. Underscores stand
between digits only, and a decimal number has no leading zero. Integers fit
sixty-four bits, with a sign or without; a float that is written with digits
is finite. A moment is a date, a time of day, or both with or without an
offset; its seconds may be left out.
-/

namespace StraightLine

namespace Toml

/-- Digits of some kind with single underscores between them, without those. -/
def digitRun? (isDigit : Char → Bool) : Text → Option Text
  | [] => none
  | [c] => if isDigit c then some [c] else none
  | c :: '_' :: t => if isDigit c then (digitRun? isDigit t).map (c :: ·) else none
  | c :: t => if isDigit c then (digitRun? isDigit t).map (c :: ·) else none

/-- Whether digits of a decimal number start as they may. -/
def isCanonical : Text → Bool
  | '0' :: _ :: _ => false
  | _ => true

/-- Decimal digits without underscores and leading zeros. -/
def decimalRun? (t : Text) : Option Text :=
  (digitRun? Char.isDigit t).bind fun d => if isCanonical d then some d else none

/-- The value of a digit, of any base up to sixteen. -/
def digitOf (c : Char) : Nat :=
  if c.isDigit then c.toNat - '0'.toNat else c.toLower.toNat - 'a'.toNat + 10

/-- The number that digits of a base write. -/
def numberOf (base : Nat) (t : Text) : Nat := t.foldl (fun n c => base * n + digitOf c) 0

/-- A natural number of a base. -/
def basedNumber? (base : Nat) (t : Text) : Option Int :=
  (digitRun? (fun c => (c.isDigit || ('a' ≤ c.toLower && c.toLower ≤ 'f')) && digitOf c < base)
    t).map fun d => numberOf base d

/-- An integer. -/
def integerOf? (t : Text) : Option Int :=
  match t with
  | '0' :: 'x' :: t => basedNumber? 16 t
  | '0' :: 'o' :: t => basedNumber? 8 t
  | '0' :: 'b' :: t => basedNumber? 2 t
  | t =>
    let (negative, t) := Text.spanSign t
    (decimalRun? t).map fun d => if negative then -(numberOf 10 d : Int) else numberOf 10 d

/-- The exponent of a float: its letter is one of two, and its digits may start
with zeros. -/
def exponentText? : Text → Option Text
  | [] => some []
  | c :: t =>
    if c = 'e' ∨ c = 'E' then
      let (negative, t) := Text.spanSign t
      (digitRun? Char.isDigit t).map fun d => 'e' :: (if negative then '-' :: d else d)
    else none

/-- Whether a character belongs to a run of digits. -/
def isRunChar (c : Char) : Bool := c.isDigit || c == '_'

/-- A float written with digits: a point, an exponent, or both. -/
def floatDigits? (t : Text) : Option Text :=
  let (negative, t) := Text.spanSign t
  let sign := if negative then ['-'] else []
  let whole := t.takeWhile isRunChar
  (decimalRun? whole).bind fun whole =>
    match t.dropWhile isRunChar with
    | '.' :: t =>
      (digitRun? Char.isDigit (t.takeWhile isRunChar)).bind fun part =>
        (exponentText? (t.dropWhile isRunChar)).map fun e => sign ++ whole ++ '.' :: (part ++ e)
    | [] => none
    | t => (exponentText? t).map fun e => sign ++ whole ++ e

/-- A float. -/
def floatOf? (t : Text) : Option Double :=
  let (negative, word) := Text.spanSign t
  if word = "inf".toList then some (.infinite negative)
  else if word = "nan".toList then some .notANumber
  else
    match (floatDigits? t).bind Double.ofText? with
    | some (.finite negative rank) => some (.finite negative rank)
    | _ => none

/-! ## Moments -/

/-- A number of so many digits and what follows. -/
def fixedNumber? (count : Nat) (t : Text) : Option (Nat × Text) :=
  let digits := t.take count
  if digits.length = count && digits.all Char.isDigit then
    some (Text.digitsValue digits, t.drop count)
  else none

/-- The days of a month. -/
def daysOf (year month : Nat) : Nat :=
  if month = 2 then
    if (year % 4 = 0 ∧ year % 100 ≠ 0) ∨ year % 400 = 0 then 29 else 28
  else if month = 4 ∨ month = 6 ∨ month = 9 ∨ month = 11 then 30
  else 31

/-- What follows a fixed character. -/
def afterChar? (c : Char) : Text → Option Text
  | [] => none
  | d :: t => if d = c then some t else none

/-- What follows a date. -/
def afterDate? (t : Text) : Option Text := do
  let (year, t) ← fixedNumber? 4 t
  let t ← afterChar? '-' t
  let (month, t) ← fixedNumber? 2 t
  let t ← afterChar? '-' t
  let (day, t) ← fixedNumber? 2 t
  if 1 ≤ month ∧ month ≤ 12 ∧ 1 ≤ day ∧ day ≤ daysOf year month then some t else none

/-- What follows the fraction of a second. -/
def afterFraction? : Text → Option Text
  | '.' :: t => if (t.takeWhile Char.isDigit).isEmpty then none else some (t.dropWhile Char.isDigit)
  | t => some t

/-- What follows the seconds of a time of day. -/
def afterSeconds? : Text → Option Text
  | ':' :: t => do
    let (second, t) ← fixedNumber? 2 t
    if second ≤ 60 then afterFraction? t else none
  | t => some t

/-- What follows hours and minutes. -/
def afterMinutes? (t : Text) : Option Text := do
  let (hour, t) ← fixedNumber? 2 t
  let t ← afterChar? ':' t
  let (minute, t) ← fixedNumber? 2 t
  if hour ≤ 23 ∧ minute ≤ 59 then some t else none

/-- What follows a time of day. -/
def afterTime? (t : Text) : Option Text := (afterMinutes? t).bind afterSeconds?

/-- Whether a text is an offset, or nothing. -/
def isOffset : Text → Bool
  | [] => true
  | ['Z'] => true
  | ['z'] => true
  | '+' :: t => afterMinutes? t == some []
  | '-' :: t => afterMinutes? t == some []
  | _ => false

/-- Whether a text is a moment. -/
def isMoment (t : Text) : Bool :=
  match afterDate? t with
  | some [] => true
  | some (c :: t) =>
    (c == 'T' || c == 't' || c == ' ') &&
      match afterTime? t with
      | some rest => isOffset rest
      | none => false
  | none => afterTime? t == some []

/-- The value of a word. -/
def scalar? (t : Text) : Option Toml :=
  if t = "true".toList then some (.boolean true)
  else if t = "false".toList then some (.boolean false)
  else
    match integerOf? t with
    | some n =>
      if -0x8000000000000000 ≤ n ∧ n < 0x10000000000000000 then some (.integer n) else none
    | none =>
      match floatOf? t with
      | some x => some (.float x)
      | none => if isMoment t then some (.moment t) else none

end Toml

end StraightLine

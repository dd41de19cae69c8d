import StraightLine.Lexeme.Basic

/-!
# Lexical classes — lexemes without a fixed spelling

Identifiers start with a letter or an underscore; integers are decimal,
binary, octal or hexadecimal and floats have digits on both sides of the
point, both with an optional minus; strings and characters are quoted, and a
backslash in them takes the next character with it, line feeds excepted.
Each reader takes the longest lexeme of its class and gives the rest.
-/

namespace StraightLine

namespace Text

/-- One character or more that pass a test. -/
def spanSome? (holds : Char → Bool) (t : Text) : Option (Text × Text) :=
  if (t.takeWhile holds).isEmpty then none else some (t.takeWhile holds, t.dropWhile holds)

/-- A lexeme with a text in front of it. -/
def behind (front : Text) (r : Option (Text × Text)) : Option (Text × Text) :=
  r.map fun (lexeme, rest) => (front ++ lexeme, rest)

/-- An integer behind a zero and a letter that names its base. -/
def basedLexeme? (lower upper : Char) (isDigit : Char → Bool) (t : Text) :
    Option (Text × Text) :=
  let (minus, t) := spanMinus t
  match t with
  | '0' :: letter :: t =>
    if letter = lower ∨ letter = upper then
      behind (minus ++ ['0', letter]) (spanSome? isDigit t)
    else none
  | _ => none

/-- A number with digits on both sides of the point. -/
def plainFloatLexeme? (t : Text) : Option (Text × Text) :=
  match integerLexeme? t with
  | some (whole, '.' :: t) => behind (whole ++ ['.']) (spanSome? Char.isDigit t)
  | _ => none

/-- A number with a point and an exponent. -/
def exponentFloatLexeme? (t : Text) : Option (Text × Text) :=
  match plainFloatLexeme? t with
  | some (mantissa, letter :: t) =>
    if letter = 'e' ∨ letter = 'E' then
      let (sign, t) := spanExponentSign t
      behind (mantissa ++ letter :: sign) (spanSome? Char.isDigit t)
    else none
  | _ => none

/-- The rest of a string up to its closing quote. -/
def stringEnd? : Text → Option (Text × Text)
  | [] => none
  | '"' :: t => some (['"'], t)
  | '\\' :: c :: t => if c = '\n' then none else behind ['\\', c] (stringEnd? t)
  | ['\\'] => none
  | c :: t => behind [c] (stringEnd? t)

/-- A string in double quotes. -/
def stringLexeme? : Text → Option (Text × Text)
  | '"' :: t => behind ['"'] (stringEnd? t)
  | _ => none

/-- A character in single quotes. -/
def charLexeme? : Text → Option (Text × Text)
  | '\'' :: '\\' :: c :: '\'' :: t => if c = '\n' then none else some (['\'', '\\', c, '\''], t)
  | '\'' :: c :: '\'' :: t => if c = '\'' ∨ c = '\\' then none else some (['\'', c, '\''], t)
  | _ => none

end Text

/-- A class of lexemes. -/
inductive LexemeClass where
  | identifier
  | decimalInteger
  | binaryInteger
  | octalInteger
  | hexInteger
  | plainFloat
  | exponentFloat
  | string
  | char
  deriving DecidableEq, Repr

/-- The longest lexeme of a class at the start of a text, and the rest. -/
def LexemeClass.lexeme? : LexemeClass → Text → Option (Text × Text)
  | identifier => Text.nameLexeme?
  | decimalInteger => Text.integerLexeme?
  | binaryInteger => Text.basedLexeme? 'b' 'B' fun c => c == '0' || c == '1'
  | octalInteger => Text.basedLexeme? 'o' 'O' fun c => '0' ≤ c && c ≤ '7'
  | hexInteger =>
    Text.basedLexeme? 'x' 'X' fun c =>
      c.isDigit || ('a' ≤ c && c ≤ 'f') || ('A' ≤ c && c ≤ 'F')
  | plainFloat => Text.plainFloatLexeme?
  | exponentFloat => Text.exponentFloatLexeme?
  | string => Text.stringLexeme?
  | char => Text.charLexeme?

end StraightLine

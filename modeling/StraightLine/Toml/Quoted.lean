import StraightLine.Toml.Basic

/-!
# Quoted strings — basic and literal, on one line or several

Basic strings have escapes and literal ones have none. A string on several
lines stands between three quotes; a line feed right after the opening quotes
is dropped, up to two quotes may stand right before the closing ones, and in
basic strings a backslash at the end of a line takes all blanks up to the next
character with it.
-/

namespace StraightLine

namespace Toml

/-- Blanks inside a line. -/
def isLineBlank (c : Char) : Bool := c == ' ' || c == '\t'

/-- A character that may stand on a line. -/
def isLineChar (c : Char) : Bool := c == '\t' || (0x20 ≤ c.toNat && c.toNat != 0x7F)

/-- The value of a hexadecimal digit. -/
def hexValue? (c : Char) : Option Nat :=
  if c.isDigit then some (c.toNat - '0'.toNat)
  else if 'a' ≤ c ∧ c ≤ 'f' then some (c.toNat - 'a'.toNat + 10)
  else if 'A' ≤ c ∧ c ≤ 'F' then some (c.toNat - 'A'.toNat + 10)
  else none

/-- The number that hexadecimal digits write. -/
def hexNumber? (t : Text) : Option Nat :=
  t.foldl (fun n c => n.bind fun n => (hexValue? c).map fun d => 16 * n + d) (some 0)

/-- A character given by so many hexadecimal digits. -/
def codePoint? (count : Nat) (t : Text) : Option (Char × Text) :=
  if t.length < count then none
  else
    (hexNumber? (t.take count)).bind fun n =>
      if n.isValidChar then some (Char.ofNat n, t.drop count) else none

/-- What follows a backslash. -/
def escaped? : Text → Option (Char × Text)
  | 'b' :: t => some (Char.ofNat 8, t)
  | 't' :: t => some ('\t', t)
  | 'n' :: t => some ('\n', t)
  | 'f' :: t => some (Char.ofNat 12, t)
  | 'r' :: t => some ('\r', t)
  | 'e' :: t => some (Char.ofNat 27, t)
  | '"' :: t => some ('"', t)
  | '\\' :: t => some ('\\', t)
  | 'x' :: t => codePoint? 2 t
  | 'u' :: t => codePoint? 4 t
  | 'U' :: t => codePoint? 8 t
  | _ => none

/-- The end of a line, when the text starts with one. -/
def lineEnd? : Text → Option (Text × Text)
  | '\n' :: t => some (['\n'], t)
  | '\r' :: '\n' :: t => some (['\r', '\n'], t)
  | _ => none

/-- Blanks and line ends. -/
def isSpace (c : Char) : Bool := isLineBlank c || c == '\n' || c == '\r'

/-- The text without blanks and line ends at its start. -/
def skipLines : Text → Text
  | [] => []
  | '\r' :: '\n' :: t => skipLines t
  | c :: t => if isLineBlank c || c == '\n' then skipLines t else c :: t

/-- The text after a backslash that ends its line, without the blanks there. -/
def afterFold? (t : Text) : Option Text :=
  (lineEnd? (t.dropWhile isLineBlank)).map fun r => skipLines r.2

/-- Puts characters in front of what is read after them. -/
def prepend (s : Text) (r : Except TomlError (Text × Text)) : Except TomlError (Text × Text) :=
  r.map fun (t, rest) => (s ++ t, rest)

/-- A string on one line after its opening quote. The number bounds the
characters. -/
def readLineString (quote : Char) : Nat → Text → Except TomlError (Text × Text)
  | 0, _ => .error (.expected "closing quote")
  | _, [] => .error (.expected "closing quote")
  | n + 1, c :: t =>
    if c = quote then .ok ([], t)
    else if c = '\\' ∧ quote = '"' then
      match escaped? t with
      | some (c, t) => prepend [c] (readLineString quote n t)
      | none => .error .badEscape
    else if isLineChar c then prepend [c] (readLineString quote n t)
    else .error .badCharacter

/-- A string on several lines after its opening quotes. The number bounds the
characters. -/
def readLinesString (quote : Char) : Nat → Text → Except TomlError (Text × Text)
  | 0, _ => .error (.expected "closing quotes")
  | _, [] => .error (.expected "closing quotes")
  | n + 1, c :: t =>
    if c = quote then
      let quotes := (c :: t).takeWhile (· == quote)
      if quotes.length < 3 then prepend [c] (readLinesString quote n t)
      else
        let kept := min quotes.length 5 - 3
        .ok (List.replicate kept quote, t.drop (kept + 2))
    else if c = '\\' ∧ quote = '"' then
      match afterFold? t with
      | some t => readLinesString quote n t
      | none =>
        match escaped? t with
        | some (c, t) => prepend [c] (readLinesString quote n t)
        | none => .error .badEscape
    else
      match lineEnd? (c :: t) with
      | some (e, t) => prepend e (readLinesString quote n t)
      | none =>
        if isLineChar c then prepend [c] (readLinesString quote n t) else .error .badCharacter

/-- The text after a line feed at its start. -/
def dropLineEnd (t : Text) : Text :=
  match lineEnd? t with
  | some (_, rest) => rest
  | none => t

/-- A string on one line, when the text starts with a quote. -/
def keyString? : Text → Option (Except TomlError (Text × Text))
  | '"' :: t => some (readLineString '"' t.length t)
  | '\'' :: t => some (readLineString '\'' t.length t)
  | _ => none

/-- A string, when the text starts with a quote. -/
def quoted? : Text → Option (Except TomlError (Text × Text))
  | '"' :: '"' :: '"' :: t => some (readLinesString '"' t.length (dropLineEnd t))
  | '\'' :: '\'' :: '\'' :: t => some (readLinesString '\'' t.length (dropLineEnd t))
  | t => keyString? t

end Toml

end StraightLine

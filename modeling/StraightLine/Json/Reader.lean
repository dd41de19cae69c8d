import StraightLine.Decimal.Reading

/-!
# Reading JSON — one value and nothing else

A value is read as far as its form goes: numbers keep no value, and a string
may hold anything that can be escaped. A string may give a character as two
halves of a surrogate pair; one with a half alone stands for no text, which
does no harm where nobody asks for its text.
-/

namespace StraightLine

/-- Why a text is no JSON, or not the JSON that is wanted. -/
inductive JsonError where
  | expected (what : String)
  | badEscape
  | controlCharacter
  | trailing
  | tooLong
  | missingField (name : String)
  | duplicateField (name : String)
  deriving DecidableEq, Repr

namespace JsonError

/-- The error in words. -/
def message : JsonError → String
  | expected what => s!"expected {what}"
  | badEscape => "invalid escape"
  | controlCharacter => "control character found while parsing a string"
  | trailing => "trailing characters"
  | tooLong => "nesting exceeds the text"
  | missingField name => s!"missing field `{name}`"
  | duplicateField name => s!"duplicate field `{name}`"

end JsonError

/-- A value as it stands in a text. A string has its text if it stands for
one, and so has the key of a field. -/
inductive JsonForm where
  | null
  | bool (b : Bool)
  | number
  | str (t : Option Text)
  | arr (items : List JsonForm)
  | obj (fields : List (Option Text × JsonForm))

namespace JsonForm

/-- What stands between the parts of a value. -/
def isSpace (c : Char) : Bool := c == ' ' || c == '\n' || c == '\t' || c == '\r'

/-- The text without space at its start. -/
def skipSpace (t : Text) : Text := t.dropWhile isSpace

/-- The value of a hexadecimal digit. -/
def hexValue? (c : Char) : Option Nat :=
  if c.isDigit then some (c.toNat - '0'.toNat)
  else if 'a' ≤ c.toLower ∧ c.toLower ≤ 'f' then some (c.toLower.toNat - 'a'.toNat + 10)
  else none

/-- A number given by four hexadecimal digits. -/
def codeUnit? : Text → Option (Nat × Text)
  | a :: b :: c :: d :: t => do
    let a ← hexValue? a
    let b ← hexValue? b
    let c ← hexValue? c
    let d ← hexValue? d
    some (((a * 16 + b) * 16 + c) * 16 + d, t)
  | _ => none

/-- A character by its letter after a backslash. -/
def escapedLetter? (c : Char) : Option Char :=
  if c = '"' ∨ c = '\\' ∨ c = '/' then some c
  else if c = 'b' then some (Char.ofNat 8)
  else if c = 'f' then some (Char.ofNat 12)
  else if c = 'n' then some '\n'
  else if c = 'r' then some '\r'
  else if c = 't' then some '\t'
  else none

/-- A character given by its number, or by two halves; none for a half alone. -/
def unitChar (u : Nat) (t : Text) : Except JsonError (Option Char × Text) :=
  if 0xDC00 ≤ u ∧ u ≤ 0xDFFF then .ok (none, t)
  else if 0xD800 ≤ u ∧ u ≤ 0xDBFF then
    match t with
    | '\\' :: 'u' :: more =>
      match codeUnit? more with
      | none => .error .badEscape
      | some (v, rest) =>
        if 0xDC00 ≤ v ∧ v ≤ 0xDFFF then
          .ok (some (Char.ofNat (0x10000 + (u - 0xD800) * 0x400 + (v - 0xDC00))), rest)
        else .ok (none, t)
    | _ => .ok (none, t)
  else .ok (some (Char.ofNat u), t)

/-- Puts a character in front of a text, as far as both are there. -/
def prepend (c : Option Char) (r : Except JsonError (Option Text × Text)) :
    Except JsonError (Option Text × Text) :=
  r.map fun (s, rest) => (c.bind fun c => s.map (c :: ·), rest)

/-- A string after its opening quote. The number bounds the characters. -/
def readString : Nat → Text → Except JsonError (Option Text × Text)
  | 0, _ => .error (.expected "closing quote")
  | _, [] => .error (.expected "closing quote")
  | _ + 1, '"' :: t => .ok (some [], t)
  | n + 1, '\\' :: 'u' :: t =>
    match codeUnit? t with
    | none => .error .badEscape
    | some (u, t) =>
      match unitChar u t with
      | .error e => .error e
      | .ok (c, t) => prepend c (readString n t)
  | n + 1, '\\' :: c :: t =>
    match escapedLetter? c with
    | some c => prepend (some c) (readString n t)
    | none => .error .badEscape
  | n + 1, c :: t =>
    if c.toNat < 0x20 ∨ c = '\\' then .error .controlCharacter
    else prepend (some c) (readString n t)

/-- The text after the digits at its start, of which there have to be some. -/
def afterDigits (t : Text) : Except JsonError Text :=
  match Text.spanDigits t with
  | ([], _) => .error (.expected "digit")
  | (_, t) => .ok t

/-- The text after an exponent at its start. -/
def afterExponent : Text → Except JsonError Text
  | [] => .ok []
  | c :: t =>
    if c = 'e' ∨ c = 'E' then
      match t with
      | '+' :: t => afterDigits t
      | '-' :: t => afterDigits t
      | t => afterDigits t
    else .ok (c :: t)

/-- The text after the fraction and exponent at its start. -/
def afterFraction : Text → Except JsonError Text
  | '.' :: t => do afterExponent (← afterDigits t)
  | t => afterExponent t

/-- The text after a number. Its whole part starts with a zero only where it
is nothing else. -/
def afterNumber (t : Text) : Except JsonError Text :=
  let t := match t with
    | '-' :: t => t
    | t => t
  match Text.spanDigits t with
  | ([], _) => .error (.expected "value")
  | ('0' :: _ :: _, _) => .error (.expected "value")
  | (_, t) => afterFraction t

/-- A fixed word. -/
def readWord (word : String) (v : JsonForm) (t : Text) : Except JsonError (JsonForm × Text) :=
  match Text.after? word.toList t with
  | some rest => .ok (v, rest)
  | none => .error (.expected word)

mutual

/-- A value. The number bounds the nesting and the items before it. -/
def readValue : Nat → Text → Except JsonError (JsonForm × Text)
  | 0, _ => .error .tooLong
  | n + 1, t =>
    match skipSpace t with
    | '"' :: t =>
      (readString (t.length + 1) t).map fun (s, t) => (.str s, t)
    | '[' :: t =>
      match skipSpace t with
      | ']' :: t => .ok (.arr [], t)
      | t => (readItems n t).map fun (items, t) => (.arr items, t)
    | '\x7b' :: t =>
      match skipSpace t with
      | '\x7d' :: t => .ok (.obj [], t)
      | t => (readFields n t).map fun (fields, t) => (.obj fields, t)
    | 'n' :: t => readWord "null" .null ('n' :: t)
    | 't' :: t => readWord "true" (.bool true) ('t' :: t)
    | 'f' :: t => readWord "false" (.bool false) ('f' :: t)
    | t => (afterNumber t).map fun t => (.number, t)

/-- The items of an array up to its closing bracket. -/
def readItems : Nat → Text → Except JsonError (List JsonForm × Text)
  | 0, _ => .error .tooLong
  | n + 1, t => do
    let (v, t) ← readValue n t
    match skipSpace t with
    | ',' :: t =>
      let (vs, t) ← readItems n t
      .ok (v :: vs, t)
    | ']' :: t => .ok ([v], t)
    | _ => .error (.expected "comma or closing bracket")

/-- The fields of an object up to its closing brace. -/
def readFields : Nat → Text → Except JsonError (List (Option Text × JsonForm) × Text)
  | 0, _ => .error .tooLong
  | n + 1, t => do
    match skipSpace t with
    | '"' :: t =>
      let (key, t) ← readString (t.length + 1) t
      match skipSpace t with
      | ':' :: t =>
        let (v, t) ← readValue n t
        match skipSpace t with
        | ',' :: t =>
          let (fields, t) ← readFields n t
          .ok ((key, v) :: fields, t)
        | '\x7d' :: t => .ok ([(key, v)], t)
        | _ => .error (.expected "comma or closing brace")
      | _ => .error (.expected "colon")
    | _ => .error (.expected "key")

end

/-- The value of a text. -/
def ofText? (t : Text) : Except JsonError JsonForm := do
  let (v, rest) ← readValue (2 * t.length + 2) t
  if (skipSpace rest).isEmpty then .ok v else .error .trailing

end JsonForm

end StraightLine

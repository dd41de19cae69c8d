import StraightLine.Decimal.Layout
import StraightLine.Decimal.Integer

/-!
# JSON — values and their written forms

An object keeps its fields in the order they were given. A value is written
either on one line without blanks or indented by two blanks a level; the
writers put text in front of what follows, so that they are linear.
-/

namespace StraightLine

/-- A JSON value. -/
inductive Json where
  | null
  | bool (b : Bool)
  | int (n : Int)
  | float (x : Double)
  | str (t : Text)
  | arr (items : List Json)
  | obj (fields : List (Text × Json))
  deriving Repr

namespace Json

/-- A string that is fixed by the program. -/
def ofString (s : String) : Json := .str s.toList

/-- A value that may be absent. -/
def ofOption (f : α → Json) : Option α → Json
  | some a => f a
  | none => .null

/-- Numbers have an exponent below `10 ^ -5` and from `10 ^ 16` on, with its
sign. -/
def layout : Layout := ⟨-4, 16, true, .toEven⟩

/-- The lower-case hexadecimal digit of a number below sixteen. -/
def hexDigit (n : Nat) : Char := Nat.digitChar n

/-- A character inside a string. -/
def escape (c : Char) : Text :=
  if c = '"' then ['\\', '"']
  else if c = '\\' then ['\\', '\\']
  else if c = '\n' then ['\\', 'n']
  else if c = '\r' then ['\\', 'r']
  else if c = '\t' then ['\\', 't']
  else if c.toNat = 8 then ['\\', 'b']
  else if c.toNat = 12 then ['\\', 'f']
  else if c.toNat < 32 then
    ['\\', 'u', '0', '0', hexDigit (c.toNat / 16), hexDigit (c.toNat % 16)]
  else [c]

/-- A string in quotes. -/
def quoted (t tail : Text) : Text := '"' :: t.foldr (fun c r => escape c ++ r) ('"' :: tail)

/-- A number; one that is not finite has no text of its own. -/
def number : Double → Text
  | .finite negative rank => layout.finite negative rank
  | _ => "null".toList

mutual

/-- Writes a value without blanks in front of `tail`. -/
def onto : Json → Text → Text
  | null, tail => "null".toList ++ tail
  | bool true, tail => "true".toList ++ tail
  | bool false, tail => "false".toList ++ tail
  | int n, tail => Text.ofInt n ++ tail
  | float x, tail => number x ++ tail
  | str t, tail => quoted t tail
  | arr items, tail => '[' :: itemsOnto items (']' :: tail)
  | obj fields, tail => '\x7b' :: fieldsOnto fields ('\x7d' :: tail)

/-- The items of an array, with commas between them. -/
def itemsOnto : List Json → Text → Text
  | [], tail => tail
  | [v], tail => onto v tail
  | v :: w :: rest, tail => onto v (',' :: itemsOnto (w :: rest) tail)

/-- The fields of an object, with commas between them. -/
def fieldsOnto : List (Text × Json) → Text → Text
  | [], tail => tail
  | [(k, v)], tail => quoted k (':' :: onto v tail)
  | (k, v) :: w :: rest, tail => quoted k (':' :: onto v (',' :: fieldsOnto (w :: rest) tail))

end

/-- A value on one line. -/
def compact (v : Json) : Text := v.onto []

/-- A line feed and the blanks of a level. -/
def newLine (level : Nat) (tail : Text) : Text :=
  '\n' :: (List.replicate (2 * level) ' ' ++ tail)

mutual

/-- Writes a value over several lines in front of `tail`; what is empty stays
on one. -/
def prettyOnto (level : Nat) : Json → Text → Text
  | null, tail => "null".toList ++ tail
  | bool true, tail => "true".toList ++ tail
  | bool false, tail => "false".toList ++ tail
  | int n, tail => Text.ofInt n ++ tail
  | float x, tail => number x ++ tail
  | str t, tail => quoted t tail
  | arr [], tail => '[' :: ']' :: tail
  | arr (v :: rest), tail =>
    '[' :: prettyItems (level + 1) (v :: rest) (newLine level (']' :: tail))
  | obj [], tail => '\x7b' :: '\x7d' :: tail
  | obj (f :: rest), tail =>
    '\x7b' :: prettyFields (level + 1) (f :: rest) (newLine level ('\x7d' :: tail))

/-- The items of an array, each on a line. -/
def prettyItems (level : Nat) : List Json → Text → Text
  | [], tail => tail
  | [v], tail => newLine level (prettyOnto level v tail)
  | v :: w :: rest, tail =>
    newLine level (prettyOnto level v (',' :: prettyItems level (w :: rest) tail))

/-- The fields of an object, each on a line. -/
def prettyFields (level : Nat) : List (Text × Json) → Text → Text
  | [], tail => tail
  | [(k, v)], tail => newLine level (quoted k (':' :: ' ' :: prettyOnto level v tail))
  | (k, v) :: w :: rest, tail =>
    newLine level
      (quoted k (':' :: ' ' :: prettyOnto level v (',' :: prettyFields level (w :: rest) tail)))

end

/-- A value over several lines. -/
def pretty (v : Json) : Text := v.prettyOnto 0 []

end Json

end StraightLine

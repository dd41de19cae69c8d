import StraightLine.Text.Place

/-!
# Cursor — a place in a text being read

A cursor holds the whole text, a byte offset, the line and column that belong
to it, and the text still to be read, which is absent exactly when the offset
stands inside a character. A position can be taken and put back; putting one
back trusts its line and column and clamps its offset to the end.
-/

namespace StraightLine

/-- A byte offset together with its line and column. -/
structure Position where
  offset : Nat
  place : Place
  deriving DecidableEq, Repr

/-- A text and how far it has been read. The text still to be read is what
stands at the offset, so it is none inside a character. -/
structure Cursor where
  source : Text
  position : Position
  remaining? : Option Text
  remaining?_eq : remaining? = source.fromByte? position.offset
  deriving DecidableEq, Repr

namespace Cursor

/-- A cursor at a position. -/
def atPosition (source : Text) (p : Position) : Cursor := ⟨source, p, source.fromByte? p.offset, rfl⟩

/-- A cursor at the start of a text. -/
def ofText (source : Text) : Cursor := atPosition source ⟨0, Place.start⟩

/-- The byte offset of the cursor. -/
def offset (c : Cursor) : Nat := c.position.offset

/-- The line and column of the cursor. -/
def place (c : Cursor) : Place := c.position.place

/-- Whether nothing is left to read. -/
def isEmpty (c : Cursor) : Bool := c.remaining? = some []

/-- The text still to be read, nothing inside a character. -/
def remaining (c : Cursor) : Text := c.remaining?.getD []

/-- The number of characters left. -/
def length? (c : Cursor) : Option Nat := c.remaining?.map List.length

/-- The `i`-th character left, when there are so many. -/
def charAt? (c : Cursor) (i : Nat) : Option (Option Char) := c.remaining?.map fun r => r[i]?

/-- The characters from the `first`-th left up to, and without, the `last`-th. -/
def between? (c : Cursor) (first last : Nat) : Option Text :=
  c.remaining?.map fun r => (r.drop first).take (last - first)

/-- Up to `n` characters of lookahead. -/
def slice? (c : Cursor) (n : Nat) : Option Text := c.between? 0 n

/-- Up to `n` characters of lookahead, none inside a character. -/
def slice (c : Cursor) (n : Nat) : Text := c.remaining.take n

/-- Moves forward over the characters that fit in a number of bytes, counting
lines and columns. -/
def advance? (c : Cursor) (bytes : Nat) : Option Cursor :=
  match h : c.remaining? with
  | none => none
  | some r =>
    let passed := r.fitting bytes
    some ⟨c.source, ⟨c.offset + passed.byteSize, c.place.after passed⟩,
      some (r.drop passed.length),
      (Text.fromByte?_fitting (c.remaining?_eq ▸ h) bytes).symm⟩

/-- `advance?`, staying where it is inside a character. -/
def advance (c : Cursor) (bytes : Nat) : Cursor := (c.advance? bytes).getD c

/-- Takes up a position, no further than the end of the text. -/
def moveTo (c : Cursor) (p : Position) : Cursor :=
  atPosition c.source ⟨min p.offset c.source.byteSize, p.place⟩

/-- Moves over the blanks ahead. -/
def skipBlanks (c : Cursor) : Cursor := c.advance (Text.byteSize (c.remaining.takeWhile isBlank))

end Cursor

end StraightLine

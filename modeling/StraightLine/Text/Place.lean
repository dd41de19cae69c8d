import StraightLine.Text.Basic

/-!
# Places — lines and columns of a text

Lines and columns count from one; a line feed ends a line and every other
character, a carriage return included, takes one column. `Place.after` moves
a place over characters read, and `Text.placeAt` finds the place of a byte
offset from scratch. The two are tied by `placeAt_append`.
-/

namespace StraightLine

/-- A line and a column, both counted from one. -/
structure Place where
  line : Nat
  column : Nat
  deriving DecidableEq, Repr

namespace Place

/-- Where every text starts. -/
def start : Place := ⟨1, 1⟩

/-- The place after one character. -/
def next (p : Place) (c : Char) : Place :=
  if c = '\n' then ⟨p.line + 1, 1⟩ else ⟨p.line, p.column + 1⟩

/-- The place after a run of characters. -/
def after (p : Place) (t : Text) : Place := t.foldl next p

@[simp] theorem after_nil (p : Place) : p.after [] = p := rfl

@[simp] theorem after_cons (p : Place) (c : Char) (t : Text) :
    p.after (c :: t) = (p.next c).after t := rfl

@[simp] theorem after_append (p : Place) (s t : Text) :
    p.after (s ++ t) = (p.after s).after t := List.foldl_append

end Place

namespace Text

/-- Walks to byte `n`, stopping at the first character that starts there or
later. -/
def placeFrom : Text → Nat → Place → Place
  | [], _, p => p
  | c :: t, n, p => if n = 0 then p else placeFrom t (n - c.utf8Size) (p.next c)

/-- The place of byte `n`: an offset inside a character counts as the end of
that character, and one past the end as the end of the text. -/
def placeAt (t : Text) (n : Nat) : Place := placeFrom t n Place.start

theorem placeFrom_append (s t : Text) (p : Place) :
    placeFrom (s ++ t) (byteSize s) p = p.after s := by
  induction s generalizing p with
  | nil => cases t <;> simp [placeFrom, byteSize]
  | cons c s ih =>
    have hc : 0 < c.utf8Size := Char.utf8Size_pos c
    have hsub : c.utf8Size + byteSize s - c.utf8Size = byteSize s := by omega
    simp only [List.cons_append, placeFrom, byteSize, hsub, ih, Place.after_cons]
    rw [if_neg (by omega)]

/-- **The place at a cut is the place after what stands before it.** -/
theorem placeAt_append (s t : Text) : placeAt (s ++ t) (byteSize s) = Place.start.after s :=
  placeFrom_append s t Place.start

end Text

end StraightLine

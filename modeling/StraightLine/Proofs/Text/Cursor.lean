import StraightLine.Proofs.Text.Blank
import StraightLine.Text.Cursor

/-!
# Cursors — the state computed from what has been read

A cursor counts octets and keeps a line and a column as it moves.
`Cursor.between before ahead` is the cursor these numbers should be: it is
computed from the text read and the text ahead. Every move of a lexer is from
one such cursor to another (`advance_fitting`, `skipBlanks_between`), so the
numbers never have to be looked at again.
-/

namespace StraightLine

namespace Text

/-- As many characters fit as the octets were counted from. -/
theorem fitting_append (s t : Text) : fitting (byteSize s) (s ++ t) = s := by
  induction s with
  | nil =>
    cases t with
    | nil => rfl
    | cons c t =>
      have hc := c.utf8Size_pos
      simp only [List.nil_append, byteSize, fitting]
      rw [if_neg (by omega)]
  | cons c s ih =>
    have hsub : c.utf8Size + byteSize s - c.utf8Size = byteSize s := by omega
    simp only [List.cons_append, byteSize, fitting, hsub, ih]
    rw [if_pos (by omega)]

/-- The place where a text ends is the place after it. -/
theorem placeAt_byteSize (t : Text) : t.placeAt t.byteSize = Place.start.after t := by
  simpa using placeAt_append t []

end Text

namespace Cursor

variable {before ahead : Text}

/-- A cursor is its text and its position: the text ahead follows. -/
theorem eq_of_position_eq {c d : Cursor} (hs : c.source = d.source)
    (hp : c.position = d.position) : c = d := by
  obtain ⟨s, p, r, hr⟩ := c
  obtain ⟨s', p', r', hr'⟩ := d
  obtain rfl : s = s' := hs
  obtain rfl : p = p' := hp
  obtain rfl : r = r' := hr.trans hr'.symm
  rfl

/-- **The cursor between a text read and the text ahead.** -/
def between (before ahead : Text) : Cursor :=
  atPosition (before ++ ahead) ⟨before.byteSize, Place.start.after before⟩

theorem remaining?_between (before ahead : Text) :
    (between before ahead).remaining? = some ahead :=
  (between before ahead).remaining?_eq.trans (Text.fromByte?_append before ahead)

@[simp] theorem remaining_between (before ahead : Text) :
    (between before ahead).remaining = ahead := by
  rw [remaining, remaining?_between, Option.getD_some]

@[simp] theorem place_between (before ahead : Text) :
    (between before ahead).place = Place.start.after before := rfl

theorem isEmpty_between (before ahead : Text) :
    (between before ahead).isEmpty = decide (ahead = []) := by
  rw [isEmpty, remaining?_between]
  simp

/-- **Moving over octets** leads behind the characters that fit in them, and
counts their lines and columns. -/
theorem advance_fitting (before ahead : Text) (n : Nat) :
    (between before ahead).advance n =
      between (before ++ ahead.fitting n) (ahead.drop (ahead.fitting n).length) := by
  have hr := remaining?_between before ahead
  have hsome : (between before ahead).advance? n =
      some (between (before ++ ahead.fitting n) (ahead.drop (ahead.fitting n).length)) := by
    unfold advance?
    split
    · rename_i hnone
      rw [hr] at hnone
      cases hnone
    · rename_i r hsome
      obtain rfl : ahead = r := Option.some.inj (hr.symm.trans hsome)
      refine congrArg some (eq_of_position_eq ?_ ?_)
      · change before ++ ahead = before ++ ahead.fitting n ++ ahead.drop (ahead.fitting n).length
        rw [List.append_assoc, Text.fitting_append_drop]
      · change (⟨_, _⟩ : Position) = ⟨_, _⟩
        rw [place_between, Text.byteSize_append, Place.after_append]
        rfl
  rw [advance, hsome, Option.getD_some]

/-- **Moving over a text ahead** leads behind it, whatever its octets and
lines. -/
theorem advance_between (before v rest : Text) :
    (between before (v ++ rest)).advance v.byteSize = between (before ++ v) rest := by
  rw [advance_fitting, Text.fitting_append, List.drop_left]

/-- **Skipping blanks** leads in front of the first other character. -/
theorem skipBlanks_between (before ahead : Text) :
    (between before ahead).skipBlanks =
      between (before ++ ahead.takeWhile isBlank) ahead.trimStart := by
  have h := advance_between before (ahead.takeWhile isBlank) ahead.trimStart
  rw [Text.takeWhile_append_trimStart] at h
  rw [skipBlanks, remaining_between, h]

end Cursor

end StraightLine

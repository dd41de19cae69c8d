import StraightLine.Proofs.Text.Cursor

/-!
# Boundaries — positions between two characters

A position is in order when it stands between two characters of a text and
its line and column are those of that place. A cursor at such a position is
`Cursor.between` what has been read and what is ahead (`exists_between`), and
stays so when it moves (`advance_inOrder`) or is put back (`moveTo_position`).

Reading the text ahead of a cursor cuts it at the cursor's offset, which
cannot be done inside a character. The moves written in `Option` are none
there; a cursor in order never is, so for it they are the moves themselves.
-/

namespace StraightLine

namespace Text

variable {s : Text} {n o o' : Nat}

/-- **An offset between two characters**, the two ends of the text included. -/
def IsBoundary (s : Text) (n : Nat) : Prop :=
  ∃ before ahead, s = before ++ ahead ∧ n = before.byteSize

/-- **The offset that ends the blanks from an offset on**: only blanks stand
between the two, and no blank stands at it. -/
def PastBlanks (s : Text) (n o : Nat) : Prop :=
  ∃ before blanks ahead, s = before ++ (blanks ++ ahead) ∧ n = before.byteSize ∧
    o = (before ++ blanks).byteSize ∧ blanks.Blank ∧ StartsOutside isBlank ahead

/-- These are the offsets at which a text can be cut. -/
theorem isBoundary_iff : s.IsBoundary n ↔ (s.fromByte? n).isSome := by
  constructor
  · rintro ⟨before, ahead, rfl, rfl⟩
    rw [fromByte?_append]
    rfl
  · intro h
    obtain ⟨ahead, hahead⟩ := Option.isSome_iff_exists.mp h
    obtain ⟨before, hs, hn⟩ := eq_append_of_fromByte? hahead
    exact ⟨before, ahead, hs, hn⟩

/-- The blanks behind a text end in front of the first other character. -/
theorem pastBlanks_append (before ahead : Text) :
    (before ++ ahead).PastBlanks before.byteSize
      (before ++ ahead.takeWhile isBlank).byteSize :=
  ⟨before, ahead.takeWhile isBlank, ahead.trimStart, by rw [takeWhile_append_trimStart], rfl, rfl,
    blank_takeWhile ahead, startsOutside_dropWhile ahead⟩

/-- The place where they end is the place after them. -/
theorem placeAt_pastBlanks (before ahead : Text) :
    (before ++ ahead).placeAt (before ++ ahead.takeWhile isBlank).byteSize =
      Place.start.after (before ++ ahead.takeWhile isBlank) := by
  have h := placeAt_append (before ++ ahead.takeWhile isBlank) ahead.trimStart
  rwa [List.append_assoc, takeWhile_append_trimStart] at h

/-- And the text from there on is that without its leading blanks. -/
theorem fromByte?_pastBlanks (before ahead : Text) :
    (before ++ ahead).fromByte? (before ++ ahead.takeWhile isBlank).byteSize =
      some ahead.trimStart := by
  have h := fromByte?_append (before ++ ahead.takeWhile isBlank) ahead.trimStart
  rwa [List.append_assoc, takeWhile_append_trimStart] at h

/-- The blanks end at one offset alone. -/
theorem PastBlanks.eq (h : s.PastBlanks n o) (h' : s.PastBlanks n o') : o = o' := by
  obtain ⟨before, blanks, ahead, rfl, rfl, rfl, hb, ha⟩ := h
  obtain ⟨before', blanks', ahead', hs, hn, rfl, hb', ha'⟩ := h'
  have hahead : blanks ++ ahead = blanks' ++ ahead' := by
    have hcut := fromByte?_append before (blanks ++ ahead)
    rw [hs, hn, fromByte?_append] at hcut
    exact (Option.some.inj hcut).symm
  have hblanks := takeWhile_append hb ha
  rw [hahead, takeWhile_append hb' ha'] at hblanks
  rw [byteSize_append, byteSize_append, hn, hblanks]

end Text

/-- **A position in order**: it stands between two characters, and its line
and column are those of its offset. -/
structure Position.InOrder (s : Text) (p : Position) : Prop where
  boundary : s.IsBoundary p.offset
  place : p.place = s.placeAt p.offset

namespace Cursor

variable {s before ahead : Text} {c : Cursor} {p : Position}

theorem between_inOrder (before ahead : Text) :
    (between before ahead).position.InOrder (before ++ ahead) :=
  ⟨⟨before, ahead, rfl, rfl⟩, (Text.placeAt_append before ahead).symm⟩

/-- **A cursor in order** is that between what has been read and what is
ahead. -/
theorem exists_between (hs : c.source = s) (hc : c.position.InOrder s) :
    ∃ before ahead, s = before ++ ahead ∧ c = between before ahead := by
  obtain ⟨⟨before, ahead, rfl, hoffset⟩, hplace⟩ := hc
  refine ⟨before, ahead, rfl, eq_of_position_eq hs ?_⟩
  rw [hoffset, Text.placeAt_append] at hplace
  obtain ⟨source, ⟨offset, place⟩, rest⟩ := c
  obtain rfl : offset = before.byteSize := hoffset
  obtain rfl : place = Place.start.after before := hplace
  rfl

/-- It stays in order when it moves forward. -/
theorem advance_inOrder (hs : c.source = s) (hc : c.position.InOrder s) (n : Nat) :
    (c.advance n).source = s ∧ (c.advance n).position.InOrder s := by
  obtain ⟨before, ahead, rfl, rfl⟩ := exists_between hs hc
  have horder := between_inOrder (before ++ ahead.fitting n) (ahead.drop (ahead.fitting n).length)
  rw [List.append_assoc, Text.fitting_append_drop] at horder
  rw [advance_fitting]
  refine ⟨?_, horder⟩
  change before ++ ahead.fitting n ++ ahead.drop (ahead.fitting n).length = before ++ ahead
  rw [List.append_assoc, Text.fitting_append_drop]

theorem skipBlanks_inOrder (hs : c.source = s) (hc : c.position.InOrder s) :
    c.skipBlanks.source = s ∧ c.skipBlanks.position.InOrder s := advance_inOrder hs hc _

/-- **A position in order is taken up as it is.** -/
theorem moveTo_position (hs : c.source = s) (hp : p.InOrder s) : (c.moveTo p).position = p := by
  obtain ⟨⟨before, ahead, rfl, hoffset⟩, -⟩ := hp
  have hle : p.offset ≤ c.source.byteSize := by
    rw [hs, hoffset, Text.byteSize_append]
    exact Nat.le_add_right _ _
  rw [moveTo, Nat.min_eq_left hle]
  rfl

/-! ## Cuts inside a character -/

/-- `skipBlanks`, where the text can be cut. -/
def skipBlanks? (c : Cursor) : Option Cursor := do
  let ahead ← c.remaining?
  c.advance? (Text.byteSize (ahead.takeWhile isBlank))

/-- The text can be cut at a cursor in order. -/
theorem remaining?_eq_some (hs : c.source = s) (hc : c.position.InOrder s) :
    c.remaining? = some c.remaining := by
  obtain ⟨before, ahead, rfl, rfl⟩ := exists_between hs hc
  rw [remaining?_between, remaining_between]

theorem advance?_eq_some (h : c.remaining? = some c.remaining) (n : Nat) :
    c.advance? n = some (c.advance n) := by
  have hsome : (c.advance? n).isSome := by
    unfold advance?
    split
    · rename_i hnone
      rw [hnone] at h
      cases h
    · rfl
  obtain ⟨d, hd⟩ := Option.isSome_iff_exists.mp hsome
  rw [advance, hd, Option.getD_some]

theorem skipBlanks?_eq_some (h : c.remaining? = some c.remaining) :
    c.skipBlanks? = some c.skipBlanks := by
  rw [skipBlanks?, h]
  exact advance?_eq_some h _

theorem slice?_eq_some (h : c.remaining? = some c.remaining) (n : Nat) :
    c.slice? n = some (c.slice n) := by
  rw [slice?, between?, h]
  rfl

end Cursor

end StraightLine

import Mathlib.Data.List.Induction
import StraightLine.Proofs.Grammar.Placement

/-!
# Refusal — the one place at which a text is refused

A text that is refused can be cut behind a program of its own, in front of
something that is no statement (`FailsAt`). This file says that there is only
one such cut: a program that went on behind another cut would have read the
statement that fails there (`FailsAt.unique`). So the error can be read off any
cut, and off the text in front of it alone, whose line feeds and last line are
the line and the column (`Place.after_eq`). **`refused_iff`** puts it together.
-/

namespace StraightLine

/-! ## Places by counting -/

namespace Text

/-- The characters behind the last line feed. -/
def lastLine (t : Text) : Text := (t.reverse.takeWhile (· ≠ '\n')).reverse

variable {s t : Text} {c : Char}

theorem lastLine_append_line (t : Text) : lastLine (t ++ ['\n']) = [] := by
  simp [lastLine]

theorem lastLine_append (hc : c ≠ '\n') (t : Text) : lastLine (t ++ [c]) = lastLine t ++ [c] := by
  simp [lastLine, hc]

end Text

namespace Place

/-- **A place is the number of line feeds in front of it and the length of the
line in front of it.** -/
theorem after_eq (t : Text) :
    start.after t = ⟨1 + t.count '\n', 1 + t.lastLine.length⟩ := by
  induction t using List.reverseRecOn with
  | nil => rfl
  | append_singleton t c ih =>
    rw [after_append, ih, after_cons, after_nil, next, List.count_append]
    by_cases hc : c = '\n'
    · rw [if_pos hc, hc, Text.lastLine_append_line, List.count_singleton_self]
      rfl
    · have hcount : List.count '\n' [c] = 0 := List.count_eq_zero.mpr (by simpa using Ne.symm hc)
      rw [if_neg hc, Text.lastLine_append hc, hcount, List.length_append, List.length_singleton,
        Nat.add_assoc]
      rfl

end Place

namespace Grammar

variable {s front front' rest rest' w : Text} {cause cause' e : ParseError}

/-! ## One cut alone -/

/-- Behind an accepted text, what is refused as a statement is refused as a
program. -/
theorem FailsAt.not_accepted (h : FailsAt s front rest cause) (p : Program) :
    parseProgram s ≠ .ok p := by
  rw [h.parseProgram_eq]
  rintro ⟨⟩

/-- What follows a statement makes no difference to it. -/
theorem stmt_append_of_ok {st : Stmt} (h : stmt s = .ok (st, rest)) (t : Text) :
    ∃ rest', stmt (s ++ t) = .ok (st, rest') := by
  obtain ⟨u, rfl, hd⟩ := reads_stmt.sound h
  rw [List.append_assoc]
  exact ⟨_, reads_stmt.complete hd trivial⟩

/-- **No program goes on over a statement that fails.** -/
theorem FailsAt.eq_nil_of_append (h : FailsAt s front (w ++ rest) cause) {p : Program}
    (hp : parseProgram (front ++ w) = .ok p) : w = [] := by
  obtain ⟨-, haccepted, ⟨c, u, hcu, hc⟩, hfail⟩ := h
  rcases w with - | ⟨d, w⟩
  · rfl
  · obtain rfl : d = c := (List.cons.inj hcu).1
    rcases hstmt : stmt (d :: w) with cause' | ⟨st, r⟩
    · have hcut : FailsAt (front ++ d :: w) front (d :: w) cause' :=
        ⟨rfl, haccepted, ⟨d, w, rfl, hc⟩, hstmt⟩
      exact absurd hp (hcut.not_accepted p)
    · obtain ⟨r', hr'⟩ := stmt_append_of_ok hstmt rest
      cases hfail.symm.trans hr'

/-- **A text is refused at one place.** -/
theorem FailsAt.unique (h : FailsAt s front rest cause) (h' : FailsAt s front' rest' cause') :
    front = front' ∧ rest = rest' ∧ cause = cause' := by
  -- the longer of two fronts is a program that goes on behind the shorter one
  have hcut : front = front' ∧ rest = rest' := by
    rcases List.append_eq_append_iff.mp (h.text.symm.trans h'.text) with
      ⟨w, rfl, rfl⟩ | ⟨w, rfl, rfl⟩
    · obtain ⟨p, hp⟩ := h'.accepted
      obtain rfl := h.eq_nil_of_append hp
      exact ⟨(List.append_nil front).symm, rfl⟩
    · obtain ⟨p, hp⟩ := h.accepted
      obtain rfl := h'.eq_nil_of_append hp
      exact ⟨List.append_nil front', rfl⟩
  obtain ⟨rfl, rfl⟩ := hcut
  exact ⟨rfl, rfl, Except.error.inj (h.failure.symm.trans h'.failure)⟩

/-- In front of the place stands nothing but blanks, or a semicolon and
blanks. -/
theorem FailsAt.front_cases (h : FailsAt s front rest cause) :
    front.Blank ∨ ∃ w b : Text, front = w ++ ';' :: b ∧ b.Blank := by
  obtain ⟨p, hp⟩ := h.accepted
  exact (parseProgram_eq_ok_iff.mp hp).1.blank_or_exists_semicolon

/-! ## The error -/

/-- **How a text is cut that is refused**: behind a program of its own, which
is blank or ends in a semicolon and blanks, in front of a text that starts with
no blank and is refused as a statement. -/
structure RefusedAt (s front rest : Text) (cause : ParseError) : Prop where
  text : s = front ++ rest
  accepted : ∃ p, parseProgram front = .ok p
  front_cases : front.Blank ∨ ∃ w b : Text, front = w ++ ';' :: b ∧ b.Blank
  start : ∃ c u, rest = c :: u ∧ isBlank c = false
  failure : stmt rest = .error cause

theorem refusedAt_iff_failsAt : RefusedAt s front rest cause ↔ FailsAt s front rest cause :=
  ⟨fun h => ⟨h.text, h.accepted, h.start, h.failure⟩,
    fun h => ⟨h.text, h.accepted, h.front_cases, h.start, h.failure⟩⟩

/-- The place is counted off the text in front of it. -/
theorem FailsAt.parseProgram_eq_counted (h : FailsAt s front rest cause) :
    parseProgram s =
      .error (.invalidStatement ⟨1 + front.count '\n', 1 + front.lastLine.length⟩
        (rest.take 10) cause) := by
  have hplace : s.placeAt front.byteSize =
      ⟨1 + front.count '\n', 1 + front.lastLine.length⟩ := by
    rw [h.text, Text.placeAt_append, Place.after_eq]
  rw [h.parseProgram_eq, hplace]
  rfl

/-- **A program is refused exactly at the first statement that fails.** There is
an error just when the text can be cut in front of a statement that fails, and
then in one way alone; the error is that of the statement, with the line and
the column that the text in front of the cut ends at, and with the first ten
characters behind it. -/
theorem refused_iff (s : Text) :
    (∀ e, parseProgram s = .error e ↔ ∃ front rest cause, RefusedAt s front rest cause ∧
      e = .invalidStatement ⟨1 + front.count '\n', 1 + front.lastLine.length⟩ (rest.take 10)
        cause) ∧
    ∀ front rest cause front' rest' cause', RefusedAt s front rest cause →
      RefusedAt s front' rest' cause' → front = front' ∧ rest = rest' ∧ cause = cause' := by
  simp only [refusedAt_iff_failsAt]
  refine ⟨fun e => ⟨fun he => ?_, ?_⟩, fun _ _ _ _ _ _ h h' => h.unique h'⟩
  · obtain ⟨front, rest, cause, h⟩ := exists_failsAt he
    exact ⟨front, rest, cause, h, Except.error.inj (he.symm.trans h.parseProgram_eq_counted)⟩
  · rintro ⟨front, rest, cause, h, rfl⟩
    exact h.parseProgram_eq_counted

/-- A statement refused on the second line, behind a carriage return and a
blank of two octets, which take a column each. -/
theorem refused_iff_second_line :
    let s := "a=1;\n\r\u00a0\u00e9".toList
    let e := ParseError.invalidStatement ⟨2, 3⟩ ['\u00e9'] (.rejected "Invalid identifier".toList)
    parseProgram s = .error e ∧ ∃ front rest cause, RefusedAt s front rest cause ∧
      e = .invalidStatement ⟨1 + front.count '\n', 1 + front.lastLine.length⟩ (rest.take 10)
        cause := by
  intro s e
  have he : parseProgram s = .error e := by decide +kernel
  exact ⟨he, ((refused_iff s).1 e).mp he⟩

end Grammar

end StraightLine

import Mathlib.Data.Nat.Find
import Mathlib.Order.Bounds.Basic
import StraightLine.Proofs.Text.Boundary

/-!
# Advances — where a cursor lands

A cursor takes the characters that fit in a number of octets. It could as well
clamp its new offset to the end of the text and go down from there until it
stands between two characters: both lead to the greatest such offset
(`isGreatest_fitting`, `isGreatest_findGreatest`), so they lead to the same. Nor
does it matter whether the octets are counted at once or in two parts, as long
as the first part ends between two characters (`fitting_add`).

**`advance_exact`** says where a cursor lands, whatever its line and column are;
if these are right in front of the move, they are right behind it.
-/

namespace StraightLine

namespace Text

variable {s : Text} {n : Nat}

/-! ## Offsets between two characters -/

instance (s : Text) : DecidablePred s.IsBoundary := fun _ =>
  decidable_of_iff _ isBoundary_iff.symm

theorem isBoundary_zero (s : Text) : s.IsBoundary 0 := ⟨[], s, rfl, rfl⟩

/-- No offset between two characters lies behind the end. -/
theorem IsBoundary.le_byteSize (h : s.IsBoundary n) : n ≤ s.byteSize := by
  obtain ⟨before, ahead, rfl, rfl⟩ := h
  rw [byteSize_append]
  exact Nat.le_add_right _ _

/-- **Looking downwards** ends at the greatest of them, since there is one at the
start of the text. -/
theorem isGreatest_findGreatest (s : Text) (n : Nat) :
    IsGreatest {m | s.IsBoundary m ∧ m ≤ n} (Nat.findGreatest s.IsBoundary n) :=
  ⟨⟨Nat.findGreatest_spec (Nat.zero_le n) (isBoundary_zero s), Nat.findGreatest_le n⟩,
    fun _ hm => Nat.le_findGreatest hm.2 hm.1⟩

/-! ## Characters that fit -/

theorem byteSize_fitting_le (n : Nat) (t : Text) : (fitting n t).byteSize ≤ n := by
  induction t generalizing n with
  | nil => exact Nat.zero_le n
  | cons c t ih =>
    rw [fitting]
    split
    · rename_i hc
      have hrest := ih (n - c.utf8Size)
      rw [byteSize]
      omega
    · exact Nat.zero_le n

/-- Behind a text that fits, what is left of the octets is for what follows. -/
theorem fitting_add (s t : Text) (n : Nat) :
    fitting (byteSize s + n) (s ++ t) = s ++ fitting n t := by
  induction s with
  | nil => rw [byteSize, Nat.zero_add, List.nil_append, List.nil_append]
  | cons c s ih =>
    have hfits : c.utf8Size ≤ byteSize (c :: s) + n := by
      rw [byteSize]
      omega
    have hleft : byteSize (c :: s) + n - c.utf8Size = byteSize s + n := by
      rw [byteSize]
      omega
    rw [List.cons_append, fitting, if_pos hfits, hleft, ih, List.cons_append]

/-- A text fits that has no more octets. -/
theorem fitting_eq_self {t : Text} (h : t.byteSize ≤ n) : fitting n t = t := by
  obtain ⟨k, rfl⟩ := Nat.exists_eq_add_of_le h
  have hall := fitting_add t [] k
  rwa [List.append_nil, fitting, List.append_nil] at hall

/-- **Taking what fits** leads as far as one can stand between two characters. -/
theorem isGreatest_fitting (before ahead : Text) (n : Nat) :
    IsGreatest {m | (before ++ ahead).IsBoundary m ∧ m ≤ before.byteSize + n}
      (before ++ ahead.fitting n).byteSize := by
  refine ⟨⟨⟨before ++ ahead.fitting n, ahead.drop (ahead.fitting n).length, ?_, rfl⟩, ?_⟩, ?_⟩
  · rw [List.append_assoc, fitting_append_drop]
  · rw [byteSize_append]
    exact Nat.add_le_add_left (byteSize_fitting_le n ahead) _
  · rintro _ ⟨⟨front, back, hcut, rfl⟩, hle⟩
    rw [byteSize_append]
    obtain ⟨more, rfl, rfl⟩ | ⟨more, rfl, -⟩ := List.append_eq_append_iff.mp hcut
    · -- what the offset lies further on fits
      rw [byteSize_append] at hle ⊢
      obtain ⟨k, rfl⟩ := Nat.exists_eq_add_of_le (Nat.le_of_add_le_add_left hle)
      rw [fitting_add, byteSize_append]
      omega
    · rw [byteSize_append]
      omega

/-- **What fits in two parts**, the first of which ends between two characters or
behind all of them, fits at once. -/
theorem fitting_fitting {before ahead : Text} {a : Nat} (b : Nat)
    (ha : (before ++ ahead).IsBoundary (before.byteSize + a) ∨
      (before ++ ahead).byteSize ≤ before.byteSize + a) :
    fitting (a + b) ahead =
      fitting a ahead ++ fitting b (ahead.drop (fitting a ahead).length) := by
  rcases ha with ⟨front, back, hcut, hsize⟩ | hpast
  · obtain ⟨more, rest, rfl, rfl⟩ : ∃ more rest, ahead = more ++ rest ∧ a = more.byteSize := by
      obtain ⟨more, rfl, rfl⟩ | ⟨more, rfl, -⟩ := List.append_eq_append_iff.mp hcut
      · rw [byteSize_append] at hsize
        exact ⟨more, back, rfl, Nat.add_left_cancel hsize⟩
      · rw [byteSize_append] at hsize
        exact ⟨[], ahead, rfl, by rw [byteSize]; omega⟩
    rw [fitting_add, fitting_append, List.drop_left]
  · have hall : ahead.byteSize ≤ a := by
      rw [byteSize_append] at hpast
      omega
    rw [fitting_eq_self hall, fitting_eq_self (Nat.le_add_right_of_le hall), List.drop_length,
      fitting, List.append_nil]

end Text

namespace Cursor

variable {c : Cursor} {ahead : Text}

/-- A cursor between two characters has a text in front of it and one ahead. -/
theorem exists_ahead (hc : c.source.IsBoundary c.offset) :
    ∃ before ahead, c.source = before ++ ahead ∧ c.offset = before.byteSize ∧
      c.remaining? = some ahead := by
  obtain ⟨before, ahead, hsource, hoffset⟩ := hc
  refine ⟨before, ahead, hsource, hoffset, ?_⟩
  rw [c.remaining?_eq, hsource, ← offset, hoffset, Text.fromByte?_append]

/-- **A move** takes the characters that fit, and counts them. -/
theorem advance_of_ahead (h : c.remaining? = some ahead) (n : Nat) :
    c.advance? n = some (c.advance n) ∧ (c.advance n).source = c.source ∧
      (c.advance n).position =
        ⟨c.offset + (ahead.fitting n).byteSize, c.place.after (ahead.fitting n)⟩ ∧
      (c.advance n).remaining? = some (ahead.drop (ahead.fitting n).length) := by
  have hmove : ∃ d, c.advance? n = some d ∧ d.source = c.source ∧
      d.position = ⟨c.offset + (ahead.fitting n).byteSize, c.place.after (ahead.fitting n)⟩ ∧
      d.remaining? = some (ahead.drop (ahead.fitting n).length) := by
    unfold advance?
    split
    · rename_i hnone
      cases hnone.symm.trans h
    · rename_i r hsome
      obtain rfl := Option.some.inj (hsome.symm.trans h)
      exact ⟨_, rfl, rfl, rfl, rfl⟩
  obtain ⟨d, hd, hfields⟩ := hmove
  obtain rfl : c.advance n = d := by rw [advance, hd, Option.getD_some]
  exact ⟨hd, hfields⟩

/-- **Two moves are one** when the first has left what fits in the second. -/
theorem advance_advance {a b : Nat} (h : c.remaining? = some ahead)
    (hfit : ahead.fitting (a + b) =
      ahead.fitting a ++ Text.fitting b (ahead.drop (ahead.fitting a).length)) :
    (c.advance a).advance b = c.advance (a + b) := by
  obtain ⟨-, hsource, hposition, hahead⟩ := advance_of_ahead h a
  obtain ⟨-, hsource', hposition', -⟩ := advance_of_ahead hahead b
  obtain ⟨-, hsum, hwhole, -⟩ := advance_of_ahead h (a + b)
  have hoffset : (c.advance a).offset = c.offset + (ahead.fitting a).byteSize :=
    congrArg Position.offset hposition
  have hplace : (c.advance a).place = c.place.after (ahead.fitting a) :=
    congrArg Position.place hposition
  refine eq_of_position_eq (hsource'.trans (hsource.trans hsum.symm)) ?_
  rw [hposition', hwhole, hoffset, hplace, hfit, Text.byteSize_append, Place.after_append,
    Nat.add_assoc]

/-- **A cursor lands exactly.** From between two characters it moves, by any
number of octets, to the greatest offset between two characters that is neither
behind them nor behind the end of the text, which is what looking downwards from
there finds. It never moves backwards. If its line and column were those of its
offset, they still are. And two moves are as good as one, unless the first one
ends inside a character. -/
theorem advance_exact (hc : c.source.IsBoundary c.offset) (b : Nat) :
    c.advance? b = some (c.advance b) ∧ (c.advance b).source = c.source ∧
      IsGreatest {n | c.source.IsBoundary n ∧ n ≤ min (c.offset + b) c.source.byteSize}
        (c.advance b).offset ∧
      (c.advance b).offset =
        Nat.findGreatest c.source.IsBoundary (min (c.offset + b) c.source.byteSize) ∧
      c.offset ≤ (c.advance b).offset ∧
      (c.place = c.source.placeAt c.offset →
        (c.advance b).place = c.source.placeAt (c.advance b).offset) ∧
      ∀ a, c.source.IsBoundary (c.offset + a) ∨ c.source.byteSize ≤ c.offset + a →
        (c.advance? a).bind (fun d => d.advance? b) = c.advance? (a + b) := by
  obtain ⟨before, ahead, hsource, hoffset, hahead⟩ := exists_ahead hc
  obtain ⟨hsome, hkept, hposition, -⟩ := advance_of_ahead hahead b
  have hlands : (c.advance b).offset = (before ++ ahead.fitting b).byteSize := by
    rw [Text.byteSize_append, ← hoffset]
    exact congrArg Position.offset hposition
  have hgreatest : IsGreatest
      {n | c.source.IsBoundary n ∧ n ≤ min (c.offset + b) c.source.byteSize}
      (c.advance b).offset := by
    have hset : {n | c.source.IsBoundary n ∧ n ≤ min (c.offset + b) c.source.byteSize} =
        {n | (before ++ ahead).IsBoundary n ∧ n ≤ before.byteSize + b} := by
      ext n
      rw [Set.mem_ofPred_eq, Set.mem_ofPred_eq, ← hsource, ← hoffset, Nat.le_min]
      exact and_congr_right fun hn => and_iff_left hn.le_byteSize
    rw [hset, hlands]
    exact Text.isGreatest_fitting before ahead b
  have hsearch := hgreatest.unique (Text.isGreatest_findGreatest c.source _)
  refine ⟨hsome, hkept, hgreatest, hsearch, ?_, fun hplace => ?_, fun a ha => ?_⟩
  · exact hgreatest.2 ⟨hc, Nat.le_min.mpr ⟨Nat.le_add_right _ b, hc.le_byteSize⟩⟩
  · rw [hsource, hoffset, Text.placeAt_append] at hplace
    have hcut := Text.placeAt_append (before ++ ahead.fitting b)
      (ahead.drop (ahead.fitting b).length)
    rw [List.append_assoc, Text.fitting_append_drop, Place.after_append, ← hplace] at hcut
    rw [hsource, hlands, hcut]
    exact congrArg Position.place hposition
  · obtain ⟨hfirst, -, -, hleft⟩ := advance_of_ahead hahead a
    rw [hfirst, Option.bind_some, (advance_of_ahead hleft b).1, (advance_of_ahead hahead _).1]
    rw [hsource, hoffset] at ha
    exact congrArg some (advance_advance hahead (Text.fitting_fitting b ha))

/-- A move that ends inside a character of four octets, behind a line feed: at once,
and in two parts. -/
theorem advance_exact_inside :
    let c := Cursor.atPosition "a€\n😀z".toList ⟨1, ⟨1, 2⟩⟩
    c.source.IsBoundary c.offset ∧ c.place = c.source.placeAt c.offset ∧
      (c.advance 6).offset = 5 ∧ (c.advance 6).place = ⟨2, 1⟩ ∧
      (c.advance? 3).bind (fun d => d.advance? 3) = some (c.advance 6) := by
  intro c
  have hc : c.source.IsBoundary c.offset := by decide
  have hplace : c.place = c.source.placeAt c.offset := by decide
  obtain ⟨hsome, -, -, hoffset, -, hplaces, -⟩ := advance_exact hc 6
  obtain ⟨-, -, -, -, -, -, htwice⟩ := advance_exact hc 3
  have hfive : (c.advance 6).offset = 5 := hoffset.trans (by decide)
  refine ⟨hc, hplace, hfive, ?_, ?_⟩
  · rw [hplaces hplace, hfive]
    decide
  · rw [htwice 3 (.inl (by decide)), hsome]

end Cursor

end StraightLine

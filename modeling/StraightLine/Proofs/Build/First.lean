import StraightLine.Build.Run
import StraightLine.Proofs.Outcome.Sequence

/-!
# First — the first repetition in a list

Looking for a text that occurs again ends at the first that does
(`repeated?_eq_some_iff`), and all differ when there is none.
-/

namespace StraightLine

namespace Build

variable {seen ts : List Text} {t u : Text}

theorem repeated?_cons_of_mem (h : u ∈ seen) : repeated? seen (u :: ts) = some u := by
  rw [repeated?, if_pos (List.contains_iff_mem.mpr h)]

theorem repeated?_cons_of_not_mem (h : u ∉ seen) :
    repeated? seen (u :: ts) = repeated? (u :: seen) ts := by
  rw [repeated?, if_neg (mt List.contains_iff_mem.mp h)]

/-- **The first text that occurs again** stands behind texts none of which
does. -/
theorem repeated?_eq_some_iff : repeated? seen ts = some t ↔
    ∃ front back, ts = front ++ t :: back ∧ repeated? seen front = none ∧
      (t ∈ front ∨ t ∈ seen) := by
  induction ts generalizing seen with
  | nil => simp [repeated?]
  | cons u ts ih =>
    by_cases hu : u ∈ seen
    · rw [repeated?_cons_of_mem hu]
      constructor
      · rintro ⟨⟩
        exact ⟨[], ts, rfl, rfl, .inr hu⟩
      · rintro ⟨front, back, heq, hnone, -⟩
        cases front with
        | nil => rw [(List.cons.inj heq).1]
        | cons x front =>
          obtain ⟨rfl, -⟩ := List.cons.inj heq
          cases (repeated?_cons_of_mem hu).symm.trans hnone
    · -- what has been seen grows by the text that goes to the front
      have hmem : ∀ front, (t ∈ u :: front ∨ t ∈ seen) ↔ (t ∈ front ∨ t ∈ u :: seen) := by
        intro front
        rw [List.mem_cons, List.mem_cons, or_assoc, or_left_comm]
      rw [repeated?_cons_of_not_mem hu, ih]
      constructor
      · rintro ⟨front, back, rfl, hnone, ht⟩
        exact ⟨u :: front, back, rfl, (repeated?_cons_of_not_mem hu).trans hnone,
          (hmem front).mpr ht⟩
      · rintro ⟨front, back, heq, hnone, ht⟩
        cases front with
        | nil =>
          obtain ⟨rfl, -⟩ := List.cons.inj heq
          exact absurd (ht.resolve_left List.not_mem_nil) hu
        | cons x front =>
          obtain ⟨rfl, rfl⟩ := List.cons.inj heq
          exact ⟨front, back, rfl, (repeated?_cons_of_not_mem hu).symm.trans hnone,
            (hmem front).mp ht⟩

theorem repeated?_eq_none : repeated? seen ts = none ↔ ts.Nodup ∧ ∀ x ∈ ts, x ∉ seen := by
  induction ts generalizing seen with
  | nil => simp [repeated?]
  | cons u ts ih =>
    rw [List.nodup_cons, List.forall_mem_cons]
    by_cases hu : u ∈ seen
    · rw [repeated?_cons_of_mem hu]
      exact ⟨(nomatch ·), fun h => absurd hu h.2.1⟩
    · rw [repeated?_cons_of_not_mem hu, ih]
      constructor
      · rintro ⟨hnodup, hseen⟩
        exact ⟨⟨fun hmem => hseen u hmem List.mem_cons_self, hnodup⟩, hu,
          fun x hx hmem => hseen x hx (List.mem_cons_of_mem u hmem)⟩
      · rintro ⟨⟨hnot, hnodup⟩, -, hseen⟩
        refine ⟨hnodup, fun x hx hmem => ?_⟩
        rcases List.mem_cons.mp hmem with rfl | hmem
        · exact hnot hx
        · exact hseen x hx hmem

/-- **No text occurs again just when all differ.** -/
theorem repeated?_eq_none_iff : repeated? [] ts = none ↔ ts.Nodup := by
  rw [repeated?_eq_none]
  exact and_iff_left fun _ _ => List.not_mem_nil

end Build

end StraightLine

import StraightLine.Text.Basic

/-!
# Lines — texts between marks

What is cut at a mark comes back when none of the parts contains it
(`cutAt_append`), so a text written line by line has those lines.
-/

namespace StraightLine

namespace Text

variable {α : Type} [DecidableEq α] {mark c : α} {s t : List α}

theorem cutAt_of_not_mem (h : mark ∉ s) : cutAt mark s = [s] := by
  induction s with
  | nil => rfl
  | cons c s ih =>
    obtain ⟨hc, hs⟩ := not_or.mp (mt List.mem_cons.mpr h)
    rw [cutAt, if_neg (Ne.symm hc), ih hs]

theorem cutAt_ne_nil (s : List α) : cutAt mark s ≠ [] := by
  cases s with
  | nil => exact List.cons_ne_nil _ _
  | cons c s =>
    rw [cutAt]
    split
    · exact List.cons_ne_nil _ _
    · split
      · exact List.cons_ne_nil _ _
      · exact List.cons_ne_nil _ _

/-- What is no mark joins the first part. -/
theorem cutAt_cons_of_ne (hc : c ≠ mark) {x : List α} {xs : List (List α)}
    (hs : cutAt mark s = x :: xs) : cutAt mark (c :: s) = (c :: x) :: xs := by
  simp only [cutAt, if_neg hc, hs]

/-- **A mark cuts a text** into the parts in front of it and those behind
it. -/
theorem cutAt_append_mark (s t : List α) :
    cutAt mark (s ++ mark :: t) = cutAt mark s ++ cutAt mark t := by
  induction s with
  | nil => simp only [List.nil_append, cutAt, if_true, List.singleton_append]
  | cons c s ih =>
    by_cases hc : c = mark
    · rw [List.cons_append, cutAt, if_pos hc, ih, cutAt, if_pos hc]
      rfl
    · rw [List.cons_append, cutAt, if_neg hc, ih, cutAt, if_neg hc]
      obtain ⟨x, xs, hs⟩ := List.exists_cons_of_ne_nil (show cutAt mark s ≠ [] from cutAt_ne_nil s)
      simp only [hs, List.cons_append]

/-- **The first mark** ends the first part. -/
theorem cutAt_append (h : mark ∉ s) (t : List α) :
    cutAt mark (s ++ mark :: t) = s :: cutAt mark t := by
  rw [cutAt_append_mark, cutAt_of_not_mem h, List.singleton_append]

/-- No part has a mark in it. -/
theorem not_mem_of_mem_cutAt {part : List α} (h : part ∈ cutAt mark s) : mark ∉ part := by
  induction s generalizing part with
  | nil =>
    obtain rfl := List.mem_singleton.mp h
    exact List.not_mem_nil
  | cons c s ih =>
    obtain ⟨x, xs, hs⟩ := List.exists_cons_of_ne_nil (show cutAt mark s ≠ [] from cutAt_ne_nil s)
    rw [cutAt] at h
    split at h
    · rcases List.mem_cons.mp h with rfl | h
      · exact List.not_mem_nil
      · exact ih h
    · rename_i hc
      simp only [hs] at h ih
      rcases List.mem_cons.mp h with rfl | h
      · exact fun hmem => (List.mem_cons.mp hmem).elim (fun h => hc h.symm) (ih List.mem_cons_self)
      · exact ih (List.mem_cons_of_mem x h)

/-- Every other character is in one of them. -/
theorem exists_mem_cutAt (hc : c ≠ mark) (h : c ∈ s) : ∃ part ∈ cutAt mark s, c ∈ part := by
  induction s with
  | nil => cases h
  | cons d s ih =>
    obtain ⟨x, xs, hs⟩ := List.exists_cons_of_ne_nil (show cutAt mark s ≠ [] from cutAt_ne_nil s)
    rw [hs] at ih
    rw [cutAt, hs]
    by_cases hd : d = mark
    · rw [if_pos hd]
      have hin : c ∈ s := List.mem_of_ne_of_mem (fun h => hc (h.trans hd)) h
      obtain ⟨part, hpart, hmem⟩ := ih hin
      exact ⟨part, List.mem_cons_of_mem [] hpart, hmem⟩
    · rw [if_neg hd]
      rcases List.mem_cons.mp h with rfl | hin
      · exact ⟨c :: x, List.mem_cons_self, List.mem_cons_self⟩
      · obtain ⟨part, hpart, hmem⟩ := ih hin
        rcases List.mem_cons.mp hpart with rfl | hpart
        · exact ⟨d :: part, List.mem_cons_self, List.mem_cons_of_mem d hmem⟩
        · exact ⟨part, List.mem_cons_of_mem _ hpart, hmem⟩

/-- The lines of a text. A line feed at the end of the text starts no further
line. -/
def lines (t : Text) : List Text :=
  let parts := cutAt '\n' t
  if parts.getLast? = some [] then parts.dropLast else parts

/-- Texts written with a line feed at the end of each. -/
theorem cutAt_flatMap {β : Type} {xs : List β} {f : β → List α} (h : ∀ x ∈ xs, mark ∉ f x) :
    cutAt mark (xs.flatMap fun x => f x ++ [mark]) = xs.map f ++ [[]] := by
  induction xs with
  | nil => rfl
  | cons x xs ih =>
    obtain ⟨hx, hxs⟩ := List.forall_mem_cons.mp h
    rw [List.flatMap_cons, List.append_assoc, List.singleton_append, cutAt_append hx, ih hxs]
    rfl

/-- **They are the lines of the text.** -/
theorem lines_flatMap {β : Type} {xs : List β} {f : β → Text} (h : ∀ x ∈ xs, '\n' ∉ f x) :
    lines (xs.flatMap fun x => f x ++ ['\n']) = xs.map f := by
  simp [lines, cutAt_flatMap h]

end Text

end StraightLine

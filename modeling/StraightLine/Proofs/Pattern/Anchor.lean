import StraightLine.Pattern.Match

/-!
# Anchors — matches at the start of a text

A thread keeps the place where it started, whatever states it goes through
(`follow_start`, `advance_start`), and an anchored automaton starts a thread
at the start of the text alone. So what it matches stands right ahead
(`value_of_anchored`).
-/

namespace StraightLine

namespace Automaton

variable {a : Automaton} {p : Nat → Prop} {threads reached : List Thread}

/-- Threads followed at one place keep their starts. -/
theorem follow_start (spot : Spot) (n : Nat) (seen : Array Nat)
    (ht : ∀ t ∈ threads, p t.start) (hr : ∀ t ∈ reached, p t.start) :
    ∀ t ∈ (a.follow spot n threads seen reached).2, p t.start := by
  induction n generalizing threads seen reached with
  | zero =>
    rw [follow]
    exact hr
  | succ n ih =>
    rcases threads with - | ⟨t, threads⟩
    · rw [follow]
      exact hr
    · obtain ⟨hhead, htail⟩ := List.forall_mem_cons.mp ht
      rw [follow]
      split
      · exact ih _ htail hr
      · -- whatever comes of the first thread starts where it did
        dsimp only
        split
        · exact ih _ (List.forall_mem_cons.mpr ⟨hhead, List.forall_mem_cons.mpr ⟨hhead, htail⟩⟩) hr
        · split
          · exact ih _ (List.forall_mem_cons.mpr ⟨hhead, htail⟩) hr
          · exact ih _ htail hr
        · exact ih _ (List.forall_mem_cons.mpr ⟨hhead, htail⟩) hr
        · exact ih _ htail (List.forall_mem_cons.mpr ⟨hhead, hr⟩)
        · exact ih _ htail (List.forall_mem_cons.mpr ⟨hhead, hr⟩)
        · exact ih _ htail hr

/-- So do threads that take a character. -/
theorem advance_start (c : Char) (ht : ∀ t ∈ threads, p t.start) :
    ∀ t ∈ a.advance c threads, p t.start := by
  intro t' hmem
  obtain ⟨t, hin, htake⟩ := List.mem_filterMap.mp hmem
  split at htake
  · split at htake
    · rw [← Option.some.inj htake]
      exact ht t hin
    · cases htake
  · cases htake

/-- An anchored automaton starts threads at the start of the text alone, so
every thread that is at a place started there. -/
theorem reached_start (ha : a.anchored = true) {spot : Spot} {n : Nat} {open? : Bool}
    {seen : Array Nat} {r : Array Nat × List Thread} (ht : ∀ t ∈ threads, t.start = 0)
    (h : a.follow spot n (if open? && (spot.index == 0 || !a.anchored) then
      threads ++ [⟨a.start, spot.index, []⟩] else threads) seen [] = r) :
    ∀ t ∈ r.2.reverse, t.start = 0 := by
  intro t hmem
  rw [← h] at hmem
  refine follow_start (p := (· = 0)) spot n seen ?_ (by simp) t (List.mem_reverse.mp hmem)
  split
  · rename_i hopen
    have hindex : spot.index = 0 := by simpa [ha] using (Bool.and_eq_true_iff.mp hopen).2
    exact List.forall_mem_append.mpr ⟨ht, List.forall_mem_singleton.mpr hindex⟩
  · exact ht

/-- **An anchored search** finds nothing that starts further on. -/
theorem search_start (ha : a.anchored = true) {ahead : Text} {before : Option Char} {index : Nat}
    {seen : Array Nat} {best : Option Match} {m : Match} (ht : ∀ t ∈ threads, t.start = 0)
    (hbest : ∀ m, best = some m → m.start = 0)
    (h : a.search ahead before index threads seen best = some m) : m.start = 0 := by
  induction ahead generalizing before index threads seen best with
  | nil =>
    rw [search] at h
    generalize hfollow : a.follow ⟨before, index, _⟩ _ _ seen [] = r at h
    have hr := reached_start ha ht hfollow
    dsimp only at h
    split at h
    · rename_i t hfound
      rw [← Option.some.inj h]
      exact hr t (List.mem_of_find?_eq_some hfound)
    · exact hbest m h
  | cons c ahead ih =>
    rw [search] at h
    generalize hfollow : a.follow ⟨before, index, _⟩ _ _ seen [] = r at h
    have hr := reached_start ha ht hfollow
    have hnext (running : List Thread) (hsub : running.Sublist r.2.reverse) :
        ∀ t ∈ a.advance c running, t.start = 0 :=
      advance_start (p := (· = 0)) c fun t hrun => hr t (hsub.subset hrun)
    dsimp only at h
    split at h
    · rename_i t hfound
      have hnew : ∀ m, some (⟨t.start, index, t.marks⟩ : Match) = some m → m.start = 0 := by
        rintro m ⟨⟩
        exact hr t (List.mem_of_find?_eq_some hfound)
      split at h
      · exact hnew m h
      · exact ih (hnext _ (List.takeWhile_sublist _)) hnew h
    · split at h
      · exact hbest m h
      · exact ih (hnext _ (List.takeWhile_sublist _)) hbest h

/-- **An anchored automaton matches right ahead.** -/
theorem value_of_anchored (ha : a.anchored = true) {t : Text} {m : Match} (h : a.find? t = some m) :
    ∃ rest, t = m.value t ++ rest := by
  have hstart : m.start = 0 := search_start ha (by simp) (by simp) h
  refine ⟨t.drop m.stop, ?_⟩
  rw [Match.value, hstart, List.drop_zero, List.take_append_drop]

end Automaton

end StraightLine

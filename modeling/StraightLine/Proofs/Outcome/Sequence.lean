import Mathlib.Data.List.Forall2

/-!
# Sequences — outcomes one after another

What follows an outcome that succeeds is done with its result
(`exists_of_bind_eq_ok`). Going through a list with something that may fail
ends at the first failure (`mapM_eq_error_iff`) or gives one result for each
element (`mapM_eq_ok_iff`).
-/

namespace StraightLine

variable {α β ε : Type} {f : ε}

/-- What has succeeded as a whole has succeeded in its first part. -/
theorem exists_of_bind_eq_ok {x : Except ε α} {k : α → Except ε β} {b : β}
    (h : x >>= k = .ok b) : ∃ a, x = .ok a ∧ k a = .ok b := by
  cases x with
  | error e => cases h
  | ok a => exact ⟨a, rfl, h⟩

theorem mapM_eq_ok_iff {g : α → Except ε β} {as : List α} {bs : List β} :
    as.mapM g = .ok bs ↔ List.Forall₂ (fun a b => g a = .ok b) as bs := by
  induction as generalizing bs with
  | nil =>
    rw [List.mapM_nil, List.forall₂_nil_left_iff]
    exact ⟨fun h => (Except.ok.inj h).symm, fun h => h ▸ rfl⟩
  | cons a as ih =>
    rw [List.mapM_cons, List.forall₂_cons_left_iff]
    rcases ha : g a with e | b
    · constructor
      · rintro ⟨⟩
      · rintro ⟨_, _, ⟨⟩, _⟩
    · rcases has : as.mapM g with e | bs'
      · constructor
        · rintro ⟨⟩
        · rintro ⟨_, _, -, hrest, -⟩
          cases has.symm.trans (ih.mpr hrest)
      · constructor
        · rintro ⟨⟩
          exact ⟨b, bs', rfl, ih.mp has, rfl⟩
        · rintro ⟨_, _, ⟨⟩, hrest, rfl⟩
          obtain rfl := Except.ok.inj (has.symm.trans (ih.mpr hrest))
          rfl

/-- **The first failure** decides. -/
theorem mapM_eq_error_iff {g : α → Except ε β} {as : List α} :
    as.mapM g = .error f ↔
      ∃ front a back, as = front ++ a :: back ∧ (∀ x ∈ front, ∃ b, g x = .ok b) ∧
        g a = .error f := by
  induction as with
  | nil =>
    constructor
    · rintro ⟨⟩
    · rintro ⟨front, a, back, heq, -⟩
      cases (List.append_eq_nil_iff.mp heq.symm).2
  | cons a as ih =>
    rw [List.mapM_cons]
    constructor
    · intro hfail
      rcases ha : g a with e | b
      · rw [ha] at hfail
        obtain rfl := Except.error.inj hfail
        exact ⟨[], a, as, rfl, by simp, ha⟩
      · rcases has : as.mapM g with e | bs
        · rw [ha, has] at hfail
          obtain rfl := Except.error.inj hfail
          obtain ⟨front, x, back, heq, hfront, hx⟩ := ih.mp has
          refine ⟨a :: front, x, back, by rw [heq, List.cons_append], ?_, hx⟩
          exact List.forall_mem_cons.mpr ⟨⟨b, ha⟩, hfront⟩
        · rw [ha, has] at hfail
          cases hfail
    · rintro ⟨front, x, back, heq, hfront, hx⟩
      cases front with
      | nil =>
        obtain ⟨rfl, rfl⟩ := List.cons.inj heq
        rw [hx]
        rfl
      | cons y front =>
        obtain ⟨rfl, htail⟩ := List.cons.inj heq
        obtain ⟨⟨b, hb⟩, hfront⟩ := List.forall_mem_cons.mp hfront
        rw [hb, ih.mpr ⟨front, x, back, htail, hfront, hx⟩]
        rfl

/-- Without a failure there are results. -/
theorem exists_mapM_ok {g : α → Except ε β} {as : List α} (h : ∀ a ∈ as, ∃ b, g a = .ok b) :
    ∃ bs, as.mapM g = .ok bs := by
  rcases has : as.mapM g with e | bs
  · obtain ⟨front, a, back, rfl, -, ha⟩ := mapM_eq_error_iff.mp has
    obtain ⟨b, hb⟩ := h a (by simp)
    cases ha.symm.trans hb
  · exact ⟨bs, rfl⟩

/-- And each element has one. -/
theorem exists_ok_of_mapM_ok {g : α → Except ε β} {as : List α} {bs : List β}
    (h : as.mapM g = .ok bs) : ∀ a ∈ as, ∃ b, g a = .ok b := by
  induction mapM_eq_ok_iff.mp h with
  | nil => simp
  | cons hab hrest ih => exact List.forall_mem_cons.mpr ⟨⟨_, hab⟩, ih (mapM_eq_ok_iff.mpr hrest)⟩

/-- And each result is that of an element. -/
theorem exists_mem_of_mapM_ok {g : α → Except ε β} {as : List α} {bs : List β}
    (h : as.mapM g = .ok bs) : ∀ b ∈ bs, ∃ a ∈ as, g a = .ok b := by
  induction mapM_eq_ok_iff.mp h with
  | nil => simp
  | @cons a _ _ _ hab hrest ih =>
    refine List.forall_mem_cons.mpr ⟨⟨a, List.mem_cons_self, hab⟩, fun b hb => ?_⟩
    obtain ⟨a', ha', hb'⟩ := ih (mapM_eq_ok_iff.mpr hrest) b hb
    exact ⟨a', List.mem_cons_of_mem a ha', hb'⟩

/-- **Two passes over a list**, the first of which succeeds, are one. -/
theorem mapM_of_mapM_ok {γ : Type} {g : α → Except ε β} {k : β → Except ε γ} {as : List α}
    {bs : List β} (h : as.mapM g = .ok bs) : bs.mapM k = as.mapM fun a => g a >>= k := by
  induction mapM_eq_ok_iff.mp h with
  | nil => rfl
  | cons hab hrest ih =>
    rw [List.mapM_cons, List.mapM_cons, ih (mapM_eq_ok_iff.mpr hrest), hab]
    rfl

end StraightLine

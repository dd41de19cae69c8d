import StraightLine.Proofs.Grammar.Brackets

/-!
# Nesting — how deep the parentheses of a text stand inside one another

The bound that a derivation carries on the nesting of its parentheses can be
read off the text: `Text.nesting` is the deepest level that its parentheses
reach. Whatever bound a text is derived with, it is derived with just those that
are not below its nesting (`derives_iff_nesting_le`), so that a text that is
derived at all is nested too deep for a bound only when it says so itself.
-/

namespace StraightLine

namespace Text

variable {s t u : Text} {d d' k n : Nat}

/-! ## The deepest level -/

/-- The deepest level that parentheses reach, from a level on. -/
def deepestFrom (d : Nat) : Text → Nat
  | [] => d
  | c :: t => max d (deepestFrom ((nest? d c).getD d) t)

/-- How deep parentheses stand inside one another. -/
def nesting (t : Text) : Nat := deepestFrom 0 t

theorem le_deepestFrom (d : Nat) (t : Text) : d ≤ deepestFrom d t := by
  cases t with
  | nil => exact le_rfl
  | cons c t => exact le_max_left _ _

/-- **The second of two texts starts on the level that the first leaves.** -/
theorem deepestFrom_append (h : depthAfter? d s = some d') (t : Text) :
    deepestFrom d (s ++ t) = max (deepestFrom d s) (deepestFrom d' t) := by
  induction s generalizing d with
  | nil =>
    obtain rfl : d = d' := Option.some.inj h
    exact (max_eq_right (le_deepestFrom d t)).symm
  | cons c s ih =>
    rw [depthAfter?_cons] at h
    obtain ⟨d₁, hd₁, h⟩ := Option.bind_eq_some_iff.mp h
    rw [List.cons_append, deepestFrom, deepestFrom, hd₁, Option.getD_some, ih h, max_assoc]

theorem nest?_add {c : Char} (h : nest? d c = some d') (k : Nat) :
    nest? (d + k) c = some (d' + k) := by
  unfold nest? at h ⊢
  split
  · rw [if_pos ‹_›] at h
    obtain rfl := Option.some.inj h
    exact congrArg some (by omega)
  · rw [if_neg ‹_›] at h
    split
    · rw [if_pos ‹_›] at h
      cases d with
      | zero => cases h
      | succ d =>
        obtain rfl := Option.some.inj h
        rw [Nat.succ_add]
    · rw [if_neg ‹_›] at h
      obtain rfl := Option.some.inj h
      rfl

/-- A text whose parentheses are all opened in it goes as deep from any level. -/
theorem deepestFrom_add (h : depthAfter? d t = some d') (k : Nat) :
    deepestFrom (d + k) t = deepestFrom d t + k := by
  induction t generalizing d with
  | nil => rfl
  | cons c t ih =>
    rw [depthAfter?_cons] at h
    obtain ⟨d₁, hd₁, h⟩ := Option.bind_eq_some_iff.mp h
    rw [deepestFrom, deepestFrom, hd₁, nest?_add hd₁, Option.getD_some, Option.getD_some, ih h]
    omega

/-- A text without parentheses stays on its level. -/
theorem Unbracketed.deepestFrom (h : Unbracketed t) (d : Nat) : t.deepestFrom d = d := by
  induction t with
  | nil => rfl
  | cons c t ih =>
    obtain ⟨ho, hc⟩ := h
    rw [List.mem_cons, not_or] at ho hc
    rw [Text.deepestFrom, nest?_of_ne (Ne.symm ho.1) (Ne.symm hc.1), Option.getD_some,
      ih ⟨ho.2, hc.2⟩, max_self]

theorem Unbracketed.nesting (h : Unbracketed t) : t.nesting = 0 := h.deepestFrom 0

theorem Unbracketed.append (hs : Unbracketed s) (ht : Unbracketed t) : Unbracketed (s ++ t) :=
  ⟨fun h => (List.mem_append.mp h).elim hs.1 ht.1, fun h => (List.mem_append.mp h).elim hs.2 ht.2⟩

theorem Blank.unbracketed (h : Blank t) : Unbracketed t :=
  ⟨fun ho => absurd (h _ ho) (by decide), fun hc => absurd (h _ hc) (by decide)⟩

theorem Spaced.unbracketed (h : Spaced u s) (hu : Unbracketed u) : Unbracketed s := by
  obtain ⟨hb, hb'⟩ := h
  exact hb.unbracketed.append (hu.append hb'.unbracketed)

namespace WellBracketed

theorem nesting_append (hs : WellBracketed s) (t : Text) :
    nesting (s ++ t) = max s.nesting t.nesting := deepestFrom_append (hs.depth 0) t

/-- Parentheses around a text are a level more, wherever blanks stand. -/
theorem nesting_between (hs : Spaced ['('] s) (ht : WellBracketed t) (hu : Spaced [')'] u) :
    nesting (s ++ (t ++ u)) = t.nesting + 1 := by
  obtain @⟨b₁, b₂, hb₁, hb₂⟩ := hs
  obtain @⟨b₃, b₄, hb₃, hb₄⟩ := hu
  have hinner : deepestFrom 1 (b₂ ++ (t ++ (b₃ ++ ')' :: b₄))) = t.nesting + 1 := by
    have ht₁ : deepestFrom 1 t = t.nesting + 1 := by
      have h := deepestFrom_add (ht.depth 0) 1
      rwa [Nat.zero_add] at h
    have hclose : deepestFrom 1 (')' :: b₄) = 1 := by
      rw [deepestFrom, show nest? 1 ')' = some 0 from rfl, Option.getD_some,
        hb₄.unbracketed.deepestFrom]
      rfl
    rw [deepestFrom_append (hb₂.unbracketed.depthAfter? 1), deepestFrom_append (ht.depth 1),
      deepestFrom_append (hb₃.unbracketed.depthAfter? 1), hclose, ht₁,
      hb₂.unbracketed.deepestFrom, hb₃.unbracketed.deepestFrom]
    omega
  have hopen : deepestFrom 0 ('(' :: (b₂ ++ (t ++ (b₃ ++ ')' :: b₄)))) = t.nesting + 1 := by
    rw [deepestFrom, show nest? 0 '(' = some 1 from rfl, Option.getD_some, hinner, Nat.zero_max]
  have hall := deepestFrom_append (hb₁.unbracketed.depthAfter? 0)
    ('(' :: (b₂ ++ (t ++ (b₃ ++ ')' :: b₄))))
  rw [hb₁.unbracketed.deepestFrom, hopen, Nat.zero_max] at hall
  simpa [nesting] using hall

/-- Texts one behind the other are nested as deep as the deepest of them. -/
theorem nesting_flatMap_le {α : Type} {xs : List α} {f : α → Text}
    (h : ∀ x ∈ xs, WellBracketed (f x)) :
    nesting (xs.flatMap f) ≤ n ↔ ∀ x ∈ xs, (f x).nesting ≤ n := by
  induction xs with
  | nil => simp [nesting, deepestFrom]
  | cons x xs ih =>
    obtain ⟨hx, hxs⟩ := List.forall_mem_cons.mp h
    rw [List.flatMap_cons, hx.nesting_append, Nat.max_le, ih hxs, List.forall_mem_cons]

end WellBracketed

end Text

/-! ## The bound of a derivation -/

namespace Grammar

open Text

variable {p : Phrase} {m n : Nat} {s : Text} {e : Expr} {steps : List Step}
  {ops : List BinaryOp} {st : Stmt} {sts : List Stmt}

theorem unbracketed_symbol (op : BinaryOp) : Unbracketed op.symbol.toList := by
  cases op <;> decide

theorem unbracketed_assignment (op : AssignOp) : Unbracketed op.symbol.toList := by
  cases op <;> decide

/-- Operators make no difference. -/
theorem nesting_steps_le
    (hsigns : ∀ x ∈ steps, x.op ∈ ops ∧ Spaced x.op.symbol.toList x.sign)
    (hoperands : ∀ x ∈ steps, WellBracketed x.operand) :
    nesting (steps.flatMap Step.text) ≤ n ↔ ∀ x ∈ steps, x.operand.nesting ≤ n := by
  have hsign : ∀ x ∈ steps, WellBracketed x.sign := fun x hx =>
    (hsigns x hx).2.wellBracketed (wellBracketed_symbol x.op)
  have hall : ∀ x ∈ steps, WellBracketed (Step.text x) := fun x hx =>
    (hsign x hx).append (hoperands x hx)
  rw [WellBracketed.nesting_flatMap_le hall]
  refine forall₂_congr fun x hx => ?_
  have hnone := ((hsigns x hx).2.unbracketed (unbracketed_symbol x.op)).nesting
  rw [Step.text, (hsign x hx).nesting_append, hnone, Nat.zero_max]

/-- **A phrase is nested no deeper than its derivation says.** -/
theorem nesting_le_of_derives (h : Derives p n s e) : s.nesting ≤ n := by
  induction h with
  | float hl hs => exact (hs.unbracketed hl.plainChars.unbracketed).nesting.trans_le (Nat.zero_le _)
  | int hl _ hs => exact (hs.unbracketed hl.plainChars.unbracketed).nesting.trans_le (Nat.zero_le _)
  | name hl hs =>
    exact (hs.unbracketed hl.isName.plainChars.unbracketed).nesting.trans_le (Nat.zero_le _)
  | nested ho he hc ih =>
    rw [WellBracketed.nesting_between ho (wellBracketed_of_derives he) hc]
    exact Nat.succ_le_succ ih
  | term hhead hsigns hsteps ihhead ihsteps =>
    rw [(wellBracketed_of_derives hhead).nesting_append, Nat.max_le,
      nesting_steps_le hsigns fun x hx => wellBracketed_of_derives (hsteps x hx)]
    exact ⟨ihhead, ihsteps⟩
  | expr hhead hsigns hsteps ihhead ihsteps =>
    rw [(wellBracketed_of_derives hhead).nesting_append, Nat.max_le,
      nesting_steps_le hsigns fun x hx => wellBracketed_of_derives (hsteps x hx)]
    exact ⟨ihhead, ihsteps⟩

/-- **And is derived with every bound that is not below its nesting.** -/
theorem Derives.of_nesting_le (h : Derives p m s e) (hn : s.nesting ≤ n) : Derives p n s e := by
  induction h generalizing n with
  | float hl hs => exact .float hl hs
  | int hl hv hs => exact .int hl hv hs
  | name hl hs => exact .name hl hs
  | nested ho he hc ih =>
    rw [WellBracketed.nesting_between ho (wellBracketed_of_derives he) hc] at hn
    obtain ⟨n, rfl⟩ : ∃ k, n = k + 1 := ⟨n - 1, by omega⟩
    exact .nested ho (ih (by omega)) hc
  | term hhead hsigns hsteps ihhead ihsteps =>
    rw [(wellBracketed_of_derives hhead).nesting_append, Nat.max_le,
      nesting_steps_le hsigns fun x hx => wellBracketed_of_derives (hsteps x hx)] at hn
    exact .term (ihhead hn.1) hsigns fun x hx => ihsteps x hx (hn.2 x hx)
  | expr hhead hsigns hsteps ihhead ihsteps =>
    rw [(wellBracketed_of_derives hhead).nesting_append, Nat.max_le,
      nesting_steps_le hsigns fun x hx => wellBracketed_of_derives (hsteps x hx)] at hn
    exact .expr (ihhead hn.1) hsigns fun x hx => ihsteps x hx (hn.2 x hx)

/-- **The bounds of a phrase** are those that are not below its nesting. -/
theorem derives_iff_nesting_le (h : Derives p m s e) : Derives p n s e ↔ s.nesting ≤ n :=
  ⟨nesting_le_of_derives, h.of_nesting_le⟩

/-- The parentheses of a statement are those of its value. -/
theorem DerivesStmt.of_nesting_le (h : DerivesStmt m s st) (hn : s.nesting ≤ n) :
    DerivesStmt n s st := by
  obtain @⟨x, s₁, s₂, s₃, s₄, op, e, hx, hs₁, hs₂, he, hs₄⟩ := h
  have hname := hs₁.wellBracketed hx.isName.plainChars.wellBracketed
  have hsign := hs₂.wellBracketed (wellBracketed_assignment op)
  rw [hname.nesting_append, hsign.nesting_append,
    (wellBracketed_of_derives he).nesting_append] at hn
  exact .mk hx hs₁ hs₂ (he.of_nesting_le (by omega)) hs₄

theorem nesting_le_of_derivesStmt (h : DerivesStmt n s st) : s.nesting ≤ n := by
  obtain @⟨x, s₁, s₂, s₃, s₄, op, e, hx, hs₁, hs₂, he, hs₄⟩ := h
  have hname := hs₁.wellBracketed hx.isName.plainChars.wellBracketed
  have hsign := hs₂.wellBracketed (wellBracketed_assignment op)
  have hsemi : Unbracketed s₄ := hs₄.unbracketed (by decide)
  rw [hname.nesting_append, hsign.nesting_append, (wellBracketed_of_derives he).nesting_append,
    (hs₁.unbracketed hx.isName.plainChars.unbracketed).nesting,
    (hs₂.unbracketed (unbracketed_assignment op)).nesting, hsemi.nesting]
  have hvalue := nesting_le_of_derives he
  omega

end Grammar

end StraightLine

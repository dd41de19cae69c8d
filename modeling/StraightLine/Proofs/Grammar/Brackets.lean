import StraightLine.Proofs.Grammar.Derivation
import StraightLine.Proofs.Lexeme.Shape

/-!
# Brackets — the characters of programs and how they nest

The tokens of a program and the phrases of the grammar cut its text at
different places: `5-1` is two tokens, an integer and a negative one. What both
agree on is a property of the characters. `depthAfter?` counts the open
parentheses from one character to the next, and a text that the grammar
derives comes back to the depth it started from (`wellBracketed_of_derives`).
-/

namespace StraightLine

namespace Text

variable {s t u l : Text} {d : Nat}

/-! ## The depth of parentheses -/

/-- The depth behind a character, which cannot close what is not open. -/
def nest? (d : Nat) (c : Char) : Option Nat :=
  if c = '(' then some (d + 1)
  else if c = ')' then
    match d with
    | 0 => none
    | d + 1 => some d
  else some d

theorem nest?_of_ne {c : Char} (ho : c ≠ '(') (hc : c ≠ ')') (d : Nat) :
    nest? d c = some d := by
  simp [nest?, ho, hc]

/-- The depth behind a text. -/
def depthAfter? (d : Nat) (t : Text) : Option Nat := t.foldlM nest? d

theorem depthAfter?_cons (d : Nat) (c : Char) (t : Text) :
    depthAfter? d (c :: t) = (nest? d c).bind fun d' => depthAfter? d' t := List.foldlM_cons

theorem depthAfter?_append (d : Nat) (s t : Text) :
    depthAfter? d (s ++ t) = (depthAfter? d s).bind fun d' => depthAfter? d' t :=
  List.foldlM_append

/-- A text without a parenthesis. -/
def Unbracketed (t : Text) : Prop := '(' ∉ t ∧ ')' ∉ t

instance : Decidable (Unbracketed t) := inferInstanceAs (Decidable (_ ∧ _))

/-- It leaves the depth as it is. -/
theorem Unbracketed.depthAfter? (h : Unbracketed t) (d : Nat) : t.depthAfter? d = some d := by
  induction t with
  | nil => rfl
  | cons c t ih =>
    obtain ⟨ho, hc⟩ := h
    rw [List.mem_cons, not_or] at ho hc
    rw [depthAfter?_cons, nest?_of_ne (Ne.symm ho.1) (Ne.symm hc.1)]
    exact ih ⟨ho.2, hc.2⟩

/-! ## The texts of programs -/

/-- The characters of programs. -/
def isProgramChar (c : Char) : Bool :=
  isBlank c || isPlainChar c || ['*', '/', '%', '=', ';', '(', ')'].contains c

/-- A text of such characters. -/
def ProgramChars (t : Text) : Prop := ∀ c ∈ t, isProgramChar c = true

instance : Decidable (ProgramChars t) :=
  decidable_of_iff (t.all isProgramChar = true) List.all_eq_true

/-- **A text of such characters with matching parentheses.** -/
structure WellBracketed (t : Text) : Prop where
  chars : ProgramChars t
  depth : ∀ d, depthAfter? d t = some d

theorem wellBracketed_nil : WellBracketed [] := ⟨by decide, fun _ => rfl⟩

theorem Unbracketed.wellBracketed (h : Unbracketed t) (hc : ProgramChars t) :
    WellBracketed t := ⟨hc, h.depthAfter?⟩

namespace WellBracketed

theorem append (hs : WellBracketed s) (ht : WellBracketed t) : WellBracketed (s ++ t) where
  chars c hc := (List.mem_append.mp hc).elim (hs.chars c) (ht.chars c)
  depth d := by rw [depthAfter?_append, hs.depth, Option.bind_some, ht.depth]

/-- Parentheses around such a text match. -/
theorem parenthesized (h : WellBracketed t) : WellBracketed ('(' :: (t ++ [')'])) where
  chars c hc := by
    simp only [List.mem_cons, List.mem_append, List.not_mem_nil, or_false] at hc
    rcases hc with rfl | hc | rfl
    · decide
    · exact h.chars c hc
    · decide
  depth d := by
    have ho : nest? d '(' = some (d + 1) := rfl
    rw [depthAfter?_cons, ho, Option.bind_some, depthAfter?_append, h.depth]
    rfl

theorem flatMap {α : Type} {xs : List α} {f : α → Text} (h : ∀ x ∈ xs, WellBracketed (f x)) :
    WellBracketed (xs.flatMap f) := by
  induction xs with
  | nil => exact wellBracketed_nil
  | cons x xs ih =>
    obtain ⟨hx, hxs⟩ := List.forall_mem_cons.mp h
    rw [List.flatMap_cons]
    exact hx.append (ih hxs)

end WellBracketed

theorem Blank.wellBracketed (h : Blank t) : WellBracketed t := by
  refine Unbracketed.wellBracketed ⟨fun ho => ?_, fun hc => ?_⟩ fun c hc => ?_
  · exact absurd (h _ ho) (by decide)
  · exact absurd (h _ hc) (by decide)
  · simp [isProgramChar, h c hc]

theorem PlainChars.unbracketed (h : PlainChars t) : Unbracketed t :=
  ⟨h.not_mem (by decide), h.not_mem (by decide)⟩

theorem PlainChars.wellBracketed (h : PlainChars t) : WellBracketed t :=
  h.unbracketed.wellBracketed fun c hc => by simp [isProgramChar, h c hc]

/-- Blanks around a text change nothing. -/
theorem Spaced.wellBracketed (hs : Spaced l s) (hl : WellBracketed l) : WellBracketed s := by
  obtain ⟨hb, hb'⟩ := hs
  exact hb.wellBracketed.append (hl.append hb'.wellBracketed)

/-- Nor do they between a text and the parentheses around it. -/
theorem WellBracketed.between (hs : Spaced ['('] s) (ht : WellBracketed t)
    (hu : Spaced [')'] u) : WellBracketed (s ++ (t ++ u)) := by
  obtain @⟨b₁, b₂, hb₁, hb₂⟩ := hs
  obtain @⟨b₃, b₄, hb₃, hb₄⟩ := hu
  have hinner := (hb₂.wellBracketed.append (ht.append hb₃.wellBracketed)).parenthesized
  have hall := hb₁.wellBracketed.append (hinner.append hb₄.wellBracketed)
  simpa using hall

end Text

/-! ## Derived texts -/

namespace Grammar

open Text

variable {n : Nat} {s : Text}

theorem wellBracketed_symbol (op : BinaryOp) : WellBracketed op.symbol.toList := by
  refine Unbracketed.wellBracketed ?_ ?_
  · cases op <;> decide
  · cases op <;> decide

theorem wellBracketed_assignment (op : AssignOp) : WellBracketed op.symbol.toList := by
  refine Unbracketed.wellBracketed ?_ ?_
  · cases op <;> decide
  · cases op <;> decide

/-- Operators and operands keep the depth when the operands do. -/
theorem wellBracketed_steps {steps : List Step} {ops : List BinaryOp}
    (hsigns : ∀ x ∈ steps, x.op ∈ ops ∧ Spaced x.op.symbol.toList x.sign)
    (hoperands : ∀ x ∈ steps, WellBracketed x.operand) :
    WellBracketed (steps.flatMap Step.text) :=
  .flatMap fun x hx =>
    ((hsigns x hx).2.wellBracketed (wellBracketed_symbol x.op)).append (hoperands x hx)

/-- **Every phrase is well bracketed.** -/
theorem wellBracketed_of_derives {p : Phrase} {e : Expr} (h : Derives p n s e) :
    WellBracketed s := by
  induction h with
  | float hl hs => exact hs.wellBracketed hl.plainChars.wellBracketed
  | int hl _ hs => exact hs.wellBracketed hl.plainChars.wellBracketed
  | name hl hs => exact hs.wellBracketed hl.isName.plainChars.wellBracketed
  | nested ho _ hc ih => exact ih.between ho hc
  | term _ hsigns _ ihhead ihsteps => exact ihhead.append (wellBracketed_steps hsigns ihsteps)
  | expr _ hsigns _ ihhead ihsteps => exact ihhead.append (wellBracketed_steps hsigns ihsteps)

theorem DerivesStmt.wellBracketed {st : Stmt} (h : DerivesStmt n s st) : WellBracketed s := by
  obtain ⟨hx, hs₁, hs₂, he, hs₄⟩ := h
  have hname := hs₁.wellBracketed hx.isName.plainChars.wellBracketed
  have hsemi := hs₄.wellBracketed (Unbracketed.wellBracketed (t := [';']) (by decide) (by decide))
  exact hname.append ((hs₂.wellBracketed (wellBracketed_assignment _)).append
    ((wellBracketed_of_derives he).append hsemi))

theorem DerivesProgram.wellBracketed {sts : List Stmt} (h : DerivesProgram n s sts) :
    WellBracketed s := by
  induction h with
  | done hs => exact hs.wellBracketed
  | step hst _ ih => exact hst.wellBracketed.append ih

end Grammar

end StraightLine

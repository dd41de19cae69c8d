import StraightLine.Proofs.Grammar.Failure

/-!
# Trailing input — where a whole expression ends

What a parser has read it reads as well when the text ends there: cutting off
the rest makes no lexeme shorter and no operator another one, since the text
read is a phrase of the grammar on its own (`Reads.cut`). This holds also
where the parser had looked past the cut at an operator whose right operand
failed.

No phrase knows where it fails (`Unplaced`), so the one error of an expression
that tells a place is that of what follows it. **`trailingInput_iff`** says
that it marks the end of the expression, and where that is.
-/

namespace StraightLine

namespace Parser

variable {α β : Type} {p : Parser α} {q : Parser β} {D : Text → α → Prop} {E : Text → Prop}

/-- **Without the rest** the same is read, and nothing is left. -/
theorem Reads.cut (h : Reads p D E) (hE : E []) {t rest : Text} {a : α}
    (ht : p t = .ok (a, rest)) : ∃ s, t = s ++ rest ∧ p s = .ok (a, []) := by
  obtain ⟨s, hs, hd⟩ := h.sound ht
  have hread := h.complete hd hE
  rw [List.append_nil] at hread
  exact ⟨s, hs, hread⟩

/-! ## Failures without a place -/

/-- **A parser whose failures tell no place.** -/
def Unplaced (p : Parser α) : Prop := ∀ t e, p t = .error e → e.place? = none

theorem unplaced_literal (l : Text) : Unplaced (literal l) := by
  intro t e h
  unfold literal at h
  split at h
  · cases h
  · split at h
    · obtain rfl := Except.error.inj h
      rfl
    · obtain rfl := Except.error.inj h
      rfl

theorem unplaced_lexeme (read : Text → Option (Text × Text)) (message : String) :
    Unplaced (lexeme read message) := by
  intro t e h
  unfold lexeme at h
  split at h
  · cases h
  · obtain rfl := Except.error.inj h
    rfl

theorem Unplaced.map (h : Unplaced p) (f : α → β) : Unplaced (map f p) := by
  intro t e ht
  unfold Parser.map at ht
  split at ht
  · cases ht
  · rename_i e' hp
    obtain rfl := Except.error.inj ht
    exact h t e' hp

theorem Unplaced.andThen (h : Unplaced p) {f : α → Except ParseError β}
    (hf : ∀ a e, f a = .error e → e.place? = none) : Unplaced (andThen p f) := by
  intro t e ht
  unfold Parser.andThen at ht
  split at ht
  · rename_i a rest hp
    split at ht
    · cases ht
    · rename_i e' hfa
      obtain rfl := Except.error.inj ht
      exact hf a e' hfa
  · rename_i e' hp
    obtain rfl := Except.error.inj ht
    exact h t e' hp

theorem Unplaced.test (h : Unplaced p) (holds : α → Bool) (message : Text) :
    Unplaced (test p holds message) := by
  intro t e ht
  unfold Parser.test at ht
  split at ht
  · split at ht
    · cases ht
    · obtain rfl := Except.error.inj ht
      rfl
  · rename_i e' hp
    obtain rfl := Except.error.inj ht
    exact h t e' hp

theorem Unplaced.pair (hp : Unplaced p) (hq : Unplaced q) : Unplaced (pair p q) := by
  intro t e ht
  unfold Parser.pair at ht
  split at ht
  · rename_i e' hpt
    obtain rfl := Except.error.inj ht
    exact hp t e' hpt
  · rename_i a u hpt
    split at ht
    · rename_i e' hqu
      obtain rfl := Except.error.inj ht
      exact hq u e' hqu
    · cases ht

theorem Unplaced.skipBlanks (h : Unplaced p) : Unplaced (skipBlanks p) := by
  intro t e ht
  rw [skipBlanks_eq] at ht
  split at ht
  · cases ht
  · rename_i e' hp
    obtain rfl := Except.error.inj ht
    exact h _ e' hp

theorem unplaced_firstOf {ps : List (Parser α)} (h : ∀ p ∈ ps, Unplaced p) {e : ParseError}
    (he : e.place? = none) : Unplaced (firstOf e ps) := by
  induction ps generalizing e with
  | nil =>
    intro t e' ht
    obtain rfl : e = e' := Except.error.inj ht
    exact he
  | cons p ps ih =>
    obtain ⟨hp, hps⟩ := List.forall_mem_cons.mp h
    intro t e' ht
    unfold firstOf at ht
    split at ht
    · cases ht
    · rename_i e₁ hpt
      exact ih hps (hp t e₁ hpt) t e' ht

end Parser

namespace Grammar

open StraightLine.Parser

variable {operand nested : Parser Expr} {ops : List BinaryOp}

theorem unplaced_token (symbol : String) : Unplaced (token symbol) :=
  (unplaced_literal symbol.toList).skipBlanks

/-- A chain only fails as too deep. -/
theorem unplaced_chain (operand : Parser Expr) (sign : Parser BinaryOp) (n : Nat) (tree : Expr)
    (depth : Nat) : Unplaced (chain operand sign n tree depth) := by
  induction n generalizing tree depth with
  | zero =>
    intro t e ht
    cases ht
  | succ n ih =>
    intro t e ht
    unfold chain at ht
    split at ht
    · cases ht
    · split at ht
      · obtain rfl := Except.error.inj ht
        rfl
      · cases ht
      · dsimp only at ht
        split at ht
        · obtain rfl := Except.error.inj ht
          rfl
        · exact ih _ _ _ e ht

theorem unplaced_leftAssoc (h : Unplaced operand) (ops : List BinaryOp) :
    Unplaced (leftAssoc operand ops) := by
  intro t e ht
  unfold leftAssoc at ht
  split at ht
  · rename_i e' hhead
    obtain rfl := Except.error.inj ht
    exact h t e' hhead
  · exact unplaced_chain operand _ _ _ _ _ e ht

theorem unplaced_factorOf (h : Unplaced nested) : Unplaced (factorOf nested) := by
  have hdecimal : Unplaced decimal := (unplaced_lexeme _ _).andThen fun l e hl => by
    split at hl
    · cases hl
    · obtain rfl := Except.error.inj hl
      rfl
  have hinteger : Unplaced integer := (unplaced_lexeme _ _).andThen fun l e hl => by
    split at hl
    · cases hl
    · obtain rfl := Except.error.inj hl
      rfl
  have hname : Unplaced identifier := (unplaced_lexeme _ _).skipBlanks.test _ _
  have hparen := (unplaced_token "(").pair (h.pair (unplaced_token ")"))
  refine unplaced_firstOf ?_ rfl
  intro p hp
  simp only [List.mem_cons, List.not_mem_nil, or_false] at hp
  rcases hp with rfl | rfl | rfl | rfl
  · exact hdecimal.skipBlanks
  · exact hinteger.skipBlanks
  · exact hname.map _
  · exact hparen.map _

/-- **No expression knows where it fails**, however deep it nests. -/
theorem unplaced_nestedAt (n : Nat) : Unplaced (nestedAt n) := by
  induction n with
  | zero =>
    intro t e ht
    obtain rfl := Except.error.inj ht
    rfl
  | succ n ih =>
    exact unplaced_leftAssoc (unplaced_leftAssoc (unplaced_factorOf ih) multiplicative) additive

theorem unplaced_expr : Unplaced expr := unplaced_nestedAt (maxNesting + 1)

/-! ## The end of a whole expression -/

/-- **Trailing input marks the end of a whole expression.** The error is that
of something that starts with no blank and follows a text which is an expression
on its own, the one that was read in front of it; it tells the place where that
text ends and quotes the first ten characters of what follows. -/
theorem trailingInput_iff {s found : Text} {place : Place} :
    parseExpr s = .error (.trailingInput place found) ↔
      ∃ u c v e, s = u ++ c :: v ∧ isBlank c = false ∧ expr s = .ok (e, c :: v) ∧
        parseExpr u = .ok e ∧ place = s.placeAt (Text.byteSize u) ∧
        found = (c :: v).take 10 := by
  constructor
  · intro h
    rw [parseExpr] at h
    split at h
    · rename_i e hread
      obtain rfl := Except.error.inj h
      cases unplaced_expr s _ hread
    · rename_i e rest hread
      have htrim : rest.trimStart = rest := reads_expr.trimmed hread
      rw [htrim] at h
      split at h
      · cases h
      · rename_i c v
        obtain ⟨u, rfl, hu⟩ := reads_expr.cut stopsAll_nil hread
        have hc : isBlank c = false := by
          refine Text.startsOutside_dropWhile (c :: v) c ?_
          rw [← Text.trimStart, htrim, List.head?_cons]
        have hwhole : parseExpr u = .ok e := by simp only [parseExpr, hu, Text.trimStart_nil]
        simp only [Except.error.injEq, ParseError.trailingInput.injEq] at h
        obtain ⟨rfl, rfl⟩ := h
        exact ⟨u, c, v, e, rfl, hc, hread, hwhole, Text.placeOfRest_append u (c :: v), rfl⟩
  · rintro ⟨u, c, v, e, rfl, hc, hread, -, rfl, rfl⟩
    have htrim : Text.trimStart (c :: v) = c :: v := Text.trimStart_cons hc v
    simp only [parseExpr, hread, htrim, Text.placeOfRest_append]
    rfl

/-- An operator without its right operand is left over. -/
example :
    parseExpr "1 + x\n * )".toList = .error (.trailingInput ⟨2, 2⟩ "* )".toList) ∧
      parseExpr "1 + x\n ".toList = .ok (.binary (.int 1) .add (.identifier ['x'])) := by
  decide +kernel

end Grammar

end StraightLine

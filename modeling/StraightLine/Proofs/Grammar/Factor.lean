import StraightLine.Proofs.Grammar.Chain

/-!
# Factors — numbers, names and parentheses

Of the alternatives of a factor the first that succeeds is taken, a float
before an integer, and every lexeme as long as it goes. Neither the order nor
the greed matters: in front of a text that breaks lexemes the alternatives
exclude one another (`decimal_integer_error`, `number_error`,
`identifier_error`), so each is reached exactly on its own texts.
-/

namespace StraightLine

namespace Grammar

open StraightLine.Parser

variable {nested : Parser Expr} {N : Text → Expr → Prop} {n : Nat} {s t : Text} {e : Expr}

/-! ## Factors -/

theorem takes_decimal :
    Takes decimal (fun l e => Text.FloatLexeme l ∧ e = .float (Text.floatValue l))
      Text.Breaks where
  sound {t rest e} ht := by
    obtain ⟨l, hl, hx⟩ := andThen_eq_ok.mp ht
    obtain ⟨heq, hfloat⟩ := Text.floatLexeme_of_floatLexeme? (lexeme_eq_ok.mp hl)
    rw [Text.ofText?_of_floatLexeme hfloat] at hx
    exact ⟨l, heq, hfloat, (Except.ok.inj hx).symm⟩
  complete {l r e} hl hr := by
    obtain ⟨hfloat, rfl⟩ := hl
    refine andThen_eq_ok.mpr ⟨l, lexeme_eq_ok.mpr (Text.floatLexeme?_append hfloat hr), ?_⟩
    rw [Text.ofText?_of_floatLexeme hfloat]
  nonblank hl := hl.1.exists_head

theorem isWord_iff {v : Int} : isWord v = true ↔ -2 ^ 63 ≤ v ∧ v < 2 ^ 63 := by
  simp [isWord]

theorem takes_integer :
    Takes integer
      (fun l e => ∃ v, Text.IntegerLexeme l v ∧ (-2 ^ 63 ≤ v ∧ v < 2 ^ 63) ∧ e = .int v)
      Text.Breaks where
  sound {t rest e} ht := by
    obtain ⟨l, hl, hx⟩ := andThen_eq_ok.mp ht
    obtain ⟨heq, v, hint⟩ := Text.integerLexeme_of_integerLexeme? (lexeme_eq_ok.mp hl)
    rw [Text.wordOf?_of_integerLexeme hint] at hx
    by_cases hv : isWord v = true
    · rw [if_pos hv] at hx
      exact ⟨l, heq, v, hint, isWord_iff.mp hv, (Except.ok.inj hx).symm⟩
    · rw [if_neg hv] at hx
      cases hx
  complete {l r e} hl hr := by
    obtain ⟨v, hint, hv, rfl⟩ := hl
    refine andThen_eq_ok.mpr ⟨l, lexeme_eq_ok.mpr (Text.integerLexeme?_append hint hr), ?_⟩
    rw [Text.wordOf?_of_integerLexeme hint, if_pos (isWord_iff.mpr hv)]
  nonblank := fun ⟨_, hl, _⟩ => hl.exists_head

theorem takes_name (message : String) :
    Takes (lexeme Text.nameLexeme? message) (fun l x => Text.NameLexeme l ∧ x = l)
      Text.Breaks where
  sound ht := by
    obtain ⟨heq, hname⟩ := Text.nameLexeme_of_nameLexeme? (lexeme_eq_ok.mp ht)
    exact ⟨_, heq, hname, rfl⟩
  complete hl hr := by
    obtain ⟨hname, rfl⟩ := hl
    exact lexeme_eq_ok.mpr (Text.nameLexeme?_append hname hr)
  nonblank hl := by
    obtain ⟨c, t, hct, -, hc⟩ := hl.1.exists_head
    exact ⟨c, t, hct, hc⟩

theorem isReserved_eq_false_iff {l : Text} :
    isReserved l = false ↔ ∀ k : Keyword, k.spelling.toList ≠ l := by
  simp only [isReserved, List.any_eq_false, beq_iff_eq]
  constructor
  · intro h k
    exact h k (by cases k <;> decide)
  · exact fun h k _ => h k

theorem reads_identifier :
    Reads identifier (fun s x => FreeName x ∧ Text.Spaced x s) Text.Breaks := by
  have h := (takes_name "Invalid identifier").skipBlanks fun hb hr => hr.blank_append hb
  refine (h.test (fun x => !isReserved x) _).congr fun s x => ?_
  rw [Bool.not_eq_true', isReserved_eq_false_iff]
  constructor
  · rintro ⟨⟨l, ⟨hl, rfl⟩, hs⟩, hk⟩
    exact ⟨⟨hl, hk⟩, hs⟩
  · rintro ⟨⟨hl, hk⟩, hs⟩
    exact ⟨⟨x, ⟨hl, rfl⟩, hs⟩, hk⟩

theorem reads_token (symbol : String) {c : Char} (hc : symbol.toList.head? = some c)
    (hb : isBlank c = false) :
    Reads (token symbol) (fun s l => l = symbol.toList ∧ Text.Spaced symbol.toList s)
      (fun _ => True) := by
  obtain ⟨l, hl⟩ := List.head?_eq_some_iff.mp hc
  refine ((takes_literal hl hb).skipBlanks fun _ _ => trivial).congr fun s l => ?_
  constructor
  · rintro ⟨_, ⟨rfl, rfl⟩, hs⟩
    exact ⟨rfl, hs⟩
  · rintro ⟨rfl, hs⟩
    exact ⟨_, ⟨rfl, rfl⟩, hs⟩

/-- A parenthesis stands behind every expression it closes. -/
theorem stops_of_spaced {symbol : Text} {c : Char} {ops : List BinaryOp}
    (hs : Text.Spaced symbol s) (hc : symbol.head? = some c)
    (hbreak : isBlank c = false ∧ Text.isNameChar c = false ∧ c ≠ '.')
    (hops : ∀ op : BinaryOp, op.symbol.toList.head? ≠ some c) (t : Text) :
    Stops ops (s ++ t) := by
  refine ⟨hs.breaks_append hc hbreak.2.1 hbreak.2.2 t, fun op _ h => ?_⟩
  rw [hs.head?_trimStart hc hbreak.1] at h
  exact hops op h.symm

theorem reads_nested {ops : List BinaryOp} (h : Reads nested N (Stops ops)) :
    Reads (.map (fun r => r.2.1) (.triple (token "(") nested (token ")")))
      (fun s e => ∃ s₁ s₂ s₃, Text.Spaced ['('] s₁ ∧ N s₂ e ∧ Text.Spaced [')'] s₃ ∧
        s = s₁ ++ (s₂ ++ s₃)) (fun _ => True) := by
  have hopen := reads_token "(" (c := '(') rfl (by decide)
  have hclose := reads_token ")" (c := ')') rfl (by decide)
  have hinner := h.pair hclose fun hs _ =>
    stops_of_spaced hs.2 rfl (by decide) (by intro op; cases op <;> decide) _
  refine ((hopen.pair hinner fun _ _ => trivial).map fun r => r.2.1).congr fun s e => ?_
  constructor
  · rintro ⟨⟨l, e', l'⟩, ⟨s₁, _, rfl, ⟨-, h₁⟩, s₂, s₃, rfl, he, -, h₃⟩, rfl⟩
    exact ⟨s₁, s₂, s₃, h₁, he, h₃, rfl⟩
  · rintro ⟨s₁, s₂, s₃, h₁, he, h₃, rfl⟩
    exact ⟨⟨_, e, _⟩, ⟨s₁, _, rfl, ⟨rfl, h₁⟩, s₂, s₃, rfl, he, rfl, h₃⟩, rfl⟩

/-! ## The alternatives of a factor exclude one another -/

theorem decimal_error (h : Text.floatLexeme? t = none) : ∃ e, decimal t = .error e := by
  refine exists_error fun ⟨e, rest⟩ ht => ?_
  obtain ⟨l, hl, -⟩ := andThen_eq_ok.mp ht
  rw [lexeme_eq_ok, h] at hl
  cases hl

theorem integer_error (h : Text.integerLexeme? t = none) : ∃ e, integer t = .error e := by
  refine exists_error fun ⟨e, rest⟩ ht => ?_
  obtain ⟨l, hl, -⟩ := andThen_eq_ok.mp ht
  rw [lexeme_eq_ok, h] at hl
  cases hl

/-- No number starts at a character that is no digit, minus or point. -/
theorem number_error {c : Char} (hd : c.isDigit = false) (hm : c ≠ '-') (hp : c ≠ '.')
    (ht : t.trimStart.head? = some c) :
    (∃ e, Parser.skipBlanks decimal t = .error e) ∧
      ∃ e, Parser.skipBlanks integer t = .error e := by
  obtain ⟨u, hu⟩ := List.head?_eq_some_iff.mp ht
  obtain ⟨e, he⟩ := decimal_error (Text.floatLexeme?_cons_eq_none hd hm hp u)
  obtain ⟨e', he'⟩ := integer_error (Text.integerLexeme?_cons_eq_none hd hm u)
  exact ⟨⟨e, skipBlanks_error (hu ▸ he)⟩, ⟨e', skipBlanks_error (hu ▸ he')⟩⟩

/-- No number starts at a name. -/
theorem number_error_of_name {x : Text} (hx : Text.NameLexeme x) (hs : Text.Spaced x s) (r : Text) :
    (∃ e, Parser.skipBlanks decimal (s ++ r) = .error e) ∧
      ∃ e, Parser.skipBlanks integer (s ++ r) = .error e := by
  obtain ⟨c, u, hcu, hstart, hc⟩ := hx.exists_head
  obtain ⟨hd, hm, hp⟩ := Text.isNameStart_ne hstart
  exact number_error hd hm hp (hs.head?_trimStart (hcu ▸ rfl) hc r)

/-- Nor at a parenthesis. -/
theorem number_error_of_paren (hs : Text.Spaced ['('] s) (r : Text) :
    (∃ e, Parser.skipBlanks decimal (s ++ r) = .error e) ∧
      ∃ e, Parser.skipBlanks integer (s ++ r) = .error e :=
  number_error (by decide) (by decide) (by decide) (hs.head?_trimStart rfl (by decide) r)

/-- No float starts at an integer that a lexeme does not go on from. -/
theorem decimal_integer_error {l r : Text} {v : Int} (hl : Text.IntegerLexeme l v)
    (hs : Text.Spaced l s) (hr : r.Breaks) :
    ∃ e, Parser.skipBlanks decimal (s ++ r) = .error e := by
  obtain ⟨c, u, hcu, hc⟩ := hl.exists_head
  obtain ⟨b, hb, heq⟩ := trimStart_spaced hs hcu hc r
  obtain ⟨e, he⟩ := decimal_error (Text.floatLexeme?_integer_append hl (hr.blank_append hb))
  exact ⟨e, skipBlanks_error (heq ▸ he)⟩

/-- No name starts at a parenthesis. -/
theorem identifier_error (ht : t.trimStart.head? = some '(') : ∃ e, identifier t = .error e := by
  refine exists_error fun ⟨x, rest⟩ hx => ?_
  obtain ⟨s, rfl, hname, hs⟩ := reads_identifier.sound hx
  obtain ⟨c, u, hcu, hstart, hc⟩ := hname.isName.exists_head
  rw [hs.head?_trimStart (hcu ▸ rfl) hc, Option.some.injEq] at ht
  rw [ht] at hstart
  exact absurd hstart (by decide)

/-- The texts of a factor, given those that may stand between parentheses. -/
def FactorOf (N : Text → Expr → Prop) (s : Text) (e : Expr) : Prop :=
  (∃ l, Text.FloatLexeme l ∧ Text.Spaced l s ∧ e = .float (Text.floatValue l)) ∨
  (∃ l v, Text.IntegerLexeme l v ∧ (-2 ^ 63 ≤ v ∧ v < 2 ^ 63) ∧ Text.Spaced l s ∧
    e = .int v) ∨
  (∃ l, FreeName l ∧ Text.Spaced l s ∧ e = .identifier l) ∨
  ∃ s₁ s₂ s₃, Text.Spaced ['('] s₁ ∧ N s₂ e ∧ Text.Spaced [')'] s₃ ∧ s = s₁ ++ (s₂ ++ s₃)

/-- **A factor is read as the grammar has it**: whichever alternative is
right, those tried before it fail. -/
theorem reads_factorOf {ops : List BinaryOp} (h : Reads nested N (Stops ops)) :
    Reads (factorOf nested) (FactorOf N) Text.Breaks := by
  have hblank : ∀ {b r : Text}, b.Blank → r.Breaks → (b ++ r).Breaks := fun hb hr =>
    hr.blank_append hb
  -- from the last alternative to the first: each is put in front of those it
  -- has to fail on
  have hparen := fun e =>
    ((reads_nested h).mono fun _ => trivial).firstOf_cons (E := Text.Breaks) e
      reads_firstOf_nil (fun hs _ => hs.elim)
  have hname := fun e =>
    (reads_identifier.map Expr.identifier).firstOf_cons e hparen (by
      rintro s r a (⟨s₁, s₂, s₃, h₁, -, -, rfl⟩ | hs) -
      · rw [List.append_assoc]
        obtain ⟨e', he'⟩ := identifier_error (h₁.head?_trimStart rfl (by decide) _)
        exact ⟨e', by rw [Parser.map, he']⟩
      · exact hs.elim)
  have hint := fun e =>
    (takes_integer.skipBlanks hblank).firstOf_cons e hname (by
      rintro s r a (⟨x, ⟨hx, hs⟩, -⟩ | ⟨s₁, s₂, s₃, h₁, -, -, rfl⟩ | hs) -
      · exact (number_error_of_name hx.isName hs r).2
      · rw [List.append_assoc]
        exact (number_error_of_paren h₁ _).2
      · exact hs.elim)
  have hfloat :=
    (takes_decimal.skipBlanks hblank).firstOf_cons .noParsers hint (by
      rintro s r a (⟨l, ⟨v, hl, -, -⟩, hs⟩ | ⟨x, ⟨hx, hs⟩, -⟩ | ⟨s₁, s₂, s₃, h₁, -, -, rfl⟩ | hs) hr
      · exact decimal_integer_error hl hs hr
      · exact (number_error_of_name hx.isName hs r).1
      · rw [List.append_assoc]
        exact (number_error_of_paren h₁ _).1
      · exact hs.elim)
  refine hfloat.congr fun s e => ?_
  constructor
  · rintro (⟨l, ⟨hl, rfl⟩, hs⟩ | ⟨l, ⟨v, hl, hv, rfl⟩, hs⟩ | ⟨x, ⟨hx, hs⟩, rfl⟩ | hs | hs)
    · exact .inl ⟨l, hl, hs, rfl⟩
    · exact .inr (.inl ⟨l, v, hl, hv, hs, rfl⟩)
    · exact .inr (.inr (.inl ⟨x, hx, hs, rfl⟩))
    · exact .inr (.inr (.inr hs))
    · exact hs.elim
  · rintro (⟨l, hl, hs, rfl⟩ | ⟨l, v, hl, hv, hs, rfl⟩ | ⟨x, hx, hs, rfl⟩ | hs)
    · exact .inl ⟨l, ⟨hl, rfl⟩, hs⟩
    · exact .inr (.inl ⟨l, ⟨v, hl, hv, rfl⟩, hs⟩)
    · exact .inr (.inr (.inl ⟨x, ⟨hx, hs⟩, rfl⟩))
    · exact .inr (.inr (.inr (.inl hs)))

end Grammar

end StraightLine

import StraightLine.Proofs.Grammar.Factor

/-!
# Acceptance — the parser takes exactly what the grammar derives

The parser commits to the first alternative that succeeds, takes every lexeme
as long as it can, and swallows the failure of a right operand. None of this
loses or invents a derivation. `reads_nestedAt` carries the lemmas about
factors and chains up to expressions, by induction on the number of
parentheses that may still be opened, and `statements_eq_ok_iff` does the
same for the loop over the statements.

**`parse_ok_iff_derives`** is the theorem about whole texts. The two limits
are part of it: what is refused for a limit has no derivation within it.
-/

namespace StraightLine

namespace Grammar

open StraightLine.Parser

variable {P : Text → Expr → Prop} {ops : List BinaryOp} {n : Nat} {s t : Text} {e : Expr}

/-! ## The phrases of an expression -/

/-- A tree within the limit has its operands within the limit. -/
theorem joined_iff :
    Joined ops (fun s e => P s e ∧ e.height ≤ maxHeight) s e ↔
      e.height ≤ maxHeight ∧ ∃ s₀ head steps, P s₀ head ∧ IsChain ops P steps ∧
        s = s₀ ++ steps.flatMap Step.text ∧ e = steps.foldl Step.extend head := by
  constructor
  · rintro ⟨he, s₀, head, steps, ⟨hp, -⟩, ⟨hs, ho⟩, heq⟩
    exact ⟨he, s₀, head, steps, hp, ⟨hs, fun x hx => (ho x hx).1⟩, heq⟩
  · rintro ⟨he, s₀, head, steps, hp, ⟨hs, ho⟩, heq, rfl⟩
    obtain ⟨hhead, hsteps⟩ := height_le_foldl head steps
    exact ⟨he, s₀, head, steps, ⟨hp, hhead.trans he⟩,
      ⟨hs, fun x hx => ⟨ho x hx, (hsteps x hx).trans he⟩⟩, heq, rfl⟩

theorem derives_term_iff :
    Derives .term n s e ↔ ∃ s₀ head steps, Derives .factor n s₀ head ∧
      IsChain multiplicative (Derives .factor n) steps ∧
        s = s₀ ++ steps.flatMap Step.text ∧ e = steps.foldl Step.extend head := by
  constructor
  · rintro (_ | _ | _ | _ | ⟨hhead, hs, ho⟩ | _)
    exact ⟨_, _, _, hhead, ⟨hs, ho⟩, rfl, rfl⟩
  · rintro ⟨s₀, head, steps, hhead, ⟨hs, ho⟩, rfl, rfl⟩
    exact .term hhead hs ho

theorem derives_expr_iff :
    Derives .expr n s e ↔ ∃ s₀ head steps, Derives .term n s₀ head ∧
      IsChain additive (Derives .term n) steps ∧
        s = s₀ ++ steps.flatMap Step.text ∧ e = steps.foldl Step.extend head := by
  constructor
  · rintro (_ | _ | _ | _ | _ | ⟨hhead, hs, ho⟩)
    exact ⟨_, _, _, hhead, ⟨hs, ho⟩, rfl, rfl⟩
  · rintro ⟨s₀, head, steps, hhead, ⟨hs, ho⟩, rfl, rfl⟩
    exact .expr hhead hs ho

/-- What stands between parentheses of which `n` may be opened: an expression
with one pair less. -/
def Nested : Nat → Text → Expr → Prop
  | 0, _, _ => False
  | n + 1, s, e => Derives .expr n s e ∧ e.height ≤ maxHeight

theorem height_pos_le_maxHeight : 1 ≤ maxHeight := by decide

theorem factorOf_nested_iff :
    FactorOf (Nested n) s e ↔ Derives .factor n s e ∧ e.height ≤ maxHeight := by
  constructor
  · rintro (⟨l, hl, hs, rfl⟩ | ⟨l, v, hl, hv, hs, rfl⟩ | ⟨l, hl, hs, rfl⟩ |
      ⟨s₁, s₂, s₃, ho, hn, hc, rfl⟩)
    · exact ⟨.float hl hs, height_pos_le_maxHeight⟩
    · exact ⟨.int hl hv hs, height_pos_le_maxHeight⟩
    · exact ⟨.name hl hs, height_pos_le_maxHeight⟩
    · cases n with
      | zero => exact hn.elim
      | succ n => exact ⟨.nested ho hn.1 hc, hn.2⟩
  · rintro ⟨hd, he⟩
    cases hd with
    | float hl hs => exact .inl ⟨_, hl, hs, rfl⟩
    | int hl hv hs => exact .inr (.inl ⟨_, _, hl, hv, hs, rfl⟩)
    | name hl hs => exact .inr (.inr (.inl ⟨_, hl, hs, rfl⟩))
    | nested ho hd hc => exact .inr (.inr (.inr ⟨_, _, _, ho, ⟨hd, he⟩, hc, rfl⟩))

/-- Where an expression of any kind stops. -/
abbrev StopsAll (r : Text) : Prop := Stops (additive ++ (multiplicative ++ [])) r

/-- At the end of a text every expression stops. -/
theorem stopsAll_nil : StopsAll [] := by
  refine ⟨Text.breaks_nil, fun op _ h => ?_⟩
  obtain ⟨c, hc, -⟩ := exists_head_symbol op
  rw [hc] at h
  cases h

/-- A lexeme must stop behind a factor. -/
theorem reads_factorOf_nested {nested : Parser Expr} (h : Reads nested (Nested n) StopsAll) :
    Reads (factorOf nested) (fun s e => Derives .factor n s e ∧ e.height ≤ maxHeight)
      (Stops []) :=
  ((reads_factorOf h).mono fun hr => hr.breaks).congr fun _ _ => factorOf_nested_iff

/-- And each level above adds the operators that would have been taken on it. -/
theorem reads_termOf {nested : Parser Expr} (h : Reads nested (Nested n) StopsAll) :
    Reads (termOf nested) (fun s e => Derives .term n s e ∧ e.height ≤ maxHeight)
      (Stops (multiplicative ++ [])) :=
  (reads_leftAssoc (by decide) (by simp) (reads_factorOf_nested h) fun h => h.2).congr
    fun s e => by rw [joined_iff, derives_term_iff, and_comm]

/-- **Every level reads its phrase**, the limits included. -/
theorem reads_nestedAt (n : Nat) : Reads (nestedAt n) (Nested n) StopsAll := by
  induction n with
  | zero =>
    -- no level is left, and no text is nested so deep
    exact
      { sound := fun ht => by cases ht
        trimmed := fun ht => by cases ht
        complete := fun hs => hs.elim
        skips := fun _ => rfl }
  | succ n ih =>
    refine (reads_leftAssoc (by decide : additive.Nodup) (by decide) (reads_termOf ih)
      fun h => h.2).congr fun s e => ?_
    rw [joined_iff, Nested, derives_expr_iff, and_comm]

/-- **Expressions.** -/
theorem reads_expr :
    Reads expr (fun s e => Derives .expr maxNesting s e ∧ e.height ≤ maxHeight) StopsAll :=
  reads_nestedAt (maxNesting + 1)

/-! ## Statements -/

theorem reads_assignment :
    Reads assignment (fun s op => Text.Spaced op.symbol.toList s) (fun _ => True) := by
  refine (reads_symbols (by decide) ?_ ?_ _).congr fun s op => ?_
  · intro op _
    cases op with
    | assign => exact ⟨'=', rfl, by decide⟩
    | addAssign => exact ⟨'+', rfl, by decide⟩
    | subAssign => exact ⟨'-', rfl, by decide⟩
    | multAssign => exact ⟨'*', rfl, by decide⟩
    | divAssign => exact ⟨'/', rfl, by decide⟩
    | modAssign => exact ⟨'%', rfl, by decide⟩
  · intro op _ op' _
    cases op <;> cases op' <;> decide
  · exact and_iff_right (by cases op <;> decide)

/-- An assignment sign stands behind every name. -/
theorem breaks_of_assignment {op : AssignOp} (hs : Text.Spaced op.symbol.toList s) (t : Text) :
    (s ++ t).Breaks := by
  cases op with
  | assign => exact hs.breaks_append (c := '=') rfl (by decide) (by decide) t
  | addAssign => exact hs.breaks_append (c := '+') rfl (by decide) (by decide) t
  | subAssign => exact hs.breaks_append (c := '-') rfl (by decide) (by decide) t
  | multAssign => exact hs.breaks_append (c := '*') rfl (by decide) (by decide) t
  | divAssign => exact hs.breaks_append (c := '/') rfl (by decide) (by decide) t
  | modAssign => exact hs.breaks_append (c := '%') rfl (by decide) (by decide) t

/-- **Statements.** Nothing that follows a semicolon matters. -/
theorem reads_stmt :
    Reads stmt (fun s st => DerivesStmt maxNesting s st ∧ st.value.height ≤ maxHeight)
      (fun _ => True) := by
  have hvalue := reads_assignment.pair reads_expr fun _ _ => trivial
  have hassign := reads_identifier.pair hvalue fun hs _ => by
    obtain ⟨s₂, s₃, rfl, hop, -⟩ := hs
    rw [List.append_assoc]
    exact breaks_of_assignment hop _
  have hsemi := reads_token ";" (c := ';') rfl (by decide)
  have hall := hassign.pair hsemi fun hs _ =>
    stops_of_spaced hs.2 rfl (by decide) (by intro op; cases op <;> decide) _
  refine (hall.map fun r => (⟨r.1.1, r.1.2.1, r.1.2.2⟩ : Stmt)).congr fun s st => ?_
  constructor
  · rintro ⟨⟨⟨x, op, e⟩, l⟩,
      ⟨_, s₄, rfl, ⟨s₁, _, rfl, ⟨hx, h₁⟩, s₂, s₃, rfl, h₂, he, hle⟩, -, h₄⟩, rfl⟩
    rw [List.append_assoc, List.append_assoc]
    exact ⟨.mk hx h₁ h₂ he h₄, hle⟩
  · rintro ⟨⟨hx, h₁, h₂, he, h₄⟩, hle⟩
    refine ⟨⟨⟨_, _, _⟩, _⟩, ⟨_, _, ?_, ⟨_, _, rfl, ⟨hx, h₁⟩, _, _, rfl, h₂, he, hle⟩, rfl, h₄⟩, rfl⟩
    rw [List.append_assoc, List.append_assoc]

/-- A statement is not empty. -/
theorem stmt_ne_nil {st : Stmt} (h : DerivesStmt n s st) : s ≠ [] := by
  obtain ⟨hx, ⟨_, _⟩, -, -, -⟩ := h
  obtain ⟨c, u, rfl, -⟩ := hx.isName.exists_head
  simp

/-- No statement stands where only blanks are left. -/
theorem stmt_trimStart_ne_nil {st : Stmt} {rest : Text} (h : stmt t = .ok (st, rest)) :
    t.trimStart ≠ [] := by
  intro hnil
  rw [← reads_stmt.skips, hnil] at h
  obtain ⟨s, hs, hd, -⟩ := reads_stmt.sound h
  exact stmt_ne_nil hd (List.append_eq_nil_iff.mp hs.symm).1

/-! ## Whole texts -/

theorem statements_skips (source : Text) (k : Nat) (t : Text) :
    statements source k t.trimStart = statements source k t := by
  cases k with
  | zero => rfl
  | succ k => simp only [statements, Text.trimStart_trimStart, reads_stmt.skips]

/-- **The loop over the statements** reads exactly the programs, whenever it
may go round as often as there are characters. -/
theorem statements_eq_ok_iff (source : Text) {k : Nat} {sts : List Stmt} (hk : t.length ≤ k) :
    statements source k t = .ok sts ↔
      DerivesProgram maxNesting t sts ∧ ∀ st ∈ sts, st.value.height ≤ maxHeight := by
  constructor
  · intro h
    induction k generalizing t sts with
    | zero =>
      obtain rfl : t = [] := List.length_eq_zero_iff.mp (by omega)
      obtain rfl : [] = sts := Except.ok.inj h
      exact ⟨.done Text.blank_nil, by simp⟩
    | succ k ih =>
      rw [statements] at h
      split at h
      · rename_i hnil
        obtain rfl : [] = sts := Except.ok.inj h
        exact ⟨.done (Text.trimStart_eq_nil_iff.mp hnil), by simp⟩
      · split at h
        · cases h
        · rename_i st rest hst
          split at h
          · cases h
          · rename_i sts' hrest
            obtain rfl : st :: sts' = sts := Except.ok.inj h
            obtain ⟨s, rfl, hd, hle⟩ := reads_stmt.sound hst
            -- every statement takes a character, so the bound goes down with the rest
            have hpos := List.length_pos_iff.mpr (stmt_ne_nil hd)
            rw [List.length_append] at hk
            obtain ⟨hds, hles⟩ := ih (by omega) hrest
            exact ⟨.step hd hds, List.forall_mem_cons.mpr ⟨hle, hles⟩⟩
  · rintro ⟨hd, hle⟩
    induction hd generalizing k with
    | @done s hs =>
      cases k with
      | zero => rfl
      | succ k => simp only [statements, Text.trimStart_eq_nil_iff.mpr hs]
    | @step s t st sts hst hsts ih =>
      obtain ⟨hst', hsts'⟩ := List.forall_mem_cons.mp hle
      have hpos := List.length_pos_iff.mpr (stmt_ne_nil hst)
      rw [List.length_append] at hk
      obtain ⟨k, rfl⟩ : ∃ m, k = m + 1 := ⟨k - 1, by omega⟩
      have hread := reads_stmt.complete (r := t) ⟨hst, hst'⟩ trivial
      have hne := stmt_trimStart_ne_nil hread
      obtain ⟨c, u, hcu⟩ := List.exists_cons_of_ne_nil hne
      rw [statements, hcu]
      simp only [hread, statements_skips, ih (k := k) (by omega) hsts']

/-- The programs that are accepted. -/
theorem parseProgram_eq_ok_iff {p : Program} :
    parseProgram s = .ok p ↔
      DerivesProgram maxNesting s p.statements ∧
        ∀ st ∈ p.statements, st.value.height ≤ maxHeight := by
  obtain ⟨sts⟩ := p
  rw [← statements_eq_ok_iff s (k := s.length) le_rfl, parseProgram]
  split
  · rename_i e he
    simp [he]
  · rename_i sts' hsts
    simp [hsts]

/-- The expressions that are accepted. -/
theorem parseExpr_eq_ok_iff {e : Expr} :
    parseExpr s = .ok e ↔ Derives .expr maxNesting s e ∧ e.height ≤ maxHeight := by
  rw [parseExpr]
  constructor
  · intro h
    split at h
    · cases h
    · rename_i e' rest hread
      split at h
      · rename_i hnil
        obtain rfl : e' = e := Except.ok.inj h
        obtain ⟨s', rfl, hd⟩ := reads_expr.sound hread
        rw [reads_expr.trimmed hread] at hnil
        rw [hnil, List.append_nil]
        exact hd
      · cases h
  · intro hd
    have hread := reads_expr.complete (r := []) hd stopsAll_nil
    rw [List.append_nil] at hread
    simp only [hread, Text.trimStart_nil]

/-- **The parser accepts exactly its grammar.** A text is accepted as a
program, or as an expression, just when the grammar derives it with at most
`maxNesting` parentheses inside one another and no tree above `maxHeight`; and
the result is the one derived. -/
theorem parse_ok_iff_derives :
    (∀ (s : Text) (p : Program), parseProgram s = .ok p ↔
      DerivesProgram maxNesting s p.statements ∧
        ∀ st ∈ p.statements, st.value.height ≤ maxHeight) ∧
    (∀ (s : Text) (e : Expr), parseExpr s = .ok e ↔
      Derives .expr maxNesting s e ∧ e.height ≤ maxHeight) :=
  ⟨fun _ _ => parseProgram_eq_ok_iff, fun _ _ => parseExpr_eq_ok_iff⟩

end Grammar

end StraightLine

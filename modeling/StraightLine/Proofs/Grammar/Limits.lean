import StraightLine.Proofs.Grammar.Nesting
import StraightLine.Proofs.Grammar.Refusal
import StraightLine.Proofs.Grammar.Repetition

/-!
# Limits — what exceeds a limit is reported as too deep

The failure of a right operand leaves its operator unread, and of the
alternatives of a factor only the last says why none was right. A limit that is
exceeded comes through all the same: a text of the grammar that its parser does
not read within the limits fails as too deep (`Reports`), and chains, factors
and parentheses pass that on from the phrases they are made of
(`reports_leftAssoc`, `reports_factorOf`). `reports_nestedAt` carries it to any
number of parentheses.

In a program the first statement that exceeds a limit is the first that fails
(`FirstExcess.failsAt`), since those in front of it are read. And no parser
returns a tree above the limit on any text. **`limits_reported`** puts it
together.
-/

namespace StraightLine

namespace Grammar

open StraightLine.Parser

variable {α β : Type} {operand nested : Parser Expr} {ops bad : List BinaryOp}
variable {W D : Text → Expr → Prop} {E : Text → Prop} {m n depth : Nat} {s t r u rest : Text}
  {e tree : Expr} {st : Stmt} {sts : List Stmt}

/-! ## Too deep -/

/-- **A failure for one of the two limits.** -/
inductive TooDeep : Except ParseError α → Prop
  | nesting : TooDeep (.error (.tooDeep maxNesting))
  | height : TooDeep (.error (.tooDeep maxHeight))

theorem tooDeep_iff {x : Except ParseError α} :
    TooDeep x ↔
      ∃ limit, (limit = maxNesting ∨ limit = maxHeight) ∧ x = .error (.tooDeep limit) := by
  constructor
  · rintro (_ | _)
    · exact ⟨_, .inl rfl, rfl⟩
    · exact ⟨_, .inr rfl, rfl⟩
  · rintro ⟨_, rfl | rfl, rfl⟩
    · exact .nesting
    · exact .height

namespace TooDeep

theorem map {p : Parser α} (h : TooDeep (p t)) (f : α → β) : TooDeep (Parser.map f p t) := by
  obtain ⟨limit, hlimit, hp⟩ := tooDeep_iff.mp h
  exact tooDeep_iff.mpr ⟨limit, hlimit, by simp only [Parser.map, hp]⟩

theorem pair_left {p : Parser α} (h : TooDeep (p t)) (q : Parser β) :
    TooDeep (Parser.pair p q t) := by
  obtain ⟨limit, hlimit, hp⟩ := tooDeep_iff.mp h
  exact tooDeep_iff.mpr ⟨limit, hlimit, by simp only [Parser.pair, hp]⟩

theorem pair_right {p : Parser α} {q : Parser β} {a : α} (hp : p t = .ok (a, u))
    (h : TooDeep (q u)) : TooDeep (Parser.pair p q t) := by
  obtain ⟨limit, hlimit, hq⟩ := tooDeep_iff.mp h
  exact tooDeep_iff.mpr ⟨limit, hlimit, by simp only [Parser.pair, hp, hq]⟩

theorem leftAssoc (h : TooDeep (operand t)) (ops : List BinaryOp) :
    TooDeep (leftAssoc operand ops t) := by
  obtain ⟨limit, hlimit, hp⟩ := tooDeep_iff.mp h
  exact tooDeep_iff.mpr ⟨limit, hlimit, by simp only [Grammar.leftAssoc, hp]⟩

/-- Of all failures of a right operand this is the one that ends a chain. -/
theorem chain {sign : Parser BinaryOp} {op : BinaryOp} (hop : sign t = .ok (op, u))
    (h : TooDeep (operand u)) : TooDeep (chain operand sign (n + 1) tree depth t) := by
  obtain ⟨limit, hlimit, hp⟩ := tooDeep_iff.mp h
  exact tooDeep_iff.mpr ⟨limit, hlimit, by simp only [Grammar.chain, hop, hp]⟩

end TooDeep

/-- **A parser reports excess**: on a text that `W` allows and that is not
within its limits it fails as too deep, wherever `E` holds behind it. -/
def Reports (p : Parser Expr) (W D : Text → Expr → Prop) (E : Text → Prop) : Prop :=
  ∀ s r e, W s e → ¬ D s e → E r → TooDeep (p (s ++ r))

/-! ## Chains -/

/-- **A chain reports excess**, in an operand or in the tree that it joins. -/
theorem tooDeep_chain (hops : ops.Nodup) (hdisj : ∀ op ∈ ops, op ∉ bad)
    (h : Reads operand D (Stops bad)) (hexcess : Reports operand W D (Stops bad))
    {steps : List Step} (hsteps : IsChain ops W steps) (hr : Stops (ops ++ bad) r)
    (hlimits : IsChain ops D steps → maxHeight < (steps.foldl Step.extend tree).height)
    (hle : tree.height ≤ maxHeight) (hn : maxHeight < n + tree.height) :
    TooDeep (chain operand (operator ops) n tree tree.height
      (Text.trimStart (steps.flatMap Step.text ++ r))) := by
  -- as in `chain_complete`, up to the first step that exceeds a limit
  induction steps generalizing n tree with
  | nil => exact absurd (hlimits isChain_nil) (by simpa using hle)
  | cons x steps ih =>
    obtain ⟨⟨hop, hs⟩, hx, hrest⟩ := isChain_cons_iff.mp hsteps
    have hheight : (x.extend tree).height = max tree.height x.right.height + 1 := rfl
    obtain ⟨n, rfl⟩ : ∃ m, n = m + 1 := ⟨n - 1, by omega⟩
    have hbehind : Stops bad (steps.flatMap Step.text ++ r) := Stops.of_chain hdisj hrest hr
    have hsign : operator ops (Text.trimStart ((x :: steps).flatMap Step.text ++ r)) =
        .ok (x.op, Text.trimStart (x.operand ++ (steps.flatMap Step.text ++ r))) := by
      rw [(reads_operator hops).skips, List.flatMap_cons, Step.text, List.append_assoc,
        List.append_assoc, (reads_operator hops).complete ⟨hop, hs⟩ trivial]
    by_cases hd : D x.operand x.right
    · have hright : operand (Text.trimStart (x.operand ++ (steps.flatMap Step.text ++ r))) =
          .ok (x.right, Text.trimStart (steps.flatMap Step.text ++ r)) := by
        rw [h.skips, h.complete hd hbehind]
      by_cases hstep : max tree.height x.right.height + 1 ≤ maxHeight
      · rw [chain_step hsign hright (by rw [x.right.depth_eq_height]; exact hstep),
          x.right.depth_eq_height]
        refine ih hrest (fun hchain => hlimits ?_) hstep (by rw [← Step.extend, hheight]; omega)
        exact isChain_cons_iff.mpr ⟨⟨hop, hs⟩, hd, hchain⟩
      · have hover : maxHeight < max tree.height x.right.depth + 1 := by
          rw [x.right.depth_eq_height]
          omega
        simp only [chain, hsign, hright, if_pos hover]
        exact .height
    · refine .chain hsign ?_
      rw [h.skips]
      exact hexcess _ _ _ hx hd hbehind

/-- **Operands joined to the left**: excess in the head, in a right operand or
in the height of the tree. -/
theorem reports_leftAssoc (hops : ops.Nodup) (hdisj : ∀ op ∈ ops, op ∉ bad)
    (h : Reads operand D (Stops bad)) (hexcess : Reports operand W D (Stops bad))
    (hD : ∀ {s e}, D s e → e.height ≤ maxHeight) :
    Reports (leftAssoc operand ops)
      (fun s e => ∃ s₀ head steps, W s₀ head ∧ IsChain ops W steps ∧
        s = s₀ ++ steps.flatMap Step.text ∧ e = steps.foldl Step.extend head)
      (Joined ops D) (Stops (ops ++ bad)) := by
  rintro s r e ⟨s₀, head, steps, hhead, hsteps, rfl, rfl⟩ hlimits hr
  have hbehind : Stops bad (steps.flatMap Step.text ++ r) := Stops.of_chain hdisj hsteps hr
  rw [List.append_assoc]
  by_cases hd : D s₀ head
  · have hpos := head.height_pos
    have hread : operand (s₀ ++ (steps.flatMap Step.text ++ r)) =
        .ok (head, Text.trimStart (steps.flatMap Step.text ++ r)) := h.complete hd hbehind
    simp only [leftAssoc, hread, head.depth_eq_height]
    refine tooDeep_chain hops hdisj h hexcess hsteps hr (fun hchain => ?_) (hD hd) (by omega)
    by_contra hle
    exact hlimits ⟨by omega, s₀, head, steps, hd, hchain, rfl, rfl⟩
  · exact (hexcess _ _ _ hhead hd hbehind).leftAssoc ops

/-! ## Factors -/

/-- **Parentheses report what they enclose**: the other alternatives fail on
them, and theirs is the last. -/
theorem reports_factorOf (h : Reads nested D (Stops bad))
    (hexcess : Reports nested W D (Stops bad)) :
    Reports (factorOf nested) (FactorOf W) (FactorOf D) E := by
  rintro s r e hs hlimits -
  rcases hs with hs | hs | hs | ⟨s₁, s₂, s₃, h₁, hinner, h₃, rfl⟩
  · exact absurd (.inl hs) hlimits
  · exact absurd (.inr (.inl hs)) hlimits
  · exact absurd (.inr (.inr (.inl hs))) hlimits
  · have hd : ¬ D s₂ e := fun hd => hlimits (.inr (.inr (.inr ⟨s₁, s₂, s₃, h₁, hd, h₃, rfl⟩)))
    have hbehind : Stops bad (s₃ ++ r) :=
      stops_of_spaced h₃ rfl (by decide) (by intro op; cases op <;> decide) r
    have hopen : token "(" (s₁ ++ (s₂ ++ (s₃ ++ r))) =
        .ok (['('], Text.trimStart (s₂ ++ (s₃ ++ r))) :=
      (reads_token "(" (c := '(') rfl (by decide)).complete ⟨rfl, h₁⟩ trivial
    have hnested : TooDeep (nested (Text.trimStart (s₂ ++ (s₃ ++ r)))) := by
      rw [h.skips]
      exact hexcess _ _ _ hinner hd hbehind
    have hparen := (TooDeep.pair_right hopen (hnested.pair_left (token ")"))).map
      fun r : Text × Expr × Text => r.2.1
    obtain ⟨⟨e₁, he₁⟩, e₂, he₂⟩ := number_error_of_paren h₁ (s₂ ++ (s₃ ++ r))
    obtain ⟨e₃, he₃⟩ : ∃ e₃, Parser.map Expr.identifier identifier (s₁ ++ (s₂ ++ (s₃ ++ r))) =
        .error e₃ := by
      obtain ⟨e₃, he₃⟩ := identifier_error (h₁.head?_trimStart rfl (by decide) (s₂ ++ (s₃ ++ r)))
      exact ⟨e₃, by rw [Parser.map, he₃]⟩
    obtain ⟨limit, hlimit, hlast⟩ := tooDeep_iff.mp hparen
    refine tooDeep_iff.mpr ⟨limit, hlimit, ?_⟩
    rw [List.append_assoc, List.append_assoc]
    simp only [factorOf, oneOf, firstOf, he₁, he₂, he₃, triple, hlast]

theorem factorOf_of_derives (h : Derives .factor m s e) :
    FactorOf (Derives .expr (m - 1)) s e := by
  cases h with
  | float hl hs => exact .inl ⟨_, hl, hs, rfl⟩
  | int hl hv hs => exact .inr (.inl ⟨_, _, hl, hv, hs, rfl⟩)
  | name hl hs => exact .inr (.inr (.inl ⟨_, hl, hs, rfl⟩))
  | nested ho he hc => exact .inr (.inr (.inr ⟨_, _, _, ho, he, hc, rfl⟩))

/-! ## Phrases -/

theorem Reports.mono {p : Parser Expr} {W₁ D₁ : Text → Expr → Prop} (h : Reports p W D E)
    (hW : ∀ s e, W₁ s e → W s e) (hD : ∀ s e, D s e ↔ D₁ s e) : Reports p W₁ D₁ E :=
  fun s r e hs hlimits hr => h s r e (hW s e hs) (mt (hD s e).mp hlimits) hr

/-- **Every level reports excess**, however deep the text nests in truth. -/
theorem reports_nestedAt (n m : Nat) :
    Reports (nestedAt n) (Derives .expr m) (Nested n) StopsAll := by
  induction n generalizing m with
  | zero => exact fun _ _ _ _ _ _ => .nesting
  | succ n ih =>
    have hread := reads_nestedAt n
    have hfactor : Reports (factorOf (nestedAt n)) (Derives .factor m)
        (fun s e => Derives .factor n s e ∧ e.height ≤ maxHeight) (Stops []) :=
      (reports_factorOf hread (ih (m - 1))).mono (fun _ _ => factorOf_of_derives)
        fun _ _ => factorOf_nested_iff
    have hterm : Reports (termOf (nestedAt n)) (Derives .term m)
        (fun s e => Derives .term n s e ∧ e.height ≤ maxHeight) (Stops (multiplicative ++ [])) :=
      (reports_leftAssoc (by decide) (by simp) (reads_factorOf_nested hread) hfactor
        fun h => h.2).mono (fun _ _ => derives_term_iff.mp) fun s e => by
          rw [joined_iff, derives_term_iff, and_comm]
    refine (reports_leftAssoc (by decide : additive.Nodup) (by decide) (reads_termOf hread) hterm
      fun h => h.2).mono (fun _ _ => derives_expr_iff.mp) fun s e => ?_
    rw [joined_iff, Nested, derives_expr_iff, and_comm]

/-- **Expressions.** -/
theorem reports_expr (m : Nat) :
    Reports expr (Derives .expr m)
      (fun s e => Derives .expr maxNesting s e ∧ e.height ≤ maxHeight) StopsAll :=
  reports_nestedAt (maxNesting + 1) m

/-- **Text and tree exceed a limit.** -/
def Exceeds (s : Text) (e : Expr) : Prop := maxNesting < s.nesting ∨ maxHeight < e.height

theorem not_exceeds_iff : ¬ Exceeds s e ↔ s.nesting ≤ maxNesting ∧ e.height ≤ maxHeight := by
  rw [Exceeds, not_or, Nat.not_lt, Nat.not_lt]

theorem Exceeds.not_derives {p : Phrase} (h : Exceeds s e) :
    ¬ (Derives p maxNesting s e ∧ e.height ≤ maxHeight) := fun ⟨hd, he⟩ =>
  not_exceeds_iff.mpr ⟨nesting_le_of_derives hd, he⟩ h

theorem tooDeep_parseExpr (h : Derives .expr m s e) (hexcess : Exceeds s e) :
    TooDeep (parseExpr s) := by
  have hdeep := reports_expr m _ [] _ h hexcess.not_derives stopsAll_nil
  rw [List.append_nil] at hdeep
  obtain ⟨limit, hlimit, hexpr⟩ := tooDeep_iff.mp hdeep
  exact tooDeep_iff.mpr ⟨limit, hlimit, by simp only [parseExpr, hexpr]⟩

/-! ## Statements and programs -/

/-- **A statement reports its value.** -/
theorem tooDeep_stmt (h : DerivesStmt m s st) (hexcess : Exceeds s st.value) (r : Text) :
    TooDeep (stmt (s ++ r)) := by
  have hlimits : ¬ (DerivesStmt maxNesting s st ∧ st.value.height ≤ maxHeight) := fun ⟨hd, hst⟩ =>
    not_exceeds_iff.mpr ⟨nesting_le_of_derivesStmt hd, hst⟩ hexcess
  obtain @⟨x, s₁, s₂, s₃, s₄, op, e, hx, hs₁, hs₂, he, hs₄⟩ := h
  have hvalue : TooDeep (expr (Text.trimStart (s₃ ++ (s₄ ++ r)))) := by
    rw [reads_expr.skips]
    refine reports_expr m _ _ _ he (fun ⟨hd, hle⟩ => hlimits ⟨.mk hx hs₁ hs₂ hd hs₄, hle⟩) ?_
    exact stops_of_spaced hs₄ rfl (by decide) (by intro op; cases op <;> decide) r
  have hassign : assignment (Text.trimStart (s₂ ++ (s₃ ++ (s₄ ++ r)))) =
      .ok (op, Text.trimStart (s₃ ++ (s₄ ++ r))) := by
    rw [reads_assignment.skips]
    exact reads_assignment.complete hs₂ trivial
  have hname : identifier (s₁ ++ (s₂ ++ (s₃ ++ (s₄ ++ r)))) =
      .ok (x, Text.trimStart (s₂ ++ (s₃ ++ (s₄ ++ r)))) :=
    reads_identifier.complete ⟨hx, hs₁⟩ (breaks_of_assignment hs₂ _)
  have hall := ((TooDeep.pair_right hname (.pair_right hassign hvalue)).pair_left (token ";")).map
    fun r : (Text × AssignOp × Expr) × Text => (⟨r.1.1, r.1.2.1, r.1.2.2⟩ : Stmt)
  rw [List.append_assoc, List.append_assoc, List.append_assoc]
  exact hall

/-- **The first statement that exceeds a limit** in a program, cut out without
the blanks in front of it. -/
structure FirstExcess (n : Nat) (s front mid rest : Text) (sts₁ : List Stmt) (st : Stmt)
    (sts₂ : List Stmt) : Prop where
  text : s = front ++ (mid ++ rest)
  start : ∃ c u, mid = c :: u ∧ isBlank c = false
  before : DerivesProgram maxNesting front sts₁ ∧ ∀ st ∈ sts₁, st.value.height ≤ maxHeight
  derived : DerivesStmt n mid st
  excess : Exceeds mid st.value
  behind : DerivesProgram n rest sts₂

/-- The blanks in front of a statement can be cut off. -/
theorem DerivesStmt.exists_trimmed (h : DerivesStmt n s st) :
    ∃ b mid : Text, b.Blank ∧ s = b ++ mid ∧ DerivesStmt n mid st ∧
      ∃ c u, mid = c :: u ∧ isBlank c = false := by
  obtain @⟨x, s₁, s₂, s₃, s₄, op, e, hx, @⟨b, b', hb, hb'⟩, hs₂, he, hs₄⟩ := h
  obtain ⟨c, u, rfl, -, hc⟩ := hx.isName.exists_head
  refine ⟨b, (c :: u ++ b') ++ (s₂ ++ (s₃ ++ s₄)), hb, List.append_assoc .., ?_, c, _, rfl, hc⟩
  exact .mk hx (.mk Text.blank_nil hb') hs₂ he hs₄

/-- **A program that exceeds a limit has a first statement that does.** -/
theorem DerivesProgram.exists_firstExcess (h : DerivesProgram n s sts)
    (hexcess : maxNesting < s.nesting ∨ ∃ st ∈ sts, maxHeight < st.value.height) :
    ∃ front mid rest sts₁ st sts₂, sts = sts₁ ++ st :: sts₂ ∧
      FirstExcess n s front mid rest sts₁ st sts₂ := by
  induction h with
  | done hs =>
    rcases hexcess with hdeep | ⟨st, hst, -⟩
    · rw [hs.unbracketed.nesting] at hdeep
      exact absurd hdeep (Nat.not_lt_zero _)
    · cases hst
  | @step s t st sts hst hsts ih =>
    by_cases hfirst : Exceeds s st.value
    · obtain ⟨b, mid, hb, rfl, hmid, hstart⟩ := hst.exists_trimmed
      have hnesting : (b ++ mid).nesting = mid.nesting := by
        rw [hb.wellBracketed.nesting_append, hb.unbracketed.nesting, Nat.zero_max]
      rw [Exceeds, hnesting] at hfirst
      exact ⟨b, mid, t, [], st, sts, rfl,
        ⟨List.append_assoc b mid t, hstart, ⟨.done hb, by simp⟩, hmid, hfirst, hsts⟩⟩
    · obtain ⟨hnesting, hheight⟩ := not_exceeds_iff.mp hfirst
      have hrest : maxNesting < t.nesting ∨ ∃ st ∈ sts, maxHeight < st.value.height := by
        rw [hst.wellBracketed.nesting_append] at hexcess
        rcases hexcess with hdeep | ⟨st', hst', hhigh⟩
        · exact .inl (by omega)
        · rcases List.mem_cons.mp hst' with rfl | hst'
          · omega
          · exact .inr ⟨st', hst', hhigh⟩
      obtain ⟨front, mid, rest, sts₁, st', sts₂, rfl, hfirst'⟩ := ih hrest
      obtain ⟨rfl, hstart, ⟨hfront, hlow⟩, hmid, hexc, hbehind⟩ := hfirst'
      exact ⟨s ++ front, mid, rest, st :: sts₁, st', sts₂, rfl,
        ⟨(List.append_assoc ..).symm, hstart,
          ⟨.step (hst.of_nesting_le hnesting) hfront, List.forall_mem_cons.mpr ⟨hheight, hlow⟩⟩,
          hmid, hexc, hbehind⟩⟩

/-- **The first statement that exceeds a limit is the first that fails.** -/
theorem FirstExcess.failsAt {front mid : Text} {sts₁ sts₂ : List Stmt}
    (h : FirstExcess n s front mid rest sts₁ st sts₂) :
    ∃ limit, (limit = maxNesting ∨ limit = maxHeight) ∧
      FailsAt s front (mid ++ rest) (.tooDeep limit) := by
  obtain ⟨rfl, ⟨c, u, rfl, hc⟩, hbefore, hmid, hexcess, -⟩ := h
  obtain ⟨limit, hlimit, hstmt⟩ := tooDeep_iff.mp (tooDeep_stmt hmid hexcess rest)
  exact ⟨limit, hlimit, rfl, ⟨⟨sts₁⟩, parseProgram_eq_ok_iff.mpr hbefore⟩,
    ⟨c, u ++ rest, rfl, hc⟩, hstmt⟩

/-! ## What parsers return -/

/-- **A tree that a parser of the grammar returns** on a text, at whatever
level, alone or as the value of a statement. -/
inductive Returned (t : Text) : Expr → Prop
  | number {rest : Text} {e : Expr}
      (h : Parser.integer t = .ok (e, rest) ∨ Parser.decimal t = .ok (e, rest)) : Returned t e
  | factor {n : Nat} {rest : Text} {e : Expr} (h : factorOf (nestedAt n) t = .ok (e, rest)) :
      Returned t e
  | term {n : Nat} {rest : Text} {e : Expr} (h : termOf (nestedAt n) t = .ok (e, rest)) :
      Returned t e
  | nested {n : Nat} {rest : Text} {e : Expr} (h : nestedAt n t = .ok (e, rest)) : Returned t e
  | expr {rest : Text} {e : Expr} (h : expr t = .ok (e, rest)) : Returned t e
  | whole {e : Expr} (h : parseExpr t = .ok e) : Returned t e
  | stmt {rest : Text} {st : Stmt} (h : stmt t = .ok (st, rest)) : Returned t st.value
  | program {rest : Text} {p : Program} {st : Stmt} (h : program t = .ok (p, rest))
      (hst : st ∈ p.statements) : Returned t st.value
  | wholeProgram {p : Program} {st : Stmt} (h : parseProgram t = .ok p)
      (hst : st ∈ p.statements) : Returned t st.value

/-- **No tree above the limit is returned.** -/
theorem Returned.height_le (h : Returned t e) : e.height ≤ maxHeight := by
  cases h with
  | number h =>
    rcases h with h | h
    · obtain ⟨l, -, v, -, -, rfl⟩ := takes_integer.sound h
      exact height_pos_le_maxHeight
    · obtain ⟨l, -, -, rfl⟩ := takes_decimal.sound h
      exact height_pos_le_maxHeight
  | factor h =>
    obtain ⟨s, -, -, hle⟩ := (reads_factorOf_nested (reads_nestedAt _)).sound h
    exact hle
  | term h =>
    obtain ⟨s, -, -, hle⟩ := (reads_termOf (reads_nestedAt _)).sound h
    exact hle
  | @nested n rest e h =>
    obtain ⟨s, -, hs⟩ := (reads_nestedAt n).sound h
    cases n with
    | zero => exact hs.elim
    | succ n => exact hs.2
  | expr h =>
    obtain ⟨s, -, -, hle⟩ := reads_expr.sound h
    exact hle
  | whole h => exact (parseExpr_eq_ok_iff.mp h).2
  | stmt h =>
    obtain ⟨s, -, -, hle⟩ := reads_stmt.sound h
    exact hle
  | program h hst => exact (parseProgram_eq_ok_iff.mp (program_eq_ok_iff.mp h).1).2 _ hst
  | wholeProgram h hst => exact (parseProgram_eq_ok_iff.mp h).2 _ hst

/-- **Limits are never swallowed.** A text that is an expression but for a
limit fails as too deep, wherever in it the excess is; a text that is a program
but for one is refused at its first statement that exceeds a limit, as too deep;
and no parser returns a tree above the limit, on any text. -/
theorem limits_reported :
    (∀ (n : Nat) (s : Text) (e : Expr), Derives .expr n s e →
      maxNesting < s.nesting ∨ maxHeight < e.height →
        ∃ limit, (limit = maxNesting ∨ limit = maxHeight) ∧
          parseExpr s = .error (.tooDeep limit)) ∧
    (∀ (n : Nat) (s : Text) (sts : List Stmt), DerivesProgram n s sts →
      (maxNesting < s.nesting ∨ ∃ st ∈ sts, maxHeight < st.value.height) →
        ∃ front mid rest sts₁ st sts₂ limit, sts = sts₁ ++ st :: sts₂ ∧
          FirstExcess n s front mid rest sts₁ st sts₂ ∧
          (limit = maxNesting ∨ limit = maxHeight) ∧
          parseProgram s =
            .error (.invalidStatement ⟨1 + front.count '\n', 1 + front.lastLine.length⟩
              ((mid ++ rest).take 10) (.tooDeep limit))) ∧
    ∀ (t : Text) (e : Expr), Returned t e → e.depth ≤ maxHeight := by
  refine ⟨fun n s e hs hexcess => tooDeep_iff.mp (tooDeep_parseExpr hs hexcess),
    fun n s sts hs hexcess => ?_, fun t e h => ?_⟩
  · obtain ⟨front, mid, rest, sts₁, st, sts₂, hsts, hfirst⟩ := hs.exists_firstExcess hexcess
    obtain ⟨limit, hlimit, hfails⟩ := hfirst.failsAt
    exact ⟨front, mid, rest, sts₁, st, sts₂, limit, hsts, hfirst, hlimit,
      hfails.parseProgram_eq_counted⟩
  · rw [e.depth_eq_height]
    exact h.height_le

/-- A name in so many parentheses. -/
def parenthesized : Nat → Text
  | 0 => ['a']
  | k + 1 => '(' :: (parenthesized k ++ [')'])

theorem freeName_a : FreeName ['a'] where
  isName := .mk (by decide) (by simp)
  notKeyword := by
    intro k
    cases k <;> decide

theorem spaced_self (l : Text) : Text.Spaced l l := by
  have h : Text.Spaced l ([] ++ (l ++ [])) := .mk Text.blank_nil Text.blank_nil
  rwa [List.nil_append, List.append_nil] at h

/-- It is an expression but for the limit on parentheses. -/
theorem derives_parenthesized (k : Nat) :
    Derives .expr k (parenthesized k) (.identifier ['a']) := by
  have hexpr {n : Nat} {s : Text} {e : Expr} (h : Derives .factor n s e) : Derives .expr n s e := by
    have hterm : Derives .term n s e := derives_term_iff.mpr
      ⟨s, e, [], h, isChain_nil, (List.append_nil s).symm, rfl⟩
    exact derives_expr_iff.mpr ⟨s, e, [], hterm, isChain_nil, (List.append_nil s).symm, rfl⟩
  induction k with
  | zero => exact hexpr (.name freeName_a (spaced_self _))
  | succ k ih => exact hexpr (.nested (spaced_self ['(']) ih (spaced_self [')']))

/-- One pair of parentheses more than the limit, alone and in a statement. -/
theorem limits_reported_parenthesized :
    let s := parenthesized 129
    let p := ['a'] ++ (['='] ++ (s ++ [';'])) ++ []
    Derives .expr 129 s (.identifier ['a']) ∧ maxNesting < s.nesting ∧
      DerivesProgram 129 p [⟨['a'], .assign, .identifier ['a']⟩] ∧ maxNesting < p.nesting ∧
      (∃ limit, (limit = maxNesting ∨ limit = maxHeight) ∧
        parseExpr s = .error (.tooDeep limit)) ∧
      ∃ place quote limit, (limit = maxNesting ∨ limit = maxHeight) ∧
        parseProgram p = .error (.invalidStatement place quote (.tooDeep limit)) := by
  intro s p
  have hs : Derives .expr 129 s (.identifier ['a']) := derives_parenthesized 129
  have hp : DerivesProgram 129 p [⟨['a'], .assign, .identifier ['a']⟩] :=
    .step (.mk freeName_a (spaced_self ['a']) (spaced_self ['=']) hs
      (spaced_self [';'])) (.done Text.blank_nil)
  have hdeep : maxNesting < s.nesting := by decide +kernel
  have hdeep' : maxNesting < p.nesting := by decide +kernel
  obtain ⟨_, _, _, _, _, _, limit, -, -, hlimit, hparse⟩ :=
    limits_reported.2.1 129 p _ hp (.inl hdeep')
  exact ⟨hs, hdeep, hp, hdeep', limits_reported.1 129 s _ hs (.inl hdeep),
    _, _, limit, hlimit, hparse⟩

end Grammar

end StraightLine

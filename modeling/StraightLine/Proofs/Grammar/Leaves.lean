import StraightLine.Proofs.Grammar.Acceptance
import StraightLine.Proofs.Lexeme.Sided
import StraightLine.Proofs.Lexeme.Shape
import StraightLine.Proofs.Program.Evaluation

/-!
# Leaves of phrases — what the lexer makes of a derivation

The leaves of a tree are its names and numbers from left to right. `Agree`
compares them with those that the lexer finds: it finds them all in their
order, and more just where a float without digits on one side of its point has
an exponent. `Tells` says of a phrase that this is so wherever the phrase
stands.

Phrases that stand one behind the other tell their leaves together
(`Tells.append`), so there is one case for each constructor of the grammar
(`tells_of_derives`).
-/

namespace StraightLine

/-! ## Leaves of trees -/

namespace Expr

/-- The leaves of an expression. -/
def leaves : Expr → List Leaf
  | int _ => [.number]
  | float _ => [.number]
  | identifier name => [.name name]
  | binary left _ right => left.leaves ++ right.leaves

/-- How many integers and floats there are. -/
def numbers : Expr → Nat
  | int _ => 1
  | float _ => 1
  | identifier _ => 0
  | binary left _ right => left.numbers + right.numbers

theorem filterMap_leaves (e : Expr) : e.leaves.filterMap Leaf.name? = e.names := by
  induction e with
  | int _ => rfl
  | float _ => rfl
  | identifier _ => rfl
  | binary left op right ihl ihr => rw [leaves, List.filterMap_append, ihl, ihr, names]

theorem countP_leaves (e : Expr) : e.leaves.countP Leaf.isNumber = e.numbers := by
  induction e with
  | int _ => rfl
  | float _ => rfl
  | identifier _ => rfl
  | binary left op right ihl ihr => rw [leaves, List.countP_append, ihl, ihr, numbers]

end Expr

/-- The leaves of an assignment, the target first. -/
def Stmt.leaves (s : Stmt) : List Leaf := .name s.target :: s.value.leaves

namespace Program

/-- The leaves of a program. -/
def leaves (p : Program) : List Leaf := p.statements.flatMap Stmt.leaves

/-- How many integers and floats there are. -/
def numbers (p : Program) : Nat := p.statements.foldr (fun s n => s.value.numbers + n) 0

theorem filterMap_leaves (p : Program) : p.leaves.filterMap Leaf.name? = p.names := by
  obtain ⟨sts⟩ := p
  simp only [leaves, names]
  induction sts with
  | nil => rfl
  | cons s sts ih =>
    rw [List.flatMap_cons, List.filterMap_append, ih, List.flatMap_cons]
    exact congrArg (s.target :: · ++ _) s.value.filterMap_leaves

theorem countP_leaves (p : Program) : p.leaves.countP Leaf.isNumber = p.numbers := by
  obtain ⟨sts⟩ := p
  simp only [leaves, numbers]
  induction sts with
  | nil => rfl
  | cons s sts ih =>
    rw [List.flatMap_cons, List.countP_append, ih, List.foldr_cons]
    exact congrArg (· + _) s.value.countP_leaves

end Program

namespace Grammar

open Text

variable {E F : Text → Prop} {s t l r : Text} {ls ls' found : List Leaf} {n : Nat} {p : Phrase}
  {e : Expr}

/-! ## What phrases tell -/

/-- **What is found in a text is a tree's**, in front of `r`: the leaves of the
tree are found in their order, and between them only what comes loose from a
float. -/
structure Agree (s r : Text) (found leaves : List Leaf) : Prop where
  sublist : leaves.Sublist found
  sided : ∀ ahead holds, Loosens ahead holds →
    (Sided ahead (s ++ r) ↔ found.countP holds = leaves.countP holds ∧ Sided ahead r)

namespace Agree

/-- Nothing comes loose from a text without points. -/
theorem of_pointless (hs : '.' ∉ s)
    (hr : r.head? ≠ some '.' ∨ ∀ c, s.getLast? = some c → c.isDigit = false) :
    Agree s r ls ls where
  sublist := .refl ls
  sided ahead holds _ := by rw [sided_append_iff hs hr, and_iff_right rfl]

theorem of_blank {b : Text} (hb : b.Blank) : Agree b r [] [] := by
  refine of_pointless (fun hdot => absurd (hb '.' hdot) (by decide)) (.inr fun c hc => ?_)
  have hblank := hb c (List.mem_of_getLast? hc)
  by_contra hd
  rw [isBlank_eq_false_of_isDigit (by simpa using hd)] at hblank
  cases hblank

/-- **One text behind another.** As no leaf of a tree is lost, what is found too
much in one of them is too much in both. -/
theorem append (hs : Agree s (t ++ r) found ls) (ht : Agree t r found' ls') :
    Agree (s ++ t) r (found ++ found') (ls ++ ls') where
  sublist := hs.sublist.append ht.sublist
  sided ahead holds hl := by
    have hle := hs.sublist.countP_le (p := holds)
    have hle' := ht.sublist.countP_le (p := holds)
    rw [List.append_assoc, hs.sided ahead holds hl, ht.sided ahead holds hl, List.countP_append,
      List.countP_append, ← and_assoc]
    exact and_congr_left fun _ => ⟨fun h => by omega, fun h => by omega⟩

/-- At the end of a text, the condition is all there is to it. -/
theorem countP_eq_iff {ahead : Text → Bool} {holds : Leaf → Bool} (h : Agree s [] found ls)
    (hl : Loosens ahead holds) : found.countP holds = ls.countP holds ↔ Sided ahead s := by
  have hsided := h.sided ahead holds hl
  rw [List.append_nil] at hsided
  rw [hsided, and_iff_left sided_nil]

theorem names_eq_iff (h : Agree s [] found ls) :
    found.filterMap Leaf.name? = ls.filterMap Leaf.name? ↔ Sided exponentAhead s := by
  have hcount : ∀ ls : List Leaf, (ls.filterMap Leaf.name?).length = ls.countP Leaf.isName :=
    fun _ => List.length_filterMap_eq_countP
  rw [← h.countP_eq_iff .name]
  constructor
  · intro heq
    rw [← hcount, ← hcount, heq]
  · intro heq
    rw [← hcount, ← hcount] at heq
    exact ((h.sublist.filterMap Leaf.name?).eq_of_length heq.symm).symm

end Agree

/-- **A phrase tells its leaves** in front of every text of a kind: they are
found there, in front of those that the text yields. -/
def Tells (E : Text → Prop) (s : Text) (leaves : List Leaf) : Prop :=
  ∀ r ls, E r → Yields r ls →
    ∃ found, Yields (s ++ r) (found ++ ls) ∧ Agree s r found leaves

namespace Tells

theorem mono (h : Tells E s ls) (hE : ∀ r, F r → E r) : Tells F s ls :=
  fun r rest hr => h r rest (hE r hr)

/-- **One phrase behind another.** -/
theorem append (hs : Tells E s ls) (ht : Tells F t ls') (h : ∀ r, F r → E (t ++ r)) :
    Tells F (s ++ t) (ls ++ ls') := by
  intro r rest hr hy
  obtain ⟨found', hfound', hagree'⟩ := ht r rest hr hy
  obtain ⟨found, hfound, hagree⟩ := hs (t ++ r) (found' ++ rest) (h r hr) hfound'
  refine ⟨found ++ found', ?_, hagree.append hagree'⟩
  rwa [List.append_assoc, List.append_assoc]

/-- **Blanks around a phrase** tell nothing. -/
theorem spaced (hl : Tells E l ls) (hE : ∀ {b r : Text}, b.Blank → E r → E (b ++ r))
    (hs : Spaced l s) : Tells E s ls := by
  obtain @⟨b, b', hb, hb'⟩ := hs
  have hblank : ∀ {b : Text} {G : Text → Prop}, b.Blank → Tells G b [] := fun hb r rest _ hy =>
    ⟨[], hy.blank hb, .of_blank hb⟩
  have hinner := hl.append (hblank hb') fun r hr => hE hb' hr
  have h := (hblank (G := fun _ => True) hb).append hinner fun _ _ => trivial
  rwa [List.append_nil, List.nil_append] at h

end Tells

/-! ## Lexemes and symbols -/

theorem isJoint_eq_false_of_isBlank {c : Char} (hc : isBlank c = true) :
    Yields.isJoint c = false :=
  Yields.isJoint_eq_false_of (by decide) (by decide) hc

/-- A spaced text makes no symbol longer when its own first character does
not. -/
theorem startsOutside_spaced {c : Char} (hs : Spaced l s) (hl : l.head? = some c)
    (hc : Yields.isJoint c = false) (r : Text) : StartsOutside Yields.isJoint (s ++ r) := by
  obtain @⟨b, b', hb, -⟩ := hs
  obtain ⟨l, rfl⟩ := List.head?_eq_some_iff.mp hl
  cases b with
  | nil => exact startsOutside_cons hc
  | cons d b => exact startsOutside_cons (isJoint_eq_false_of_isBlank (hb d List.mem_cons_self))

theorem outside_blank {b : Text} (hb : b.Blank) (hr : StartsOutside Yields.isJoint r) :
    StartsOutside Yields.isJoint (b ++ r) := by
  cases b with
  | nil => exact hr
  | cons d b => exact startsOutside_cons (isJoint_eq_false_of_isBlank (hb d List.mem_cons_self))

theorem ends_blank {b : Text} (hb : b.Blank) (hr : Ends r) : Ends (b ++ r) :=
  ⟨hr.breaks.blank_append hb, outside_blank hb hr.outside⟩

/-- A sign that no lexeme goes on with ends what stands in front of it. -/
theorem ends_of_spaced {c : Char} (hs : Spaced l s) (hl : l.head? = some c)
    (hc : isNameChar c = false ∧ c ≠ '.' ∧ Yields.isJoint c = false) (r : Text) :
    Ends (s ++ r) :=
  ⟨hs.breaks_append hl hc.1 hc.2.1 r, startsOutside_spaced hs hl hc.2.2 r⟩

/-- What always yields the same tells it, when it has no points. -/
theorem Tells.of_yields (hs : '.' ∉ s)
    (hE : ∀ {r}, E r → r.head? ≠ some '.' ∨ ∀ c, s.getLast? = some c → c.isDigit = false)
    (h : ∀ {r : Text} {rest : List Leaf}, E r → Yields r rest → Yields (s ++ r) (ls ++ rest)) :
    Tells E s ls :=
  fun _ _ hr hy => ⟨ls, h hr hy, .of_pointless hs (hE hr)⟩

theorem Breaks.head?_ne_point (hr : r.Breaks) : r.head? ≠ some '.' := fun h => (hr '.' h).2 rfl

theorem tells_name (hl : FreeName l) : Tells Breaks l [.name l] :=
  .of_yields hl.isName.point_not_mem (fun hr => .inl (Breaks.head?_ne_point hr))
    (Yields.name hl.isName hl.notKeyword)

theorem tells_integer {v : Int} (hl : IntegerLexeme l v) : Tells Breaks l [.number] :=
  .of_yields hl.point_not_mem (fun hr => .inl (Breaks.head?_ne_point hr))
    (Yields.integer_lexeme hl)

theorem tells_float (hl : FloatLexeme l) : Tells Ends l [.number] := by
  intro r rest hr hy
  obtain ⟨tail, htail, hloose⟩ := Yields.float_lexeme hl hr hy
  refine ⟨.number :: tail, htail, List.singleton_sublist.mpr List.mem_cons_self, ?_⟩
  intro ahead holds h
  rw [hloose ahead holds h, List.countP_cons, List.countP_singleton]
  exact and_congr_left fun _ => ⟨fun h => by omega, fun h => by omega⟩

/-- **Symbols** tell nothing. -/
theorem tells_symbol (sign : Symbol) (hs : sign ∈ Yields.signs) (hdot : sign ≠ .dot) :
    Tells (StartsOutside Yields.isJoint) sign.spelling.toList [] := by
  have hall : ∀ sign ∈ Yields.signs, sign ≠ .dot → '.' ∉ sign.spelling.toList ∧
      sign.spelling.toList.getLast?.all (fun c => !c.isDigit) = true := by decide +kernel
  obtain ⟨hpoint, hlast⟩ := hall sign hs hdot
  refine .of_yields hpoint (fun _ => .inr fun c hc => ?_) fun hr hy => ?_
  · rw [hc] at hlast
    simpa using hlast
  · by_cases hm : sign = .minus
    · subst hm
      exact hy.minus hr
    · exact Yields.plain_symbol hs hm hr hy

/-- Nor do operators. -/
theorem tells_operator (op : BinaryOp) :
    Tells (StartsOutside Yields.isJoint) op.symbol.toList [] := by
  cases op with
  | add => exact tells_symbol .plus (by decide) (by decide)
  | sub => exact tells_symbol .minus (by decide) (by decide)
  | mult => exact tells_symbol .star (by decide) (by decide)
  | div => exact tells_symbol .slash (by decide) (by decide)
  | mod => exact tells_symbol .percent (by decide) (by decide)

/-- Nor do assignment signs. -/
theorem tells_assignment (op : AssignOp) :
    Tells (StartsOutside Yields.isJoint) op.symbol.toList [] := by
  cases op with
  | assign => exact tells_symbol .equal (by decide) (by decide)
  | addAssign => exact tells_symbol .plusEqual (by decide) (by decide)
  | subAssign => exact tells_symbol .minusEqual (by decide) (by decide)
  | multAssign => exact tells_symbol .starEqual (by decide) (by decide)
  | divAssign => exact tells_symbol .slashEqual (by decide) (by decide)
  | modAssign => exact tells_symbol .percentEqual (by decide) (by decide)

/-! ## Phrases -/

theorem startsOutside_of_plainChars (hs : Spaced l s) (hl : l.PlainChars) (hne : l ≠ [])
    (r : Text) : StartsOutside Yields.isJoint (s ++ r) := by
  obtain ⟨c, u, rfl⟩ := List.exists_cons_of_ne_nil hne
  exact startsOutside_spaced hs rfl
    (Yields.isJoint_eq_false_of (by decide) (by decide) (hl c List.mem_cons_self)) r

/-- **A phrase makes no symbol longer** that stands in front of it. -/
theorem startsOutside_of_derives (h : Derives p n s e) (r : Text) :
    StartsOutside Yields.isJoint (s ++ r) := by
  induction h generalizing r with
  | float hl hs =>
    obtain ⟨c, u, rfl, -⟩ := hl.exists_head
    exact startsOutside_of_plainChars hs hl.plainChars (List.cons_ne_nil c u) r
  | int hl _ hs =>
    obtain ⟨c, u, rfl, -⟩ := hl.exists_head
    exact startsOutside_of_plainChars hs hl.plainChars (List.cons_ne_nil c u) r
  | name hl hs =>
    obtain ⟨c, u, rfl, -⟩ := hl.isName.exists_head
    exact startsOutside_of_plainChars hs hl.isName.plainChars (List.cons_ne_nil c u) r
  | nested ho _ _ _ =>
    rw [List.append_assoc]
    exact startsOutside_spaced ho rfl (by decide) _
  | term _ _ _ ih _ =>
    rw [List.append_assoc]
    exact ih _
  | expr _ _ _ ih _ =>
    rw [List.append_assoc]
    exact ih _

/-- An operator ends the operand in front of it. -/
theorem ends_of_operator {op : BinaryOp} (hs : Spaced op.symbol.toList s) (r : Text) :
    Ends (s ++ r) := by
  cases op with
  | add => exact ends_of_spaced hs (c := '+') rfl (by decide) r
  | sub => exact ends_of_spaced hs (c := '-') rfl (by decide) r
  | mult => exact ends_of_spaced hs (c := '*') rfl (by decide) r
  | div => exact ends_of_spaced hs (c := '/') rfl (by decide) r
  | mod => exact ends_of_spaced hs (c := '%') rfl (by decide) r

/-- **Chains** tell the leaves of their trees. -/
theorem Tells.chain {head : Expr} {steps : List Step} (hhead : Tells Ends s head.leaves)
    (hsigns : ∀ x ∈ steps, Spaced x.op.symbol.toList x.sign)
    (hsteps : ∀ x ∈ steps, Tells Ends x.operand x.right.leaves)
    (hstart : ∀ x ∈ steps, ∀ r, StartsOutside Yields.isJoint (x.operand ++ r)) :
    Tells Ends (s ++ steps.flatMap Step.text) (steps.foldl Step.extend head).leaves := by
  -- the tree so far is the head of the rest of the chain
  induction steps generalizing s head with
  | nil => rwa [List.flatMap_nil, List.append_nil]
  | cons x steps ih =>
    obtain ⟨hsign, hsigns⟩ := List.forall_mem_cons.mp hsigns
    obtain ⟨hright, hsteps⟩ := List.forall_mem_cons.mp hsteps
    obtain ⟨hx, hstart⟩ := List.forall_mem_cons.mp hstart
    have hstep : Tells Ends x.text x.right.leaves :=
      ((tells_operator x.op).spaced outside_blank hsign).append hright fun r _ => hx r
    have hextend : Tells Ends (s ++ x.text) (x.extend head).leaves :=
      hhead.append hstep fun r _ => by
        rw [Step.text, List.append_assoc]
        exact ends_of_operator hsign _
    rw [List.flatMap_cons, ← List.append_assoc, List.foldl_cons]
    exact ih hextend hsigns hsteps hstart

/-- **Phrases tell the leaves of their trees.** -/
theorem tells_of_derives (h : Derives p n s e) : Tells Ends s e.leaves := by
  induction h with
  | float hl hs => exact (tells_float hl).spaced ends_blank hs
  | int hl _ hs =>
    exact ((tells_integer hl).spaced (fun hb hr => hr.blank_append hb) hs).mono
      fun _ hr => hr.breaks
  | name hl hs =>
    exact ((tells_name hl).spaced (fun hb hr => hr.blank_append hb) hs).mono fun _ hr => hr.breaks
  | nested ho he hc ih =>
    have hopen := (tells_symbol .leftParen (by decide) (by decide)).spaced outside_blank ho
    have hclose := (tells_symbol .rightParen (by decide) (by decide)).spaced outside_blank hc
    have hinner := ih.append (hclose.mono (F := Ends) fun _ hr => hr.outside) fun r _ =>
      ends_of_spaced hc (c := ')') rfl (by decide) r
    rw [List.append_nil] at hinner
    refine hopen.append hinner fun r _ => ?_
    rw [List.append_assoc]
    exact startsOutside_of_derives he _
  | term _ hsigns hsteps ih ihs =>
    exact ih.chain (fun x hx => (hsigns x hx).2) ihs fun x hx =>
      startsOutside_of_derives (hsteps x hx)
  | expr _ hsigns hsteps ih ihs =>
    exact ih.chain (fun x hx => (hsigns x hx).2) ihs fun x hx =>
      startsOutside_of_derives (hsteps x hx)

/-! ## Statements and programs -/

/-- A statement starts with its target. -/
theorem startsOutside_of_derivesStmt {st : Stmt} (h : DerivesStmt n s st) (r : Text) :
    StartsOutside Yields.isJoint (s ++ r) := by
  obtain ⟨hx, hs, -, -, -⟩ := h
  obtain ⟨c, u, rfl, -⟩ := hx.isName.exists_head
  rw [List.append_assoc]
  exact startsOutside_of_plainChars hs hx.isName.plainChars (List.cons_ne_nil c u) _

/-- **Statements** tell their target and the leaves of their value. -/
theorem tells_of_derivesStmt {st : Stmt} (h : DerivesStmt n s st) :
    Tells (StartsOutside Yields.isJoint) s st.leaves := by
  obtain ⟨hx, hs₁, hs₂, he, hs₄⟩ := h
  have htarget := (tells_name hx).spaced (fun hb hr => hr.blank_append hb) hs₁
  have hassign := (tells_assignment _).spaced outside_blank hs₂
  have hsemi := (tells_symbol .semicolon (by decide) (by decide)).spaced outside_blank hs₄
  have hvalue := (tells_of_derives he).append hsemi fun r _ =>
    ends_of_spaced hs₄ (c := ';') rfl (by decide) r
  rw [List.append_nil] at hvalue
  have hright := hassign.append hvalue fun r _ => by
    rw [List.append_assoc]
    exact startsOutside_of_derives he _
  refine htarget.append hright fun r _ => ?_
  rw [List.append_assoc]
  exact breaks_of_assignment hs₂ _

theorem startsOutside_of_derivesProgram {sts : List Stmt} (h : DerivesProgram n s sts) :
    StartsOutside Yields.isJoint s := by
  cases h with
  | done hs =>
    have h := outside_blank hs (r := []) (by simp [StartsOutside])
    rwa [List.append_nil] at h
  | step hst _ => exact startsOutside_of_derivesStmt hst _

/-- **Programs**: the lexer finds the leaves of the statements. -/
theorem yields_of_derivesProgram {sts : List Stmt} (h : DerivesProgram n s sts) :
    ∃ found, Yields s found ∧ Agree s [] found (sts.flatMap Stmt.leaves) := by
  induction h with
  | done hs => exact ⟨[], .done hs, .of_blank hs⟩
  | @step s rest st sts hst hsts ih =>
    obtain ⟨found', hfound', hagree'⟩ := ih
    obtain ⟨found, hfound, hagree⟩ :=
      tells_of_derivesStmt hst _ _ (startsOutside_of_derivesProgram hsts) hfound'
    rw [← List.append_nil rest] at hagree
    exact ⟨found ++ found', hfound, hagree.append hagree'⟩

end Grammar

end StraightLine

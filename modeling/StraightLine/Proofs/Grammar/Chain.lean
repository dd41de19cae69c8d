import StraightLine.Grammar.Basic
import StraightLine.Proofs.Grammar.Derivation
import StraightLine.Proofs.Parser.Reads
import StraightLine.Proofs.Program.Height

/-!
# Chains of operators — operands joined to the left

`leftAssoc` reads one operand and then as many operators with right operands
as it can. `chain_eq_ok` says what one round can do; that a chain of the
grammar is read to its end, and nothing else is, follows by induction on the
rounds and on the steps (`reads_leftAssoc`).

The bound on the rounds is never what ends a chain: each step makes the tree
higher, so a chain that ran out of rounds would have exceeded the limit on
the height before.
-/

namespace StraightLine

namespace Grammar

open StraightLine.Parser

variable {operand : Parser Expr} {sign : Parser BinaryOp} {ops bad : List BinaryOp}
variable {D : Text → Expr → Prop} {tree e : Expr} {n depth : Nat} {t r rest : Text}

/-! ## Operators -/

/-- An operator starts with a character that is no blank and breaks a
lexeme. -/
theorem exists_head_symbol (op : BinaryOp) :
    ∃ c, op.symbol.toList.head? = some c ∧ isBlank c = false ∧
      Text.isNameChar c = false ∧ c ≠ '.' := by
  cases op with
  | add => exact ⟨'+', rfl, by decide, by decide, by decide⟩
  | sub => exact ⟨'-', rfl, by decide, by decide, by decide⟩
  | mult => exact ⟨'*', rfl, by decide, by decide, by decide⟩
  | div => exact ⟨'/', rfl, by decide, by decide, by decide⟩
  | mod => exact ⟨'%', rfl, by decide, by decide, by decide⟩

/-- Operators are told apart by their first character. -/
theorem symbol_head_injective {op op' : BinaryOp}
    (h : op.symbol.toList.head? = op'.symbol.toList.head?) : op = op' := by
  revert h
  cases op <;> cases op' <;> decide

theorem reads_operator (hops : ops.Nodup) :
    Reads (operator ops) (fun s op => op ∈ ops ∧ Text.Spaced op.symbol.toList s)
      (fun _ => True) := by
  refine reads_symbols hops (fun op _ => ?_) (fun _ _ _ _ h => symbol_head_injective h) _
  obtain ⟨c, hc, hb, -⟩ := exists_head_symbol op
  exact ⟨c, hc, hb⟩

/-- **A text at which an expression stops**: no lexeme goes on in it, and
behind its blanks stands none of the operators. -/
structure Stops (ops : List BinaryOp) (r : Text) : Prop where
  breaks : r.Breaks
  noOperator : ∀ op ∈ ops, r.trimStart.head? ≠ op.symbol.toList.head?

/-- Where an expression stops, no operator is read. -/
theorem operator_error (hops : ops.Nodup) (h : Stops ops r) :
    ∃ e, operator ops r.trimStart = .error e := by
  rcases hop : operator ops r.trimStart with e | ⟨op, rest⟩
  · exact ⟨e, rfl⟩
  · obtain ⟨s, hs, hmem, hsp⟩ := (reads_operator hops).sound hop
    obtain ⟨c, hc, hb, -⟩ := exists_head_symbol op
    have hhead := hsp.head?_trimStart hc hb rest
    rw [← hs, Text.trimStart_trimStart] at hhead
    exact absurd (hhead.trans hc.symm) (h.noOperator op hmem)

/-- An operator stops the expressions that do not know it. -/
theorem Stops.of_sign {op : BinaryOp} {s : Text} (hop : op ∉ bad)
    (hs : Text.Spaced op.symbol.toList s) (t : Text) : Stops bad (s ++ t) := by
  obtain ⟨c, hc, hb, hname, hdot⟩ := exists_head_symbol op
  refine ⟨hs.breaks_append hc hname hdot t, fun op' hop' h => ?_⟩
  rw [hs.head?_trimStart hc hb, ← hc] at h
  exact hop (symbol_head_injective h ▸ hop')

/-! ## One round -/

/-- **What a round can do**: stop in front of the rest, or take an operator
and an operand and go on. -/
theorem chain_eq_ok (h : chain operand sign n tree depth t = .ok (e, rest)) :
    (e = tree ∧ rest = t) ∨
      ∃ m op ahead right t', n = m + 1 ∧ sign t = .ok (op, ahead) ∧
        operand ahead = .ok (right, t') ∧ max depth right.depth + 1 ≤ maxHeight ∧
        chain operand sign m (.binary tree op right) (max depth right.depth + 1) t' =
          .ok (e, rest) := by
  have hstop : ∀ {t' : Text}, (Except.ok (tree, t') : Except ParseError _) = .ok (e, rest) →
      e = tree ∧ rest = t' := by
    intro t' h
    obtain ⟨rfl, rfl⟩ := Prod.mk.inj (Except.ok.inj h)
    exact ⟨rfl, rfl⟩
  cases n with
  | zero => exact .inl (hstop h)
  | succ m =>
    simp only [chain] at h
    split at h
    · exact .inl (hstop h)
    · rename_i op ahead hop
      split at h
      · cases h
      · exact .inl (hstop h)
      · rename_i right t' hright
        split at h
        · cases h
        · rename_i hdepth
          exact .inr ⟨m, op, ahead, right, t', rfl, hop, hright, by omega, h⟩

/-- A chain stops where no operator stands, however many rounds are left. -/
theorem chain_of_error (h : ∃ e, sign t = .error e) :
    chain operand sign n tree depth t = .ok (tree, t) := by
  obtain ⟨e, he⟩ := h
  cases n with
  | zero => rfl
  | succ n => simp only [chain, he]

/-- And takes an operator with its operand where they stand. -/
theorem chain_step {op : BinaryOp} {right : Expr} {ahead : Text}
    (hop : sign t = .ok (op, ahead)) (hright : operand ahead = .ok (right, rest))
    (hdepth : max depth right.depth + 1 ≤ maxHeight) :
    chain operand sign (n + 1) tree depth t =
      chain operand sign n (.binary tree op right) (max depth right.depth + 1) rest := by
  simp only [chain, hop, hright]
  rw [if_neg (by omega)]

/-! ## All rounds -/

/-- Operators of a list with their right operands, as the grammar has them. -/
structure IsChain (ops : List BinaryOp) (D : Text → Expr → Prop) (steps : List Step) : Prop where
  signs : ∀ x ∈ steps, x.op ∈ ops ∧ Text.Spaced x.op.symbol.toList x.sign
  operands : ∀ x ∈ steps, D x.operand x.right

theorem isChain_nil : IsChain ops D [] := ⟨by simp, by simp⟩

theorem isChain_cons_iff {x : Step} {steps : List Step} :
    IsChain ops D (x :: steps) ↔
      (x.op ∈ ops ∧ Text.Spaced x.op.symbol.toList x.sign) ∧ D x.operand x.right ∧
        IsChain ops D steps := by
  constructor
  · rintro ⟨hs, ho⟩
    rw [List.forall_mem_cons] at hs ho
    exact ⟨hs.1, ho.1, hs.2, ho.2⟩
  · rintro ⟨hx, hd, hs, ho⟩
    exact ⟨List.forall_mem_cons.mpr ⟨hx, hs⟩, List.forall_mem_cons.mpr ⟨hd, ho⟩⟩

/-- A chain makes a tree no lower, and its operands are no higher. -/
theorem height_le_foldl (tree : Expr) (steps : List Step) :
    tree.height ≤ (steps.foldl Step.extend tree).height ∧
      ∀ x ∈ steps, x.right.height ≤ (steps.foldl Step.extend tree).height := by
  induction steps generalizing tree with
  | nil => simp
  | cons x steps ih =>
    obtain ⟨h₁, h₂⟩ := ih (x.extend tree)
    have hx : max tree.height x.right.height + 1 ≤
        (steps.foldl Step.extend (x.extend tree)).height := h₁
    rw [List.foldl_cons]
    refine ⟨by omega, fun y hy => ?_⟩
    rcases List.mem_cons.mp hy with rfl | hy
    · omega
    · exact h₂ y hy

/-- Where a chain begins, the operand before it stops. -/
theorem Stops.of_chain {steps : List Step} (hdisj : ∀ op ∈ ops, op ∉ bad)
    (hsteps : IsChain ops D steps) (hr : Stops (ops ++ bad) r) :
    Stops bad (steps.flatMap Step.text ++ r) := by
  cases steps with
  | nil => exact ⟨hr.breaks, fun op hop => hr.noOperator op (List.mem_append_right _ hop)⟩
  | cons x steps =>
    obtain ⟨⟨hop, hs⟩, -⟩ := isChain_cons_iff.mp hsteps
    rw [List.flatMap_cons, Step.text, List.append_assoc, List.append_assoc]
    exact Stops.of_sign (hdisj _ hop) hs _

/-- **What a chain takes is a chain.** -/
theorem chain_sound (hops : ops.Nodup) (h : Reads operand D (Stops bad))
    (hchain : chain operand (operator ops) n tree depth t = .ok (e, rest))
    (hdepth : depth = tree.height) (hle : tree.height ≤ maxHeight) (ht : t.trimStart = t) :
    rest.trimStart = rest ∧ e.height ≤ maxHeight ∧
      ∃ steps, IsChain ops D steps ∧ t = steps.flatMap Step.text ++ rest ∧
        e = steps.foldl Step.extend tree := by
  -- by induction on the rounds; the tree so far is the head of a longer chain
  induction n generalizing tree depth t with
  | zero =>
    obtain ⟨rfl, rfl⟩ := Prod.mk.inj (Except.ok.inj hchain)
    exact ⟨ht, hle, [], isChain_nil, rfl, rfl⟩
  | succ n ih =>
    rcases chain_eq_ok hchain with
      ⟨rfl, rfl⟩ | ⟨m, op, ahead, right, t', hm, hop, hright, hmax, hgo⟩
    · exact ⟨ht, hle, [], isChain_nil, rfl, rfl⟩
    · obtain rfl : n = m := by omega
      obtain ⟨s', hsign, hmem, hsp⟩ := (reads_operator hops).sound hop
      obtain ⟨s, hs, hd⟩ := h.sound hright
      rw [right.depth_eq_height, hdepth] at hmax hgo
      obtain ⟨hrest, hheight, steps, hsteps, heq, he⟩ :=
        ih hgo rfl hmax (h.trimmed hright)
      refine ⟨hrest, hheight, ⟨s', op, s, right⟩ :: steps,
        isChain_cons_iff.mpr ⟨⟨hmem, hsp⟩, hd, hsteps⟩, ?_, he⟩
      rw [List.flatMap_cons, Step.text, hsign, hs, heq]
      simp only [List.append_assoc]

/-- **A chain is taken to its end**, where it keeps the limit. The tree so
far and the rounds left together always exceed the limit. -/
theorem chain_complete (hops : ops.Nodup) (hdisj : ∀ op ∈ ops, op ∉ bad)
    (h : Reads operand D (Stops bad)) {steps : List Step} (hsteps : IsChain ops D steps)
    (hr : Stops (ops ++ bad) r) (hle : (steps.foldl Step.extend tree).height ≤ maxHeight)
    (hn : maxHeight < n + tree.height) :
    chain operand (operator ops) n tree tree.height
        (Text.trimStart (steps.flatMap Step.text ++ r)) =
      .ok (steps.foldl Step.extend tree, r.trimStart) := by
  -- a step takes one round and makes the tree higher by one at least, so `hn`
  -- is kept and a round is left for every step
  induction steps generalizing n tree with
  | nil =>
    refine chain_of_error (operator_error hops ⟨hr.breaks, fun op hop => ?_⟩)
    exact hr.noOperator op (List.mem_append_left _ hop)
  | cons x steps ih =>
    obtain ⟨⟨hop, hs⟩, hd, hrest⟩ := isChain_cons_iff.mp hsteps
    have hx := (height_le_foldl (x.extend tree) steps).1
    rw [List.foldl_cons] at hle
    have hheight : (x.extend tree).height = max tree.height x.right.height + 1 := rfl
    obtain ⟨n, rfl⟩ : ∃ m, n = m + 1 := ⟨n - 1, by omega⟩
    have hsign : operator ops (Text.trimStart ((x :: steps).flatMap Step.text ++ r)) =
        .ok (x.op, (Text.trimStart (x.operand ++ (steps.flatMap Step.text ++ r)))) := by
      rw [(reads_operator hops).skips, List.flatMap_cons, Step.text, List.append_assoc,
        List.append_assoc, (reads_operator hops).complete ⟨hop, hs⟩ trivial]
    have hright : operand (Text.trimStart (x.operand ++ (steps.flatMap Step.text ++ r))) =
        .ok (x.right, (Text.trimStart (steps.flatMap Step.text ++ r))) := by
      rw [h.skips, h.complete hd (Stops.of_chain hdisj hrest hr)]
    rw [chain_step hsign hright (by rw [x.right.depth_eq_height]; omega),
      x.right.depth_eq_height]
    exact ih hrest hle (by rw [← Step.extend, hheight]; omega)

/-- Operands joined by operators, within the limit on the height. -/
def Joined (ops : List BinaryOp) (D : Text → Expr → Prop) (s : Text) (e : Expr) : Prop :=
  e.height ≤ maxHeight ∧ ∃ s₀ head steps, D s₀ head ∧ IsChain ops D steps ∧
    s = s₀ ++ steps.flatMap Step.text ∧ e = steps.foldl Step.extend head

/-- **Operands joined to the left are read as the grammar has them.** -/
theorem reads_leftAssoc (hops : ops.Nodup) (hdisj : ∀ op ∈ ops, op ∉ bad)
    (h : Reads operand D (Stops bad)) (hD : ∀ {s e}, D s e → e.height ≤ maxHeight) :
    Reads (leftAssoc operand ops) (Joined ops D) (Stops (ops ++ bad)) := by
  have key : ∀ {t rest e}, Grammar.leftAssoc operand ops t = .ok (e, rest) →
      rest.trimStart = rest ∧ ∃ s, t = s ++ rest ∧ Joined ops D s e := by
    intro t rest e ht
    rw [Grammar.leftAssoc] at ht
    split at ht
    · cases ht
    · rename_i head t' hhead
      obtain ⟨s₀, hs₀, hd⟩ := h.sound hhead
      rw [head.depth_eq_height] at ht
      obtain ⟨hrest, hheight, steps, hsteps, heq, he⟩ :=
        chain_sound hops h ht rfl (hD hd) (h.trimmed hhead)
      refine ⟨hrest, s₀ ++ steps.flatMap Step.text, ?_, hheight, s₀, head, steps, hd, hsteps,
        rfl, he⟩
      rw [hs₀, heq, List.append_assoc]
  exact
    { sound := fun ht => (key ht).2
      trimmed := fun ht => (key ht).1
      complete := by
        rintro s r e ⟨hheight, s₀, head, steps, hd, hsteps, rfl, rfl⟩ hr
        have hpos := head.height_pos
        rw [Grammar.leftAssoc, List.append_assoc,
          h.complete hd (Stops.of_chain hdisj hsteps hr)]
        simp only [head.depth_eq_height]
        exact chain_complete hops hdisj h hsteps hr hheight (by omega)
      skips := fun t => by simp only [Grammar.leftAssoc, h.skips] }

end Grammar

end StraightLine

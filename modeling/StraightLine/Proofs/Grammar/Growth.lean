import StraightLine.Grammar.Basic
import StraightLine.Proofs.Program.Walk

/-!
# Growth — a tree that grows to the left, and the depth kept beside it

`leftAssoc` joins operands in a loop with three variables: the tree so far,
its depth and the text ahead. `round` is one round of that loop, and a chain
is made of such rounds (`chain_succ`). The depth is never asked of the tree
again: each round computes it from the one kept and that of the right operand.
It is nevertheless the depth of the tree after every round (`Kept.of_next`),
and so wherever the loop comes to (`Kept.of_reaches`).

A round makes the kept depth greater and keeps the limit, so that the loop
ends, and a chain has rounds enough to follow it up to there
(`exists_last`). **`depths_agree`** joins this to the walk that finds the depth
of a tree.
-/

namespace StraightLine

namespace Grammar

open StateTransition

/-- **Where the joining of operands stands**: the tree so far, the depth kept
for it and the text ahead. -/
structure Growth where
  tree : Expr
  depth : Nat
  ahead : Text
  deriving DecidableEq, Repr

namespace Growth

variable (operand : Parser Expr) (sign : Parser BinaryOp)

/-- **One round**: the result, where the loop is left, or where it goes on. -/
def round (s : Growth) : Except ParseError (Expr × Text) ⊕ Growth :=
  match sign s.ahead with
  | .error _ => .inl (.ok (s.tree, s.ahead))
  | .ok (op, ahead) =>
    match operand ahead with
    | .error (.tooDeep limit) => .inl (.error (.tooDeep limit))
    -- any other failure leaves the operator unread
    | .error _ => .inl (.ok (s.tree, s.ahead))
    | .ok (right, rest) =>
      let depth := max s.depth right.depth + 1
      if maxHeight < depth then .inl (.error (.tooDeep maxHeight))
      else .inr ⟨.binary s.tree op right, depth, rest⟩

/-- Where the loop goes on, unless it is left. -/
def next (s : Growth) : Option Growth := (round operand sign s).getRight?

variable {operand : Parser Expr} {sign : Parser BinaryOp} {s s' : Growth} {n : Nat}

/-! ## One round -/

/-- **A chain is a round and the chain behind it.** -/
theorem chain_succ (n : Nat) (s : Growth) :
    chain operand sign (n + 1) s.tree s.depth s.ahead =
      match round operand sign s with
      | .inl result => result
      | .inr s' => chain operand sign n s'.tree s'.depth s'.ahead := by
  rcases hop : sign s.ahead with e | ⟨op, ahead⟩
  · simp only [chain, round, hop]
  · rcases hright : operand ahead with e | ⟨right, rest⟩
    · -- only a failure for a limit is handed on
      cases e <;> simp only [chain, round, hop, hright]
    · by_cases hover : maxHeight < max s.depth right.depth + 1
      · simp only [chain, round, hop, hright, if_pos hover]
      · simp only [chain, round, hop, hright, if_neg hover]

/-- **What a round that goes on has done**: joined an operand to the tree,
within the limit. -/
theorem next_eq_some (h : next operand sign s = some s') :
    ∃ op ahead right, sign s.ahead = .ok (op, ahead) ∧ operand ahead = .ok (right, s'.ahead) ∧
      s'.tree = .binary s.tree op right ∧ s'.depth = max s.depth right.depth + 1 ∧
      s'.depth ≤ maxHeight := by
  rw [next, Sum.getRight?_eq_some_iff, round] at h
  split at h
  · cases h
  · rename_i op ahead hop
    split at h
    · cases h
    · cases h
    · rename_i right rest hright
      dsimp only at h
      split at h
      · cases h
      · rename_i hdepth
        obtain rfl := Sum.inr.inj h
        exact ⟨op, ahead, right, hop, hright, rfl, rfl, Nat.not_lt.mp hdepth⟩

/-- **The depth that is kept is that of the tree.** -/
def Kept (s : Growth) : Prop := s.depth = s.tree.depth

/-- A round computes the depth of the tree it makes, from what is kept. -/
theorem Kept.depth_binary (h : s.Kept) (op : BinaryOp) (right : Expr) :
    max s.depth right.depth + 1 = (Expr.binary s.tree op right).depth := by
  rw [Kept] at h
  simp only [h, Expr.depth_eq_height, Expr.height]

/-- **A round keeps the depth of the tree.** -/
theorem Kept.of_next (h : s.Kept) (hnext : next operand sign s = some s') : s'.Kept := by
  obtain ⟨op, ahead, right, -, -, htree, hdepth, -⟩ := next_eq_some hnext
  rw [Kept, htree, hdepth]
  exact h.depth_binary op right

/-! ## The whole loop -/

/-- **Wherever the loop comes to, the depth is kept.** -/
theorem Kept.of_reaches (h : s.Kept) (hreaches : Reaches (next operand sign) s s') : s'.Kept := by
  induction hreaches with
  | refl => exact h
  | tail _ hnext ih => exact ih.of_next hnext

/-- **The loop ends with the result of the chain.** The rounds left and the
depth so far together exceed the limit on the depth, so that a chain has a
round left wherever the loop goes on. -/
theorem exists_last (hn : 0 < n) (hlimit : maxHeight < n + s.depth) :
    ∃ last ∈ eval (next operand sign) s,
      round operand sign last = .inl (chain operand sign n s.tree s.depth s.ahead) := by
  induction n generalizing s with
  | zero => exact absurd hn (Nat.lt_irrefl 0)
  | succ n ih =>
    rw [chain_succ]
    rcases hround : round operand sign s with result | s'
    · have hend : next operand sign s = none := by rw [next, hround]; rfl
      exact ⟨s, mem_eval.mpr ⟨.refl, hend⟩, hround⟩
    · have hnext : next operand sign s = some s' := by rw [next, hround]; rfl
      obtain ⟨_, _, right, -, -, -, hdepth, hle⟩ := next_eq_some hnext
      -- the depth has grown by what the chain has spent, and the limit on it
      -- leaves the chain a round
      have hgrows : s.depth < s'.depth := by omega
      have hlimit' : maxHeight < n + s'.depth := by omega
      have hn' : 0 < n := by omega
      obtain ⟨last, hlast, hresult⟩ := ih hn' hlimit'
      obtain ⟨hreaches, hend⟩ := mem_eval.mp hlast
      exact ⟨last, mem_eval.mpr ⟨hreaches.head hnext, hend⟩, hresult⟩

/-- **And so does the joining of operands**, from the first one on. -/
theorem exists_last_leftAssoc {ops : List BinaryOp} {t rest : Text} {head : Expr}
    (hread : operand t = .ok (head, rest)) :
    ∃ last ∈ eval (next operand (operator ops)) ⟨head, head.depth, rest⟩,
      round operand (operator ops) last = .inl (leftAssoc operand ops t) := by
  have hpos : 0 < head.depth := by
    rw [head.depth_eq_height]
    exact head.height_pos
  have hlimit : maxHeight < maxHeight + head.depth := by omega
  have hjoin : leftAssoc operand ops t =
      chain operand (operator ops) maxHeight head head.depth rest := by
    rw [leftAssoc, hread]
  rw [hjoin]
  exact exists_last (by decide) hlimit

/-- **The depths agree.** The walk that finds the depth of a tree ends, with the
height of the tree. And whatever operands are joined by whatever operators, the
loop that joins them ends with the result of `leftAssoc`, and wherever it comes
to before, the depth it keeps is that of its tree. -/
theorem depths_agree :
    (∀ e : Expr, eval Expr.Walk.turn (.start e) = Part.some ⟨[], e.depth⟩ ∧
      e.depth = e.height) ∧
    ∀ (operand : Parser Expr) (ops : List BinaryOp) (t : Text) (head : Expr) (rest : Text),
      operand t = .ok (head, rest) →
        (∃ last ∈ eval (next operand (operator ops)) ⟨head, head.depth, rest⟩,
          round operand (operator ops) last = .inl (leftAssoc operand ops t)) ∧
        ∀ s, Reaches (next operand (operator ops)) ⟨head, head.depth, rest⟩ s →
          s.depth = s.tree.depth := by
  refine ⟨fun e => ⟨Expr.Walk.eval_turn_start e, e.depth_eq_height⟩, ?_⟩
  intro operand ops t head rest hread
  refine ⟨exists_last_leftAssoc hread, ?_⟩
  intro s hreaches
  have hstart : Kept ⟨head, head.depth, rest⟩ := rfl
  exact hstart.of_reaches hreaches

/-- A right operand that is deeper than the tree before it, and one that is not:
the kept depth goes from one to four and five. -/
theorem depths_agree_two_rounds :
    let inner : Expr := .binary (.int 2) .mult (.binary (.int 3) .add (.int 4))
    let tree : Expr := .binary (.binary (.int 1) .sub inner) .add (.int 5)
    term "1 - 2 * (3 + 4) + 5".toList = .ok (.int 1, "- 2 * (3 + 4) + 5".toList) ∧
      Reaches (next term (operator additive))
        ⟨.int 1, (Expr.int 1).depth, "- 2 * (3 + 4) + 5".toList⟩ ⟨tree, 5, []⟩ ∧
      tree.depth = 5 ∧ eval Expr.Walk.turn (.start tree) = Part.some ⟨[], 5⟩ := by
  intro inner tree
  have hread : term "1 - 2 * (3 + 4) + 5".toList =
      .ok (.int 1, "- 2 * (3 + 4) + 5".toList) := by decide +kernel
  have hfirst : next term (operator additive)
      ⟨.int 1, (Expr.int 1).depth, "- 2 * (3 + 4) + 5".toList⟩ =
        some ⟨.binary (.int 1) .sub inner, 4, "+ 5".toList⟩ := by decide +kernel
  have hsecond : next term (operator additive)
      ⟨.binary (.int 1) .sub inner, 4, "+ 5".toList⟩ = some ⟨tree, 5, []⟩ := by decide +kernel
  have hreaches : Reaches (next term (operator additive))
      ⟨.int 1, (Expr.int 1).depth, "- 2 * (3 + 4) + 5".toList⟩ ⟨tree, 5, []⟩ :=
    .head hfirst (.single hsecond)
  have hkept : 5 = tree.depth :=
    (depths_agree.2 term additive _ _ _ hread).2 ⟨tree, 5, []⟩ hreaches
  refine ⟨hread, hreaches, hkept.symm, ?_⟩
  have hwalk := (depths_agree.1 tree).1
  rwa [← hkept] at hwalk

end Growth

end Grammar

end StraightLine

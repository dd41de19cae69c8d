import Mathlib.Computability.StateTransition
import StraightLine.Proofs.Program.Height

/-!
# Walks — a tree worked off turn by turn

`Expr.depth` is found by a loop over a list of pending nodes. `Walk.turn` is
one turn of that loop. A turn takes one node off all that is pending
(`pendingSize_of_turn`) and changes nothing about the level that will have
been met in the end (`reach_of_turn`), whatever is pending and at whatever
levels. Hence the loop ends, from every state, and with that level noted
(`mem_eval_turn`).
-/

namespace StraightLine

namespace Expr

open StateTransition

/-- **Where a walk stands**: the nodes pending, the next one first, each with
its level, and the greatest level met so far. -/
structure Walk where
  pending : List (Expr × Nat)
  met : Nat

namespace Walk

variable {s s' : Walk}

/-- A walk begins with the whole tree at level one. -/
def start (e : Expr) : Walk := ⟨[(e, 1)], 0⟩

/-- **One turn** notes the level of the next node and puts its operands on the
list, the right one first. Where nothing is pending there is none. -/
def turn : Walk → Option Walk
  | ⟨[], _⟩ => none
  | ⟨(binary left _ right, level) :: pending, met⟩ =>
    some ⟨(right, level + 1) :: (left, level + 1) :: pending, max met level⟩
  | ⟨(_, level) :: pending, met⟩ => some ⟨pending, max met level⟩

/-- **The level a walk comes to**: the greatest one met so far or reached by a
pending tree. -/
def reach (s : Walk) : Nat :=
  s.pending.foldl (fun met x => max met (x.2 + x.1.height - 1)) s.met

/-! ## One turn -/

/-- **What a turn can do**: take a leaf off, or a node in favour of its
operands. -/
theorem turn_eq_some (h : s.turn = some s') :
    (∃ e level pending met, e.height = 1 ∧ e.size = 1 ∧
      s = ⟨(e, level) :: pending, met⟩ ∧ s' = ⟨pending, max met level⟩) ∨
    ∃ left op right level pending met,
      s = ⟨(binary left op right, level) :: pending, met⟩ ∧
        s' = ⟨(right, level + 1) :: (left, level + 1) :: pending, max met level⟩ := by
  rcases s with ⟨- | ⟨⟨e, level⟩, pending⟩, met⟩
  · cases h
  · cases e with
    | int value => exact .inl ⟨_, level, pending, met, rfl, rfl, rfl, (Option.some.inj h).symm⟩
    | float value => exact .inl ⟨_, level, pending, met, rfl, rfl, rfl, (Option.some.inj h).symm⟩
    | identifier name =>
      exact .inl ⟨_, level, pending, met, rfl, rfl, rfl, (Option.some.inj h).symm⟩
    | binary left op right =>
      exact .inr ⟨left, op, right, level, pending, met, rfl, (Option.some.inj h).symm⟩

theorem turn_eq_none (h : s.turn = none) : s.pending = [] := by
  rcases s with ⟨- | ⟨⟨e, level⟩, pending⟩, met⟩
  · rfl
  · cases e with
    | int _ => cases h
    | float _ => cases h
    | identifier _ => cases h
    | binary _ _ _ => cases h

/-- **A turn takes one node off.** -/
theorem pendingSize_of_turn (h : s.turn = some s') :
    pendingSize s'.pending + 1 = pendingSize s.pending := by
  rcases turn_eq_some h with
    ⟨e, level, pending, met, -, hsize, rfl, rfl⟩ |
      ⟨left, op, right, level, pending, met, rfl, rfl⟩
  · simp only [pendingSize]
    omega
  · simp only [pendingSize, size]
    omega

/-- **A turn does not change the level the walk comes to.** -/
theorem reach_of_turn (h : s.turn = some s') : s'.reach = s.reach := by
  rcases turn_eq_some h with
    ⟨e, level, pending, met, hheight, -, rfl, rfl⟩ |
      ⟨left, op, right, level, pending, met, rfl, rfl⟩
  · have hmet : max met (level + e.height - 1) = max met level := by omega
    simp only [reach, List.foldl_cons, hmet]
  · have hleft := left.height_pos
    have hright := right.height_pos
    have hmet : max (max (max met level) (level + 1 + right.height - 1))
        (level + 1 + left.height - 1) =
          max met (level + (binary left op right).height - 1) := by
      simp only [height]
      omega
    simp only [reach, List.foldl_cons, hmet]

/-! ## The whole walk -/

/-- **Every walk ends**, with nothing pending and the level it comes to. -/
theorem mem_eval_turn (s : Walk) : ⟨[], s.reach⟩ ∈ eval turn s := by
  -- by induction on the nodes pending, of which each turn takes one off
  induction hsize : pendingSize s.pending using Nat.strong_induction_on generalizing s with
  | h n ih =>
    rw [mem_eval]
    rcases hturn : s.turn with - | s'
    · obtain ⟨pending, met⟩ := s
      obtain rfl : pending = [] := turn_eq_none hturn
      exact ⟨.refl, rfl⟩
    · have hless : pendingSize s'.pending < n := by
        have := pendingSize_of_turn hturn
        omega
      obtain ⟨hreaches, hend⟩ := mem_eval.mp (ih _ hless s' rfl)
      rw [reach_of_turn hturn] at hreaches
      exact ⟨.head hturn hreaches, hend⟩

/-- The level a walk comes to is what the depth is found with, on every list. -/
theorem deepest_eq_reach (pending : List (Expr × Nat)) (met : Nat) :
    deepest pending met = (Walk.mk pending met).reach := by
  induction pending generalizing met with
  | nil => rw [deepest, reach, List.foldl_nil]
  | cons x pending ih =>
    obtain ⟨e, level⟩ := x
    rw [deepest_cons, ih, reach, reach, List.foldl_cons]

/-- **The walk over a tree ends with its depth noted.** -/
theorem eval_turn_start (e : Expr) : eval turn (start e) = Part.some ⟨[], e.depth⟩ := by
  have hend := mem_eval_turn (start e)
  rw [start, ← deepest_eq_reach] at hend
  exact Part.eq_some_iff.mpr hend

end Walk

end Expr

end StraightLine

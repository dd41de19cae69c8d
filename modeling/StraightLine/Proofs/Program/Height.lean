import StraightLine.Program.Basic

/-!
# Heights — the depth found with a work list is the height

`Expr.depth` works a list of nodes off instead of descending into the tree.
`deepest_cons` says what one entry contributes, whatever stands behind it on
the list, and `depth_eq_height` is that lemma at the one-entry list.
-/

namespace StraightLine

namespace Expr

theorem height_pos (e : Expr) : 0 < e.height := by
  cases e with
  | int _ => exact Nat.one_pos
  | float _ => exact Nat.one_pos
  | identifier _ => exact Nat.one_pos
  | binary _ _ _ => exact Nat.succ_pos _

/-- **An entry contributes the level its tree reaches**, and the rest of the
list is worked off from there. -/
theorem deepest_cons (e : Expr) (level : Nat) (rest : List (Expr × Nat)) (soFar : Nat) :
    deepest ((e, level) :: rest) soFar = deepest rest (max soFar (level + e.height - 1)) := by
  induction e generalizing level rest soFar with
  | int _ => simp [deepest, height]
  | float _ => simp [deepest, height]
  | identifier _ => simp [deepest, height]
  | binary left op right ihl ihr =>
    have hl := left.height_pos
    have hr := right.height_pos
    rw [deepest, ihr, ihl]
    congr 1
    simp only [height]
    omega

/-- **The depth is the height.** -/
theorem depth_eq_height (e : Expr) : e.depth = e.height := by
  have h := e.height_pos
  rw [depth, deepest_cons, deepest]
  omega

end Expr

end StraightLine

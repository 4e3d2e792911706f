import Mathlib.Algebra.BigOperators.Group.List.Basic
import Mathlib.Data.Nat.Basic
import Mathlib.Tactic.Ring

/-!
# Floored shares

A pool is split by integer weights over a common scale, and every share is floored
on its own. Whether the shares fit into the pool is a matter of the weights' excess
over the scale against the remainders that the floors drop.
-/

namespace ArmchairAnalyst

/-- The sum of the floored shares of a pool. -/
def floorShares (scale pool : Nat) (weights : List Nat) : Nat :=
  (weights.map (fun weight => pool * weight / scale)).sum

/-- The sum of the remainders that the floors drop. -/
def droppedRemainders (scale pool : Nat) (weights : List Nat) : Nat :=
  (weights.map (fun weight => pool * weight % scale)).sum

theorem floorShares_add_dropped (scale pool : Nat) (weights : List Nat) :
    scale * floorShares scale pool weights + droppedRemainders scale pool weights =
      pool * weights.sum := by
  unfold floorShares droppedRemainders
  induction weights with
  | nil => simp
  | cons weight weights inductionHypothesis =>
    simp only [List.map_cons, List.sum_cons, Nat.mul_add]
    have whole := Nat.div_add_mod (pool * weight) scale
    omega

/-- The shares fit exactly when the dropped remainders pay for the excess of the weights. -/
theorem floorShares_le_iff {scale : Nat} (positive : 0 < scale) (pool : Nat)
    (weights : List Nat) :
    floorShares scale pool weights ≤ pool ↔
      pool * weights.sum ≤ pool * scale + droppedRemainders scale pool weights := by
  have whole := floorShares_add_dropped scale pool weights
  rw [← Nat.mul_le_mul_left_iff positive, Nat.mul_comm pool scale]
  omega

theorem floorShares_le {scale : Nat} (positive : 0 < scale) (pool : Nat) {weights : List Nat}
    (within : weights.sum ≤ scale) : floorShares scale pool weights ≤ pool := by
  rw [floorShares_le_iff positive]
  have product := Nat.mul_le_mul_left pool within
  omega

/-- A pool as large as the scale is split without a remainder. -/
theorem floorShares_scale {scale : Nat} (positive : 0 < scale) (weights : List Nat) :
    floorShares scale scale weights = weights.sum := by
  unfold floorShares
  simp only [Nat.mul_div_cancel_left _ positive, List.map_id']

end ArmchairAnalyst

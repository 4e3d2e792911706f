import Mathlib

/-!
# Constant product

What a pool of two reserves pays out for an input so that the product of its reserves
does not fall, rounded down. A pool without reserves on the input side pays nothing
for nothing.
-/

namespace ArmchairAnalyst

/-- The payout of reserves `x` and `y` for an input `c` on the side of `x`. -/
def constantProductOut (x y c : Nat) : Nat := y * c / (x + c)

section

variable {x y c : Nat}

@[simp] theorem constantProductOut_zero (x y : Nat) : constantProductOut x y 0 = 0 := by
  simp [constantProductOut]

theorem constantProductOut_mul_le (x y c : Nat) : constantProductOut x y c * (x + c) ≤ y * c :=
  Nat.div_mul_le_self _ _

theorem constantProductOut_le (x y c : Nat) : constantProductOut x y c ≤ y := by
  rcases Nat.eq_zero_or_pos (x + c) with empty | positive
  · simp [constantProductOut, empty]
  · apply Nat.div_le_of_le_mul
    rw [Nat.mul_comm y]
    exact Nat.mul_le_mul_right y (Nat.le_add_left c x)

/-- An input of `c` and anything above it that stays in the pool keep the product. -/
theorem mul_le_constantProduct {added : Nat} (covers : c ≤ added) :
    x * y ≤ (x + added) * (y - constantProductOut x y c) := by
  have paid := constantProductOut_mul_le x y c
  have within := constantProductOut_le x y c
  have kept : x * y ≤ (x + c) * (y - constantProductOut x y c) := by
    rw [Nat.mul_sub, Nat.mul_comm (x + c) (constantProductOut x y c), Nat.add_mul,
      Nat.mul_comm c y]
    omega
  exact kept.trans (Nat.mul_le_mul_right _ (Nat.add_le_add_left covers x))

/-- More of the input, more on the paying side and less on the other pay no less. -/
theorem constantProductOut_mono {x' y' c' : Nat} (less : x' ≤ x) (more : y ≤ y')
    (larger : c ≤ c') : constantProductOut x y c ≤ constantProductOut x' y' c' := by
  rcases Nat.eq_zero_or_pos (x' + c') with empty | positive
  · have nothing : c = 0 := by omega
    simp [nothing]
  · unfold constantProductOut
    rw [Nat.le_div_iff_mul_le positive]
    have paid := constantProductOut_mul_le x y c
    have within := constantProductOut_le x y c
    calc y * c / (x + c) * (x' + c')
        ≤ y * c / (x + c) * (x + c') := Nat.mul_le_mul_left _ (Nat.add_le_add_right less c')
      _ = y * c / (x + c) * (x + c) + y * c / (x + c) * (c' - c) := by
          rw [← Nat.mul_add]
          congr 1
          omega
      _ ≤ y * c + y * (c' - c) := Nat.add_le_add paid (Nat.mul_le_mul_right _ within)
      _ = y * c' := by
          rw [← Nat.mul_add]
          congr 1
          omega
      _ ≤ y' * c' := Nat.mul_le_mul_right _ more

end

end ArmchairAnalyst

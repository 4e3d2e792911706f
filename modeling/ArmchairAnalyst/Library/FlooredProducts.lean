import Mathlib

/-!
# Floored products by the bits of an exponent

A power in fixed point is the product of one factor for each bit of the exponent, from
the lowest bit up, floored after every factor. Whether it falls with the exponent is
decided by one comparison for each bit: the next power of two must not exceed what the
product of all factors below it has come to.
-/

namespace ArmchairAnalyst

/-- Multiplies the ratio by the factors of the bits that are set in `n`. -/
def flooredProduct (scale : Nat) : List Nat → Nat → Nat → Nat
  | [], _, ratio => ratio
  | factor :: factors, n, ratio =>
    flooredProduct scale factors (n / 2) (if n % 2 = 1 then ratio * factor / scale else ratio)

/-- No factor exceeds the product of the factors before it. -/
def Descends (scale : Nat) : Nat → List Nat → Prop
  | _, [] => True
  | ratio, factor :: factors => factor ≤ ratio ∧ Descends scale (ratio * factor / scale) factors

instance instDecidableDescends (scale : Nat) :
    (ratio : Nat) → (factors : List Nat) → Decidable (Descends scale ratio factors)
  | _, [] => .isTrue trivial
  | ratio, factor :: factors =>
    have : Decidable (Descends scale (ratio * factor / scale) factors) :=
      instDecidableDescends scale _ factors
    inferInstanceAs (Decidable (_ ∧ _))

section

variable {scale : Nat} {factors : List Nat} {n ratio ratio' : Nat}

theorem flooredProduct_mono (less : ratio ≤ ratio') :
    flooredProduct scale factors n ratio ≤ flooredProduct scale factors n ratio' := by
  induction factors generalizing n ratio ratio' with
  | nil => exact less
  | cons factor factors inductionHypothesis =>
    apply inductionHypothesis
    split
    · exact Nat.div_le_div_right (Nat.mul_le_mul_right _ less)
    · exact less

/-- The next exponent clears its lowest ones, which `ratio` has collected, and sets the
bit above them. -/
theorem flooredProduct_succ_le (positive : 0 < scale) (descends : Descends scale ratio factors)
    (within : n + 1 < 2 ^ factors.length) :
    flooredProduct scale factors (n + 1) scale ≤ flooredProduct scale factors n ratio := by
  induction factors generalizing n ratio with
  | nil => simp at within
  | cons factor factors inductionHypothesis =>
    obtain ⟨below, rest⟩ := descends
    unfold flooredProduct
    rcases Nat.even_or_odd' n with ⟨half, rfl | rfl⟩
    · have same : (2 * half + 1) / 2 = 2 * half / 2 := by omega
      have set : (2 * half + 1) % 2 = 1 := by omega
      have clear : ¬ 2 * half % 2 = 1 := by omega
      rw [same, if_pos set, if_neg clear, Nat.mul_div_cancel_left _ positive]
      exact flooredProduct_mono below
    · have carried : (2 * half + 1 + 1) / 2 = (2 * half + 1) / 2 + 1 := by omega
      have clear : ¬ (2 * half + 1 + 1) % 2 = 1 := by omega
      have set : (2 * half + 1) % 2 = 1 := by omega
      rw [carried, if_neg clear, if_pos set]
      apply inductionHypothesis rest
      rw [List.length_cons, Nat.pow_succ] at within
      omega

theorem flooredProduct_antitone (positive : 0 < scale) (descends : Descends scale scale factors)
    {m : Nat} (ordered : m ≤ n) (within : n < 2 ^ factors.length) :
    flooredProduct scale factors n scale ≤ flooredProduct scale factors m scale := by
  induction n, ordered using Nat.le_induction with
  | base => exact le_rfl
  | succ n _ inductionHypothesis =>
    have step := flooredProduct_succ_le positive descends within
    exact step.trans (inductionHypothesis (Nat.lt_of_succ_lt within))

end

/-! ### Masks -/

/-- The factors with the masks of their bits, from bit `k` on. -/
def maskedFactors (k : Nat) : List Nat → List (Nat × Nat)
  | [] => []
  | factor :: factors => (2 ^ k, factor) :: maskedFactors (k + 1) factors

theorem and_two_pow_ne_zero (n k : Nat) : n &&& 2 ^ k ≠ 0 ↔ n / 2 ^ k % 2 = 1 := by
  rw [Nat.and_two_pow, Nat.testBit_eq_decide_div_mod_eq]
  have positive := Nat.two_pow_pos k
  by_cases set : n / 2 ^ k % 2 = 1
  · simp [set]
  · simp [set]

/-- A loop that tests one mask after the other computes the product. -/
theorem foldl_maskedFactors (scale n k : Nat) (factors : List Nat) (ratio : Nat) :
    (maskedFactors k factors).foldl
        (fun ratio (mask, factor) => if n &&& mask ≠ 0 then ratio * factor / scale else ratio)
        ratio =
      flooredProduct scale factors (n / 2 ^ k) ratio := by
  induction factors generalizing k ratio with
  | nil => rfl
  | cons factor factors inductionHypothesis =>
    rw [maskedFactors, List.foldl_cons, inductionHypothesis, flooredProduct, Nat.div_div_eq_div_mul,
      ← Nat.pow_succ]
    simp only [and_two_pow_ne_zero]

end ArmchairAnalyst

import ArmchairAnalyst.Library.ConstantProduct
import ArmchairAnalyst.LosslessReplay

/-!
# Sequences of swaps through one pool

The two directions of a swap mirror each other. Neither lowers the product of the
reserves, so what is spent on a pool never comes back with a gain.
-/

namespace ArmchairAnalyst

/-! ### One swap, by its side -/

inductive Side
  | first | second
  deriving DecidableEq, Repr

namespace Side

def other : Side → Side
  | first => second
  | second => first

@[simp] theorem other_ne (side : Side) : side.other ≠ side := by cases side <;> decide

@[simp] theorem ne_other (side : Side) : side ≠ side.other := by cases side <;> decide

@[simp] theorem other_other (side : Side) : side.other.other = side := by cases side <;> rfl

theorem eq_or_eq_other (side side' : Side) : side' = side ∨ side' = side.other := by
  cases side <;> cases side' <;> decide

end Side

namespace LosslessPool

def reserve (pool : LosslessPool) : Side → U256
  | .first => pool.reserve0
  | .second => pool.reserve1

def swapLimit (pool : LosslessPool) : Side → U256
  | .first => pool.swapLimit0
  | .second => pool.swapLimit1

/-- The side on which a swap of this token pays in. -/
def sideOf (pool : LosslessPool) (tokenIn : TokenAddress) : Option Side :=
  if tokenIn = pool.token0 then some .first
  else if tokenIn = pool.token1 then some .second
  else none

def hop (pool : LosslessPool) (side : Side) (amountIn : U256) : Hop :=
  swapOut (pool.reserve side) (pool.reserve side.other) (pool.swapLimit side)
    (pool.afterFee amountIn)

/-- The pool with `added` on one side and without `out` on the other. -/
def moved (pool : LosslessPool) (added out : U256) : Side → LosslessPool
  | .first =>
    { pool with
      reserve0 := saturatingAdd pool.reserve0 added
      reserve1 := saturatingSub pool.reserve1 out }
  | .second =>
    { pool with
      reserve1 := saturatingAdd pool.reserve1 added
      reserve0 := saturatingSub pool.reserve0 out }

theorem swap_eq (pool : LosslessPool) (tokenIn : TokenAddress) (amountIn : U256) :
    pool.swap tokenIn amountIn =
      match pool.sideOf tokenIn with
      | none => .error .tokenNotInPool
      | some side =>
        .ok (pool.moved amountIn (pool.hop side amountIn).out side, pool.hop side amountIn) := by
  unfold swap sideOf
  split_ifs <;> rfl

@[simp] theorem moved_reserve (pool : LosslessPool) (added out : U256) (side : Side) :
    (pool.moved added out side).reserve side = saturatingAdd (pool.reserve side) added := by
  cases side <;> rfl

@[simp] theorem moved_reserve_other (pool : LosslessPool) (added out : U256) (side : Side) :
    (pool.moved added out side).reserve side.other =
      saturatingSub (pool.reserve side.other) out := by
  cases side <;> rfl

@[simp] theorem moved_sideOf (pool : LosslessPool) (added out : U256) (side : Side)
    (tokenIn : TokenAddress) :
    (pool.moved added out side).sideOf tokenIn = pool.sideOf tokenIn := by
  cases side <;> rfl

end LosslessPool

/-! ### Amounts -/

theorem saturatingAdd_toNat (a b : U256) :
    (saturatingAdd a b).toNat = min (a.toNat + b.toNat) (2 ^ 256 - 1) := by
  unfold saturatingAdd
  split
  case isTrue fits =>
    rw [BitVec.toNat_add, Nat.mod_eq_of_lt fits]
    omega
  case isFalse overflows =>
    rw [BitVec.toNat_allOnes]
    omega

theorem saturatingSub_toNat (a b : U256) : (saturatingSub a b).toNat = a.toNat - b.toNat := by
  rw [saturatingSub, BitVec.toNat_ofNat]
  exact Nat.mod_eq_of_lt (Nat.lt_of_le_of_lt (Nat.sub_le _ _) a.isLt)

theorem LosslessPool.afterFee_toNat (pool : LosslessPool) (amountIn : U256) :
    (pool.afterFee amountIn).toNat =
      amountIn.toNat * (pipsDenominator - pool.feePips.toNat) / pipsDenominator := by
  rw [afterFee, BitVec.toNat_ofNat]
  apply Nat.mod_eq_of_lt
  refine Nat.lt_of_le_of_lt (Nat.div_le_of_le_mul ?_) amountIn.isLt
  rw [Nat.mul_comm pipsDenominator]
  exact Nat.mul_le_mul_left _ (Nat.sub_le _ _)

theorem LosslessPool.afterFee_le (pool : LosslessPool) (amountIn : U256) :
    (pool.afterFee amountIn).toNat ≤ amountIn.toNat := by
  rw [afterFee_toNat]
  apply Nat.div_le_of_le_mul
  rw [Nat.mul_comm pipsDenominator]
  exact Nat.mul_le_mul_left _ (Nat.sub_le _ _)

/-- The part of the input that is within the tick. -/
def cappedInput (limit afterFee : U256) : U256 := if limit < afterFee then limit else afterFee

theorem cappedInput_le (limit afterFee : U256) :
    (cappedInput limit afterFee).toNat ≤ afterFee.toNat := by
  unfold cappedInput
  split
  case isTrue exceeds => exact Nat.le_of_lt exceeds
  case isFalse => exact le_rfl

theorem swapOut_out_toNat (x y limit afterFee : U256) :
    (swapOut x y limit afterFee).out.toNat =
      constantProductOut x.toNat y.toNat (cappedInput limit afterFee).toNat := by
  have capped : (if decide (limit < afterFee) then limit else afterFee) =
      cappedInput limit afterFee := by
    simp [cappedInput]
  simp only [swapOut, capped, constantProductOut]
  split
  case isTrue empty => simp [empty]
  case isFalse positive =>
    rw [BitVec.toNat_ofNat]
    apply Nat.mod_eq_of_lt
    exact Nat.lt_of_le_of_lt (constantProductOut_le x.toNat y.toNat _) y.isLt

namespace LosslessPool

def product (pool : LosslessPool) : Nat := pool.reserve0.toNat * pool.reserve1.toNat

theorem product_eq (pool : LosslessPool) (side : Side) :
    pool.product = (pool.reserve side).toNat * (pool.reserve side.other).toNat := by
  cases side
  · rfl
  · exact Nat.mul_comm _ _

/-- The input, fee included, fits into the reserve of its side. -/
def Unsaturated (pool : LosslessPool) (side : Side) (amountIn : U256) : Prop :=
  (pool.reserve side).toNat + amountIn.toNat < 2 ^ 256

theorem hop_out_le (pool : LosslessPool) (side : Side) (amountIn : U256) :
    (pool.hop side amountIn).out.toNat ≤ (pool.reserve side.other).toNat := by
  rw [hop, swapOut_out_toNat]
  exact constantProductOut_le _ _ _

theorem moved_reserve_toNat {pool : LosslessPool} {side : Side} {amountIn : U256}
    (unsaturated : pool.Unsaturated side amountIn) (out : U256) :
    ((pool.moved amountIn out side).reserve side).toNat =
      (pool.reserve side).toNat + amountIn.toNat := by
  unfold Unsaturated at unsaturated
  rw [moved_reserve, saturatingAdd_toNat]
  omega

theorem moved_product_le {pool : LosslessPool} {side : Side} {amountIn : U256}
    (unsaturated : pool.Unsaturated side amountIn) :
    pool.product ≤ (pool.moved amountIn (pool.hop side amountIn).out side).product := by
  rw [product_eq _ side, product_eq _ side, moved_reserve_toNat unsaturated, moved_reserve_other,
    saturatingSub_toNat, hop, swapOut_out_toNat]
  exact mul_le_constantProduct ((cappedInput_le _ _).trans (pool.afterFee_le amountIn))

end LosslessPool

/-! ### Sequences -/

/-- The pools that unsaturated swaps lead to. -/
inductive SwapsTo (first : LosslessPool) : LosslessPool → Prop
  | start : SwapsTo first first
  | swap {pool next : LosslessPool} {tokenIn : TokenAddress} {amountIn : U256} {hop : Hop}
      {side : Side} : SwapsTo first pool → pool.sideOf tokenIn = some side →
      pool.Unsaturated side amountIn → pool.swap tokenIn amountIn = .ok (next, hop) →
      SwapsTo first next

/-- A pool, and what a trader holds of the tokens on its two sides. -/
structure Trading where
  pool : LosslessPool
  held : Side → Nat

namespace Trading

def funded (pool : LosslessPool) (side : Side) (amount : Nat) : Trading where
  pool
  held := fun side' => if side' = side then amount else 0

def settle (trading : Trading) (side : Side) (amountIn : U256) (next : LosslessPool) (hop : Hop) :
    Trading where
  pool := next
  held := fun side' =>
    if side' = side then trading.held side' - amountIn.toNat
    else trading.held side' + hop.out.toNat

/-- What unsaturated swaps lead to, each of them spending what is held. -/
inductive TradesTo (first : Trading) : Trading → Prop
  | start : TradesTo first first
  | swap {trading : Trading} {next : LosslessPool} {tokenIn : TokenAddress} {amountIn : U256}
      {hop : Hop} {side : Side} : TradesTo first trading →
      trading.pool.sideOf tokenIn = some side → trading.pool.Unsaturated side amountIn →
      amountIn.toNat ≤ trading.held side →
      trading.pool.swap tokenIn amountIn = .ok (next, hop) →
      TradesTo first (trading.settle side amountIn next hop)

end Trading

namespace LosslessPool

theorem swap_ok {pool next : LosslessPool} {tokenIn : TokenAddress} {amountIn : U256} {hop : Hop}
    {side : Side} (paysIn : pool.sideOf tokenIn = some side)
    (swapped : pool.swap tokenIn amountIn = .ok (next, hop)) :
    hop = pool.hop side amountIn ∧ next = pool.moved amountIn hop.out side := by
  rw [swap_eq, paysIn] at swapped
  simp only [Except.ok.injEq, Prod.mk.injEq] at swapped
  obtain ⟨rfl, rfl⟩ := swapped
  exact ⟨rfl, rfl⟩

end LosslessPool

theorem SwapsTo.product_le {first last : LosslessPool} (swaps : SwapsTo first last) :
    first.product ≤ last.product := by
  induction swaps with
  | start => exact le_rfl
  | swap _ paysIn unsaturated swapped inductionHypothesis =>
    obtain ⟨rfl, rfl⟩ := LosslessPool.swap_ok paysIn swapped
    exact inductionHypothesis.trans (LosslessPool.moved_product_le unsaturated)

namespace Trading

/-- All there is of the token on one side. -/
def supply (trading : Trading) (side : Side) : Nat :=
  (trading.pool.reserve side).toNat + trading.held side

theorem supply_settle {trading : Trading} {side : Side} {amountIn : U256}
    (unsaturated : trading.pool.Unsaturated side amountIn)
    (affordable : amountIn.toNat ≤ trading.held side) (side' : Side) :
    (trading.settle side amountIn
        (trading.pool.moved amountIn (trading.pool.hop side amountIn).out side)
        (trading.pool.hop side amountIn)).supply side' = trading.supply side' := by
  rcases side.eq_or_eq_other side' with rfl | rfl
  · simp only [supply, settle, LosslessPool.moved_reserve_toNat unsaturated, if_true]
    omega
  · have within := trading.pool.hop_out_le side amountIn
    simp only [supply, settle, LosslessPool.moved_reserve_other, saturatingSub_toNat,
      Side.other_ne, if_false]
    omega

variable {first last : Trading}

theorem TradesTo.swapsTo (trades : first.TradesTo last) : SwapsTo first.pool last.pool := by
  induction trades with
  | start => exact .start
  | swap _ paysIn unsaturated _ swapped inductionHypothesis =>
    exact .swap inductionHypothesis paysIn unsaturated swapped

theorem TradesTo.supply_eq (trades : first.TradesTo last) (side : Side) :
    last.supply side = first.supply side := by
  induction trades with
  | start => rfl
  | swap _ paysIn unsaturated affordable swapped inductionHypothesis =>
    obtain ⟨rfl, rfl⟩ := LosslessPool.swap_ok paysIn swapped
    rw [supply_settle unsaturated affordable, inductionHypothesis]

/-- Without any supply on the other side nothing is ever paid out for this one. -/
theorem TradesTo.held_le_of_no_supply {side : Side} (trades : first.TradesTo last)
    (none : first.supply side.other = 0) : last.held side ≤ first.held side := by
  induction trades with
  | start => exact le_rfl
  | @swap trading next tokenIn amountIn hop paid before paysIn _ affordable swapped
      inductionHypothesis =>
    obtain ⟨rfl, rfl⟩ := LosslessPool.swap_ok paysIn swapped
    have nothing := (before.supply_eq side.other).trans none
    simp only [supply] at nothing
    rcases side.eq_or_eq_other paid with rfl | rfl
    · simp only [settle, if_true]
      omega
    · have unpaid : amountIn.toNat = 0 := by omega
      have capped := (cappedInput_le (trading.pool.swapLimit side.other)
        (trading.pool.afterFee amountIn)).trans (trading.pool.afterFee_le amountIn)
      have out : (trading.pool.hop side.other amountIn).out.toNat = 0 := by
        rw [LosslessPool.hop, swapOut_out_toNat, Nat.eq_zero_of_le_zero (capped.trans unpaid.le)]
        exact constantProductOut_zero _ _
      simp only [settle, Side.ne_other, if_false, out]
      omega

/-- A pool with a reserve on the other side gives no gain on this side unless something
of the other is given up. -/
theorem TradesTo.held_le_of_reserve {side : Side} (trades : first.TradesTo last)
    (reserved : 0 < (first.pool.reserve side.other).toNat)
    (kept : first.held side.other ≤ last.held side.other) : last.held side ≤ first.held side := by
  by_contra gained
  have here := trades.supply_eq side
  have there := trades.supply_eq side.other
  have grown := trades.swapsTo.product_le
  simp only [supply] at here there
  rw [LosslessPool.product_eq _ side, LosslessPool.product_eq _ side] at grown
  have lower : (last.pool.reserve side).toNat < (first.pool.reserve side).toNat := by omega
  have most : (last.pool.reserve side.other).toNat ≤ (first.pool.reserve side.other).toNat := by
    omega
  have fallen := Nat.mul_lt_mul_of_lt_of_le lower most reserved
  omega

theorem TradesTo.funded_le {pool : LosslessPool} {side : Side} {amount : Nat}
    (trades : (funded pool side amount).TradesTo last) : last.held side ≤ amount := by
  have initial : (funded pool side amount).held side = amount := by simp [funded]
  have empty : (funded pool side amount).held side.other = 0 := by simp [funded]
  rcases Nat.eq_zero_or_pos (pool.reserve side.other).toNat with none | reserved
  · exact initial ▸ trades.held_le_of_no_supply (by rw [supply, empty]; exact none)
  · exact initial ▸ trades.held_le_of_reserve reserved (by rw [empty]; exact Nat.zero_le _)

end Trading

/-- No sequence of swaps lowers the product of a pool's reserves or overdraws a reserve,
and none brings back more of the one token it was funded with. -/
theorem swaps_never_milk (pool : LosslessPool) :
    (∀ last, SwapsTo pool last → pool.product ≤ last.product) ∧
    (∀ middle, SwapsTo pool middle → ∀ tokenIn amountIn next hop side,
      middle.sideOf tokenIn = some side → middle.swap tokenIn amountIn = .ok (next, hop) →
        (next.reserve side.other).toNat + hop.out.toNat = (middle.reserve side.other).toNat) ∧
    ∀ side amount last, (Trading.funded pool side amount).TradesTo last →
      ¬ (amount < last.held side ∧ 0 ≤ last.held side.other) := by
  refine ⟨fun last swaps => swaps.product_le, ?_, ?_⟩
  · intro middle _ tokenIn amountIn next hop side paysIn swapped
    obtain ⟨rfl, rfl⟩ := LosslessPool.swap_ok paysIn swapped
    have within := middle.hop_out_le side amountIn
    rw [LosslessPool.moved_reserve_other, saturatingSub_toNat]
    omega
  · intro side amount last trades gained
    exact absurd gained.1 (Nat.not_lt.mpr trades.funded_le)

end ArmchairAnalyst

import ArmchairAnalyst.Library.FlooredProducts
import ArmchairAnalyst.LosslessReplay
import ArmchairAnalyst.ReserveValues

/-!
# Tick ranges of real pool states

The price rises with the tick, so a price between two neighbouring ticks lies between
the ends of their range. Both swap limits are then what is missing to the virtual
reserves at these ends.
-/

namespace ArmchairAnalyst

/-! ### Prices without fixed widths -/

/-- The factors of all bits, the lowest one included. -/
def priceFactors : List Nat :=
  0xfffcb933bd6fad37aa2d162d1a594001 :: tickFactors.map Prod.snd

def inverseRatio (absTick : Nat) : Nat := flooredProduct (2 ^ 128) priceFactors absTick (2 ^ 128)

def priceRatio (tick : Int) : Nat :=
  if 0 < tick then (2 ^ 256 - 1) / inverseRatio tick.natAbs else inverseRatio tick.natAbs

/-- From Q128.128 to Q128.96, rounded up. -/
def roundedPrice (tick : Int) : Nat :=
  priceRatio tick / 2 ^ 32 + if priceRatio tick % 2 ^ 32 = 0 then 0 else 1

theorem tickFactors_eq : tickFactors = maskedFactors 1 (tickFactors.map Prod.snd) := rfl

def lowestRatio (absTick : Nat) : Nat :=
  if absTick &&& 0x1 ≠ 0 then 0xfffcb933bd6fad37aa2d162d1a594001 else 2 ^ 128

theorem foldl_tickFactors (absTick : Nat) :
    tickFactors.foldl
        (fun ratio (bit, factor) => if absTick &&& bit ≠ 0 then ratio * factor / 2 ^ 128 else ratio)
        (lowestRatio absTick) = inverseRatio absTick := by
  rw [tickFactors_eq, foldl_maskedFactors]
  have lowest := and_two_pow_ne_zero absTick 0
  simp only [pow_zero, Nat.div_one] at lowest
  simp only [inverseRatio, priceFactors, flooredProduct, lowestRatio, lowest, pow_one,
    Nat.mul_div_cancel_left _ (Nat.two_pow_pos 128)]

theorem sqrtPriceAtTick_eq {tick : I24} (within : tick.value.natAbs ≤ 887272) :
    sqrtPriceAtTick tick = .ok (BitVec.ofNat 160 (roundedPrice tick.value)) := by
  have inside : ¬ maxTick.value.natAbs < tick.value.natAbs := Nat.not_lt.mpr within
  simp only [sqrtPriceAtTick, inside, if_false, roundedPrice, priceRatio, ← foldl_tickFactors,
    lowestRatio]

/-! ### Monotonicity -/

theorem inverseRatio_antitone {m n : Nat} (ordered : m ≤ n) (within : n ≤ 887272) :
    inverseRatio n ≤ inverseRatio m := by
  have descends : Descends (2 ^ 128) (2 ^ 128) priceFactors := by decide +kernel
  refine flooredProduct_antitone (Nat.two_pow_pos 128) descends ordered ?_
  exact Nat.lt_of_le_of_lt within (by decide)

theorem inverseRatio_pos {n : Nat} (within : n ≤ 887272) : 0 < inverseRatio n := by
  have least : 0 < inverseRatio 887272 := by decide +kernel
  exact Nat.lt_of_lt_of_le least (inverseRatio_antitone within le_rfl)

theorem inverseRatio_le {n : Nat} (within : n ≤ 887272) : inverseRatio n ≤ 2 ^ 128 := by
  have most : inverseRatio 0 = 2 ^ 128 := by decide +kernel
  exact most ▸ inverseRatio_antitone (Nat.zero_le n) within

theorem priceRatio_mono {tick tick' : Int} (lower : -887272 ≤ tick) (ordered : tick ≤ tick')
    (upper : tick' ≤ 887272) : priceRatio tick ≤ priceRatio tick' := by
  unfold priceRatio
  by_cases up : 0 < tick
  · have up' : 0 < tick' := by omega
    rw [if_pos up, if_pos up']
    exact Nat.div_le_div_left (inverseRatio_antitone (by omega) (by omega))
      (inverseRatio_pos (by omega))
  · rw [if_neg up]
    by_cases up' : 0 < tick'
    · -- From the first positive tick on the reciprocal is at least one.
      rw [if_pos up']
      have below : inverseRatio tick'.natAbs ≤ inverseRatio 1 :=
        inverseRatio_antitone (by omega) (by omega)
      have first : 2 ^ 128 * inverseRatio 1 ≤ 2 ^ 256 - 1 := by decide +kernel
      refine (inverseRatio_le (by omega)).trans ?_
      rw [Nat.le_div_iff_mul_le (inverseRatio_pos (by omega))]
      exact (Nat.mul_le_mul_left _ below).trans first
    · rw [if_neg up']
      exact inverseRatio_antitone (by omega) (by omega)

theorem roundedPrice_mono {tick tick' : Int} (lower : -887272 ≤ tick) (ordered : tick ≤ tick')
    (upper : tick' ≤ 887272) : roundedPrice tick ≤ roundedPrice tick' := by
  have ratios := priceRatio_mono lower ordered upper
  unfold roundedPrice
  split <;> split <;> omega

theorem roundedPrice_lt {tick : Int} (lower : -887272 ≤ tick) (upper : tick ≤ 887272) :
    roundedPrice tick < 2 ^ 160 := by
  have greatest : roundedPrice 887272 < 2 ^ 160 := by decide +kernel
  exact Nat.lt_of_le_of_lt (roundedPrice_mono lower upper le_rfl) greatest

theorem roundedPrice_pos {tick : Int} (lower : -887272 ≤ tick) (upper : tick ≤ 887272) :
    0 < roundedPrice tick := by
  have least : 0 < roundedPrice (-887272) := by decide +kernel
  exact Nat.lt_of_lt_of_le least (roundedPrice_mono le_rfl lower upper)

/-- Within the bounds every tick has a price, which is not truncated. -/
theorem sqrtPriceAtTick_ok {tick : I24} (lower : minTick ≤ tick) (upper : tick ≤ maxTick) :
    ∃ price, sqrtPriceAtTick tick = .ok price ∧ price.toNat = roundedPrice tick.value := by
  have least : -887272 ≤ tick.value := lower
  have greatest : tick.value ≤ 887272 := upper
  refine ⟨_, sqrtPriceAtTick_eq (by omega), ?_⟩
  rw [BitVec.toNat_ofNat]
  exact Nat.mod_eq_of_lt (roundedPrice_lt least greatest)

theorem sqrtPriceAtTick_mono {tick tick' : I24} {price price' : U160} (lower : minTick ≤ tick)
    (ordered : tick ≤ tick') (upper : tick' ≤ maxTick) (priced : sqrtPriceAtTick tick = .ok price)
    (priced' : sqrtPriceAtTick tick' = .ok price') : price.toNat ≤ price'.toNat := by
  have here : tick.value ≤ tick'.value := ordered
  have below : tick ≤ maxTick := le_trans here upper
  have above : minTick ≤ tick' := le_trans lower here
  obtain ⟨price₁, found, value⟩ := sqrtPriceAtTick_ok lower below
  obtain ⟨price₂, found', value'⟩ := sqrtPriceAtTick_ok above upper
  obtain rfl := Except.ok.inj (priced.symm.trans found)
  obtain rfl := Except.ok.inj (priced'.symm.trans found')
  rw [value, value']
  exact roundedPrice_mono lower here upper

/-- The ratio after some of the factors. -/
def partialRatio (absTick : Nat) (done : List (Nat × Nat)) : Nat :=
  done.foldl
    (fun ratio (bit, factor) => if absTick &&& bit ≠ 0 then ratio * factor / 2 ^ 128 else ratio)
    (lowestRatio absTick)

theorem partialRatio_le (absTick : Nat) {done : List (Nat × Nat)}
    (fractions : ∀ entry ∈ done, entry.2 < 2 ^ 128) : partialRatio absTick done ≤ 2 ^ 128 := by
  induction done using List.reverseRecOn with
  | nil =>
    unfold partialRatio lowestRatio
    rw [List.foldl_nil]
    split <;> norm_num
  | append_singleton done entry inductionHypothesis =>
    have before := inductionHypothesis (fun entry listed =>
      fractions entry (List.mem_append_left _ listed))
    have fraction := fractions entry (List.mem_append_right _ List.mem_cons_self)
    obtain ⟨bit, factor⟩ := entry
    have next : partialRatio absTick (done ++ [(bit, factor)]) =
        if absTick &&& bit ≠ 0 then partialRatio absTick done * factor / 2 ^ 128
        else partialRatio absTick done := by
      simp only [partialRatio, List.foldl_append, List.foldl_cons, List.foldl_nil]
    rw [next]
    split
    · refine (Nat.div_le_div_right (Nat.mul_le_mul_left _ fraction.le)).trans ?_
      rw [Nat.mul_div_cancel _ (Nat.two_pow_pos 128)]
      exact before
    · exact before

/-- No product of a ratio with the next factor overflows. -/
theorem partialRatio_mul_lt (absTick : Nat) {done rest : List (Nat × Nat)} {bit factor : Nat}
    (split : tickFactors = done ++ (bit, factor) :: rest) :
    partialRatio absTick done * factor < 2 ^ 256 := by
  have fractions : ∀ entry ∈ tickFactors, entry.2 < 2 ^ 128 := by decide
  have ratio := @partialRatio_le absTick done (fun entry listed =>
    fractions entry (split ▸ List.mem_append_left _ listed))
  have fraction : factor < 2 ^ 128 :=
    fractions (bit, factor) (split ▸ List.mem_append_right _ List.mem_cons_self)
  calc partialRatio absTick done * factor
      ≤ 2 ^ 128 * factor := Nat.mul_le_mul_right _ ratio
    _ < 2 ^ 128 * 2 ^ 128 := Nat.mul_lt_mul_of_pos_left fraction (Nat.two_pow_pos 128)
    _ = 2 ^ 256 := by norm_num

/-! ### The ends of a range -/

section Range

variable {tick : I24} {tickSpacing : UInt16}

theorem tickLow_ok (lower : minTick ≤ tick) (upper : tick < maxTick) (spaced : 0 < tickSpacing) :
    ∃ low, tickLow tick tickSpacing = .ok low ∧ minTick ≤ low ∧ low ≤ tick ∧
      tick.value < low.value + tickSpacing.toNat := by
  have least : -887272 ≤ tick.value := lower
  have greatest : tick.value < 887272 := upper
  have positive : (0 : Int) < tickSpacing.toNat := Int.natCast_pos.mpr (UInt16.lt_iff_toNat_lt.mp spaced)
  have bounded := tickSpacing.toNat_lt
  have start := Int.ediv_mul_le tick.value positive.ne'
  have finish := Int.lt_ediv_add_one_mul_self tick.value positive
  rw [add_mul, one_mul] at finish
  have nonzero : tickSpacing ≠ 0 := by
    rintro rfl
    exact absurd spaced (by decide)
  have inside : ¬ (tick < minTick ∨ maxTick < tick) := by
    rintro (below | above)
    · exact absurd (show tick.value < -887272 from below) (by omega)
    · exact absurd (show 887272 < tick.value from above) (by omega)
  have fits : -8388608 ≤ tick.value / tickSpacing.toNat * tickSpacing.toNat ∧
      tick.value / tickSpacing.toNat * tickSpacing.toNat < 8388608 := by
    omega
  simp only [tickLow, inside, nonzero, if_false, I24.tryFrom, fits, and_self, dif_pos]
  refine ⟨_, rfl, ?_⟩
  split
  case isTrue clamped =>
    have below : tick.value / tickSpacing.toNat * tickSpacing.toNat < -887272 := clamped
    refine ⟨le_refl (-887272 : Int), lower, ?_⟩
    have clampedValue : minTick.value = -887272 := rfl
    omega
  case isFalse whole =>
    exact ⟨Int.not_lt.mp whole, start, finish⟩

theorem tickHigh_ok (lower : minTick ≤ tick) (upper : tick < maxTick) (spaced : 0 < tickSpacing) :
    ∃ high, tickHigh tick tickSpacing = .ok high ∧ tick < high ∧ high ≤ maxTick := by
  obtain ⟨low, found, aboveMin, belowTick, reach⟩ := tickLow_ok lower upper spaced
  have least : -887272 ≤ low.value := aboveMin
  have ordered : low.value ≤ tick.value := belowTick
  have greatest : tick.value < 887272 := upper
  have bounded := tickSpacing.toNat_lt
  have fits : -8388608 ≤ low.value + tickSpacing.toNat ∧
      low.value + tickSpacing.toNat < 8388608 := by
    omega
  simp only [tickHigh, found, I24.tryFrom, fits, and_self, dif_pos]
  refine ⟨_, rfl, ?_⟩
  split
  case isTrue clamped => exact ⟨upper, le_refl (887272 : Int)⟩
  case isFalse whole => exact ⟨reach, Int.not_lt.mp whole⟩

end Range

/-! ### Reserves between the ends -/

theorem virtualReserveX_toNat (sqrtPriceX96 : U160) (liquidity : U128) :
    (virtualReserveX sqrtPriceX96 liquidity).toNat =
      liquidity.toNat * 2 ^ 96 / sqrtPriceX96.toNat := by
  rw [virtualReserveX, BitVec.toNat_ofNat]
  have bound := liquidity.isLt
  have quotient := Nat.div_le_self (liquidity.toNat * 2 ^ 96) sqrtPriceX96.toNat
  exact Nat.mod_eq_of_lt (by omega)

theorem reserveY_lt (sqrtPriceX96 : U160) (liquidity : U128) :
    liquidity.toNat * sqrtPriceX96.toNat / 2 ^ 96 < 2 ^ 256 := by
  have product := Nat.mul_lt_mul'' liquidity.isLt sqrtPriceX96.isLt
  omega

theorem virtualReserveY_toNat (sqrtPriceX96 : U160) (liquidity : U128) :
    (virtualReserveY sqrtPriceX96 liquidity).toNat =
      liquidity.toNat * sqrtPriceX96.toNat / 2 ^ 96 := by
  rw [virtualReserveY, BitVec.toNat_ofNat]
  exact Nat.mod_eq_of_lt (reserveY_lt sqrtPriceX96 liquidity)

/-- The price of the state lies between those of its tick and the next one. -/
structure PoolState.AtTick (state : PoolState) : Prop where
  lower : minTick ≤ state.tick
  upper : state.tick < maxTick
  price : ∃ next priceHere priceNext, next.value = state.tick.value + 1 ∧
    sqrtPriceAtTick state.tick = .ok priceHere ∧ sqrtPriceAtTick next = .ok priceNext ∧
    priceHere.toNat ≤ state.sqrtPriceX96.toNat ∧ state.sqrtPriceX96.toNat ≤ priceNext.toNat

namespace PoolState.AtTick

variable {state : PoolState} {tickSpacing : UInt16} {limit : U256}

theorem price_above (real : state.AtTick) {low : I24} {priceLow : U160} (aboveMin : minTick ≤ low)
    (belowTick : low ≤ state.tick) (priced : sqrtPriceAtTick low = .ok priceLow) :
    priceLow.toNat ≤ state.sqrtPriceX96.toNat := by
  obtain ⟨-, priceHere, -, -, found, -, below, -⟩ := real.price
  have upper : state.tick ≤ maxTick := le_of_lt (show state.tick.value < maxTick.value from real.upper)
  exact (sqrtPriceAtTick_mono aboveMin belowTick upper priced found).trans below

theorem price_below (real : state.AtTick) {high : I24} {priceHigh : U160}
    (aboveTick : state.tick < high) (belowMax : high ≤ maxTick)
    (priced : sqrtPriceAtTick high = .ok priceHigh) :
    state.sqrtPriceX96.toNat ≤ priceHigh.toNat := by
  obtain ⟨next, -, priceNext, following, -, found, -, above⟩ := real.price
  have least : minTick.value ≤ state.tick.value := real.lower
  have ordered : state.tick.value < high.value := aboveTick
  have fromMin : minTick ≤ next := show minTick.value ≤ next.value by omega
  have reach : next ≤ high := show next.value ≤ high.value by omega
  exact above.trans (sqrtPriceAtTick_mono fromMin reach belowMax found priced)

/-- The whole limit on the side of token 0 leads to the lower end of the range. -/
theorem swapLimitX_ok (real : state.AtTick) {low : I24} {priceLow : U160}
    (found : tickLow state.tick tickSpacing = .ok low) (aboveMin : minTick ≤ low)
    (belowTick : low ≤ state.tick) (priced : sqrtPriceAtTick low = .ok priceLow) :
    ∃ limit, state.swapLimitX tickSpacing = .ok limit ∧
      state.virtualReserveX.toNat + limit.toNat =
        (ArmchairAnalyst.virtualReserveX priceLow state.liquidity).toNat := by
  have prices := real.price_above aboveMin belowTick priced
  have lowBounded : low ≤ maxTick :=
    le_trans (show low.value ≤ state.tick.value from belowTick)
      (le_of_lt (show state.tick.value < maxTick.value from real.upper))
  obtain ⟨price, priced', value⟩ := sqrtPriceAtTick_ok aboveMin lowBounded
  obtain rfl := Except.ok.inj (priced.symm.trans priced')
  have positive : 0 < priceLow.toNat := value ▸ roundedPrice_pos aboveMin lowBounded
  have reserves : state.virtualReserveX.toNat ≤
      (ArmchairAnalyst.virtualReserveX priceLow state.liquidity).toNat := by
    rw [PoolState.virtualReserveX, virtualReserveX_toNat, virtualReserveX_toNat]
    exact Nat.div_le_div_left prices positive
  have notLess : ¬ ArmchairAnalyst.virtualReserveX priceLow state.liquidity < state.virtualReserveX :=
    Nat.not_lt.mpr reserves
  refine ⟨ArmchairAnalyst.virtualReserveX priceLow state.liquidity - state.virtualReserveX, ?_, ?_⟩
  · simp only [swapLimitX, found, priced, notLess, if_false]
  · rw [BitVec.toNat_sub_of_le reserves]
    omega

/-- The whole limit on the side of token 1 leads to the upper end of the range. -/
theorem swapLimitY_ok (real : state.AtTick) {high : I24} {priceHigh : U160}
    (found : tickHigh state.tick tickSpacing = .ok high) (aboveTick : state.tick < high)
    (belowMax : high ≤ maxTick) (priced : sqrtPriceAtTick high = .ok priceHigh) :
    ∃ limit, state.swapLimitY tickSpacing = .ok limit ∧
      state.virtualReserveY.toNat + limit.toNat =
        (ArmchairAnalyst.virtualReserveY priceHigh state.liquidity).toNat := by
  have prices := real.price_below aboveTick belowMax priced
  have reserves : state.virtualReserveY.toNat ≤
      (ArmchairAnalyst.virtualReserveY priceHigh state.liquidity).toNat := by
    rw [PoolState.virtualReserveY, virtualReserveY_toNat, virtualReserveY_toNat]
    exact Nat.div_le_div_right (Nat.mul_le_mul_left _ prices)
  have notLess : ¬ ArmchairAnalyst.virtualReserveY priceHigh state.liquidity < state.virtualReserveY :=
    Nat.not_lt.mpr reserves
  refine ⟨ArmchairAnalyst.virtualReserveY priceHigh state.liquidity - state.virtualReserveY, ?_, ?_⟩
  · simp only [swapLimitY, found, priced, notLess, if_false]
  · rw [BitVec.toNat_sub_of_le reserves]
    omega

end PoolState.AtTick

/-! ### The lossless pool of a state -/

def LosslessPool.fromPoolState (state : PoolState) (metadata : PoolMetadata) (chain : ChainKey) :
    Except PoolStateError LosslessPool :=
  let tickSpacing := metadata.fee.tickSpacing
  match state.swapLimitX tickSpacing with
  | .error error => .error error
  | .ok swapLimit0 =>
    match state.swapLimitY tickSpacing with
    | .error error => .error error
    | .ok swapLimit1 =>
      .ok
        { token0 := { address := metadata.token0, chain }
          token1 := { address := metadata.token1, chain }
          reserve0 := state.virtualReserveX
          reserve1 := state.virtualReserveY
          feePips := metadata.fee.pips
          swapLimit0
          swapLimit1 }

/-- A state whose price is at its tick has both limits, and they lead exactly to the ends
of its range. Prices rise with the tick, and nothing on the way to them overflows. -/
theorem tickRange_consistent {state : PoolState} (real : state.AtTick) {tickSpacing : UInt16}
    (spaced : 0 < tickSpacing) :
    (∃ low high priceLow priceHigh limitX limitY,
      tickLow state.tick tickSpacing = .ok low ∧ tickHigh state.tick tickSpacing = .ok high ∧
      minTick ≤ low ∧ low ≤ state.tick ∧ state.tick < high ∧ high ≤ maxTick ∧
      sqrtPriceAtTick low = .ok priceLow ∧ sqrtPriceAtTick high = .ok priceHigh ∧
      state.swapLimitX tickSpacing = .ok limitX ∧ state.swapLimitY tickSpacing = .ok limitY ∧
      state.virtualReserveX.toNat + limitX.toNat =
        (virtualReserveX priceLow state.liquidity).toNat ∧
      state.virtualReserveY.toNat + limitY.toNat =
        (virtualReserveY priceHigh state.liquidity).toNat ∧
      ∀ metadata chain, metadata.fee.tickSpacing = tickSpacing →
        ∃ pool, LosslessPool.fromPoolState state metadata chain = .ok pool ∧
          pool.swapLimit0 = limitX ∧ pool.swapLimit1 = limitY) ∧
    (∀ tick tick' price price', minTick ≤ tick → tick ≤ tick' → tick' ≤ maxTick →
      sqrtPriceAtTick tick = .ok price → sqrtPriceAtTick tick' = .ok price' →
      price.toNat ≤ price'.toNat) ∧
    (∀ tick, minTick ≤ tick → tick ≤ maxTick →
      0 < inverseRatio tick.value.natAbs ∧ roundedPrice tick.value < 2 ^ 160 ∧
      sqrtPriceAtTick tick = .ok (BitVec.ofNat 160 (roundedPrice tick.value)) ∧
      ∀ done bit factor rest, tickFactors = done ++ (bit, factor) :: rest →
        partialRatio tick.value.natAbs done * factor < 2 ^ 256) ∧
    ∀ price : U160, state.liquidity.toNat * 2 ^ 96 < 2 ^ 256 ∧
      state.liquidity.toNat * price.toNat / 2 ^ 96 < 2 ^ 256 := by
  refine ⟨?_, ?_, ?_, ?_⟩
  · obtain ⟨low, foundLow, aboveMin, belowTick, -⟩ := tickLow_ok real.lower real.upper spaced
    obtain ⟨high, foundHigh, aboveTick, belowMax⟩ := tickHigh_ok real.lower real.upper spaced
    have least : minTick.value ≤ low.value := aboveMin
    have lowest : minTick.value ≤ state.tick.value := real.lower
    have under : low.value ≤ state.tick.value := belowTick
    have beyond : state.tick.value < high.value := aboveTick
    have most : high.value ≤ maxTick.value := belowMax
    obtain ⟨priceLow, pricedLow, -⟩ :=
      sqrtPriceAtTick_ok aboveMin (show low.value ≤ maxTick.value by omega)
    obtain ⟨priceHigh, pricedHigh, -⟩ :=
      sqrtPriceAtTick_ok (show minTick.value ≤ high.value by omega) belowMax
    obtain ⟨limitX, foundX, fullX⟩ := real.swapLimitX_ok foundLow aboveMin belowTick pricedLow
    obtain ⟨limitY, foundY, fullY⟩ := real.swapLimitY_ok foundHigh aboveTick belowMax pricedHigh
    refine ⟨low, high, priceLow, priceHigh, limitX, limitY, foundLow, foundHigh, aboveMin, belowTick,
      aboveTick, belowMax, pricedLow, pricedHigh, foundX, foundY, fullX, fullY, ?_⟩
    intro metadata chain spacing
    simp only [LosslessPool.fromPoolState, spacing, foundX, foundY]
    exact ⟨_, rfl, rfl, rfl⟩
  · intro tick tick' price price' lower ordered upper
    exact sqrtPriceAtTick_mono lower ordered upper
  · intro tick lower upper
    have least : -887272 ≤ tick.value := lower
    have greatest : tick.value ≤ 887272 := upper
    exact ⟨inverseRatio_pos (by omega), roundedPrice_lt least greatest,
      sqrtPriceAtTick_eq (by omega), fun done bit factor rest split => partialRatio_mul_lt _ split⟩
  · intro price
    have bound := state.liquidity.isLt
    exact ⟨by omega, reserveY_lt price state.liquidity⟩

/-- At a price of one, in a range of sixty ticks. -/
def statePar : PoolState where
  sqrtPriceX96 := BitVec.ofNat 160 (2 ^ 96)
  tick := (I24.tryFrom 0).getD minTick
  liquidity := 1000000000000000000

theorem tickRange_consistent_par :
    statePar.virtualReserveX.toNat = 1000000000000000000 ∧
      ∃ limitX limitY, statePar.swapLimitX 60 = .ok limitX ∧ statePar.swapLimitY 60 = .ok limitY := by
  have real : statePar.AtTick :=
    { lower := by decide
      upper := by decide
      price := ⟨(I24.tryFrom 1).getD minTick, _, _, rfl, rfl, rfl,
        by decide +kernel, by decide +kernel⟩ }
  obtain ⟨⟨_, _, _, _, limitX, limitY, -, -, -, -, -, -, -, -, foundX, foundY, -⟩, -⟩ :=
    tickRange_consistent real (show 0 < (60 : UInt16) by decide)
  exact ⟨by decide +kernel, limitX, limitY, foundX, foundY⟩

end ArmchairAnalyst

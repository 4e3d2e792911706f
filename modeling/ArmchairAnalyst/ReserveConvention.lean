import ArmchairAnalyst.StageOrder

/-!
# The convention for reserves

The gate adds the whole input of a swap to the reserve of its side, while on chain the
fee stays outside. A later swap in the same direction then pays less, one in the other
direction pays more. The gate understates as long as none of its hops is paid more than on
chain, and that depends on how pools are used again.
-/

namespace ArmchairAnalyst

namespace LosslessPool

/-- A swap that adds some part of the input to the reserve of its side. -/
def swapAdding (added : LosslessPool → Side → U256 → U256) : SwapRule := fun pool tokenIn amountIn =>
  match pool.sideOf tokenIn with
  | none => .error .tokenNotInPool
  | some side =>
    let hop := pool.hop side amountIn
    .ok (pool.moved (added pool side amountIn) hop.out side, hop)

/-- Only what is swapped after the fee and within the tick enters the reserve. -/
def addedOnChain (pool : LosslessPool) (side : Side) (amountIn : U256) : U256 :=
  cappedInput (pool.swapLimit side) (pool.afterFee amountIn)

def swapOnChain : SwapRule := swapAdding addedOnChain

theorem swap_eq_swapAdding : LosslessPool.swap = swapAdding (fun _ _ amountIn => amountIn) := by
  funext pool tokenIn amountIn
  exact swap_eq pool tokenIn amountIn

end LosslessPool

/-- The replay with the reserves as on chain. -/
def referenceReplay (plan : ExecutionPlan) (resolve : PoolRef → Option LosslessPool)
    (entryAmount : U256) : Except LosslessReplayError LosslessOutcome :=
  replayPlanBy LosslessPool.swapOnChain plan resolve entryAmount

/-- Without a hop beyond its limit the gate returns at most what the reference does. -/
def NeverOverstates (plan : ExecutionPlan) (resolve : PoolRef → Option LosslessPool)
    (entryAmount : U256) : Prop :=
  ∀ output reference,
    replayPlanLossless plan resolve entryAmount = .ok { output, hitTickLimit := false } →
    referenceReplay plan resolve entryAmount = .ok { output := reference, hitTickLimit := false } →
    output.toNat ≤ reference.toNat

/-! ### What each hop is paid -/

section

variable (rule : SwapRule) (plan : ExecutionPlan) (resolve : PoolRef → Option LosslessPool)
  (entryAmount : U256)

/-- The replay enters a stage in `start`, and is in `next` once it has taken the steps `done`
of the stage. -/
structure Reaches (stage : Nat) (done : List ExecutableStep) (start next : StageStart) : Prop where
  started : startOfStageBy rule plan resolve entryAmount stage = .ok start
  ran : done.foldlM (replayStepBy rule start.balances) { start with balances := ∅ } = .ok next

/-- Before every swap, and as long as no hop went beyond its limit, the gate's pool pays for
the gate's input at most what the reference's pool pays for the reference's input. -/
def NoHopOverpays : Prop :=
  ∀ stage done step later, stageSteps plan stage = done ++ step :: later →
    ∀ start gate start' reference,
      Reaches LosslessPool.swap plan resolve entryAmount stage done start gate →
      Reaches LosslessPool.swapOnChain plan resolve entryAmount stage done start' reference →
      gate.hitTickLimit = false →
      ∀ pool entry entry' side, step.kind = .swap pool → gate.book[pool]? = some entry →
        reference.book[pool]? = some entry' → entry.sideOf step.tokenIn = some side →
          (entry.hop side (stepInput start.balances step)).out.toNat ≤
            (entry'.hop side (stepInput start'.balances step)).out.toNat

end

/-! ### How pools are used again -/

/-- The steps in the order in which a replay takes them. -/
def replayOrder (plan : ExecutionPlan) : List ExecutableStep :=
  (List.range (stageCount plan)).flatMap (stageSteps plan)

def poolUses (plan : ExecutionPlan) (pool : PoolRef) : List ExecutableStep :=
  (replayOrder plan).filter (fun step => step.UsesPool pool)

/-- All uses of a pool but its last one lie in the stages up to `boundary`. A pool with a
fee is used at most twice, in one direction and not before that stage for the second time.
A fee of the whole input is exempt, for it pays nothing out. -/
def ConservativeUntil (plan : ExecutionPlan) (resolve : PoolRef → Option LosslessPool)
    (boundary : Nat) : Prop :=
  ∀ pool entry, resolve pool = some entry → entry.feePips.toNat < pipsDenominator →
    ∀ earlier later, [earlier, later].Sublist (poolUses plan pool) →
      earlier.stage ≤ boundary ∧
      (entry.feePips.toNat ≠ 0 →
        (poolUses plan pool).length = 2 ∧ later.tokenIn = earlier.tokenIn ∧ boundary ≤ later.stage)

def ReusesConservatively (plan : ExecutionPlan) (resolve : PoolRef → Option LosslessPool) : Prop :=
  ∃ boundary, ConservativeUntil plan resolve boundary

/-! ### Two pools with the same terms -/

structure SameTerms (pool pool' : LosslessPool) : Prop where
  token0 : pool'.token0 = pool.token0
  token1 : pool'.token1 = pool.token1
  feePips : pool'.feePips = pool.feePips
  swapLimit0 : pool'.swapLimit0 = pool.swapLimit0
  swapLimit1 : pool'.swapLimit1 = pool.swapLimit1

namespace SameTerms

variable {pool pool' : LosslessPool}

theorem refl (pool : LosslessPool) : SameTerms pool pool := ⟨rfl, rfl, rfl, rfl, rfl⟩

theorem moved (same : SameTerms pool pool') (added added' out out' : U256) (side : Side) :
    SameTerms (pool.moved added out side) (pool'.moved added' out' side) := by
  obtain ⟨token0, token1, feePips, swapLimit0, swapLimit1⟩ := same
  cases side <;> exact ⟨token0, token1, feePips, swapLimit0, swapLimit1⟩

theorem sideOf_eq (same : SameTerms pool pool') (tokenIn : TokenAddress) :
    pool'.sideOf tokenIn = pool.sideOf tokenIn := by
  unfold LosslessPool.sideOf
  rw [same.token0, same.token1]

theorem swapLimit_eq (same : SameTerms pool pool') (side : Side) :
    pool'.swapLimit side = pool.swapLimit side := by
  cases side
  · exact same.swapLimit0
  · exact same.swapLimit1

theorem afterFee_eq (same : SameTerms pool pool') (amountIn : U256) :
    pool'.afterFee amountIn = pool.afterFee amountIn := by
  unfold LosslessPool.afterFee
  rw [same.feePips]

end SameTerms

namespace LosslessPool

@[simp] theorem moved_feePips (pool : LosslessPool) (added out : U256) (side : Side) :
    (pool.moved added out side).feePips = pool.feePips := by
  cases side <;> rfl

theorem cappedInput_toNat (limit afterFee : U256) :
    (cappedInput limit afterFee).toNat = min afterFee.toNat limit.toNat := by
  unfold cappedInput
  split
  case isTrue exceeds =>
    have below : limit.toNat < afterFee.toNat := exceeds
    omega
  case isFalse within =>
    have above : afterFee.toNat ≤ limit.toNat := Nat.not_lt.mp within
    omega

theorem afterFee_mono (pool : LosslessPool) {amountIn amountIn' : U256}
    (more : amountIn.toNat ≤ amountIn'.toNat) :
    (pool.afterFee amountIn).toNat ≤ (pool.afterFee amountIn').toNat := by
  rw [afterFee_toNat, afterFee_toNat]
  exact Nat.div_le_div_right (Nat.mul_le_mul_right _ more)

/-- Reserves that are worse for the input side pay no more. -/
theorem hop_out_mono {pool pool' : LosslessPool} (same : SameTerms pool pool') {side : Side}
    (less : (pool'.reserve side).toNat ≤ (pool.reserve side).toNat)
    (more : (pool.reserve side.other).toNat ≤ (pool'.reserve side.other).toNat)
    {amountIn amountIn' : U256} (larger : amountIn.toNat ≤ amountIn'.toNat) :
    (pool.hop side amountIn).out.toNat ≤ (pool'.hop side amountIn').out.toNat := by
  rw [hop, hop, swapOut_out_toNat, swapOut_out_toNat, same.swapLimit_eq, same.afterFee_eq]
  apply constantProductOut_mono less more
  have kept := pool.afterFee_mono larger
  rw [cappedInput_toNat, cappedInput_toNat]
  omega

theorem hop_out_of_wholeFee {pool : LosslessPool} (whole : pipsDenominator ≤ pool.feePips.toNat)
    (side : Side) (amountIn : U256) : (pool.hop side amountIn).out.toNat = 0 := by
  have nothing : (pool.afterFee amountIn).toNat = 0 := by
    rw [afterFee_toNat, Nat.sub_eq_zero_of_le whole]
    simp
  have capped := cappedInput_le (pool.swapLimit side) (pool.afterFee amountIn)
  rw [hop, swapOut_out_toNat, Nat.eq_zero_of_le_zero (capped.trans nothing.le)]
  exact constantProductOut_zero _ _

theorem cappedInput_of_hop {pool : LosslessPool} {side : Side} {amountIn : U256}
    (unlimited : (pool.hop side amountIn).hitLimit = false) :
    cappedInput (pool.swapLimit side) (pool.afterFee amountIn) = pool.afterFee amountIn := by
  have within : ¬ pool.swapLimit side < pool.afterFee amountIn := by
    simpa [hop, swapOut] using unlimited
  simp only [cappedInput, within, if_false]

theorem afterFee_of_noFee {pool : LosslessPool} (free : pool.feePips.toNat = 0) (amountIn : U256) :
    pool.afterFee amountIn = amountIn := by
  apply BitVec.eq_of_toNat_eq
  rw [afterFee_toNat, free]
  exact Nat.mul_div_cancel _ (by decide)

@[simp] theorem hop_zero_out (pool : LosslessPool) (side : Side) :
    (pool.hop side 0).out = 0 := by
  apply BitVec.eq_of_toNat_eq
  have nothing := pool.afterFee_le 0
  have capped := cappedInput_le (pool.swapLimit side) (pool.afterFee 0)
  rw [hop, swapOut_out_toNat, Nat.eq_zero_of_le_zero (capped.trans nothing)]
  exact constantProductOut_zero _ _

theorem hop_zero_hitLimit (pool : LosslessPool) (side : Side) :
    (pool.hop side 0).hitLimit = false := by
  have nothing : (pool.afterFee 0).toNat = 0 := Nat.eq_zero_of_le_zero (pool.afterFee_le 0)
  simp only [hop, swapOut, decide_eq_false_iff_not]
  intro exceeds
  have below : (pool.swapLimit side).toNat < (pool.afterFee 0).toNat := exceeds
  omega

theorem moved_zero (pool : LosslessPool) (side : Side) : pool.moved 0 0 side = pool := by
  have added : ∀ amount : U256, saturatingAdd amount 0 = amount := by
    intro amount
    apply BitVec.eq_of_toNat_eq
    have bound := amount.isLt
    rw [saturatingAdd_toNat]
    simp
    omega
  have taken : ∀ amount : U256, saturatingSub amount 0 = amount := by
    intro amount
    apply BitVec.eq_of_toNat_eq
    rw [saturatingSub_toNat]
    simp
  cases side <;> simp only [moved, added, taken]

end LosslessPool

/-! ### One pool in the two replays -/

/-- How the entry of a pool in the gate's book stands to that in the reference's, with the
steps before and after in sight. -/
inductive Standing (before after : List ExecutableStep) (pool : PoolRef) :
    LosslessPool → LosslessPool → Prop
  | same (entry : LosslessPool) : Standing before after pool entry entry
  | idle {gate reference : LosslessPool} : SameTerms gate reference →
      pipsDenominator ≤ gate.feePips.toNat → Standing before after pool gate reference
  /-- The gate has kept the fee of one earlier swap. -/
  | skewed {gate reference : LosslessPool} (earlier : ExecutableStep) (side : Side) :
      SameTerms gate reference → earlier ∈ before → earlier.UsesPool pool →
      gate.sideOf earlier.tokenIn = some side → gate.feePips.toNat ≠ 0 →
      (reference.reserve side).toNat ≤ (gate.reserve side).toNat →
      reference.reserve side.other = gate.reserve side.other →
      Standing before after pool gate reference
  | spent {gate reference : LosslessPool} : (∀ step ∈ after, ¬ step.UsesPool pool) →
      Standing before after pool gate reference

theorem Standing.later {before after : List ExecutableStep} {pool : PoolRef}
    {gate reference : LosslessPool} {step : ExecutableStep}
    (standing : Standing before (step :: after) pool gate reference) :
    Standing (before ++ [step]) after pool gate reference := by
  cases standing with
  | same => exact .same _
  | idle same whole => exact .idle same whole
  | skewed earlier side same member uses paysIn charged less equal =>
    exact .skewed earlier side same (List.mem_append_left _ member) uses paysIn charged less equal
  | spent unused => exact .spent (fun other member => unused other (List.mem_cons_of_mem _ member))

structure EntriesAgree (resolve : PoolRef → Option LosslessPool) (before after : List ExecutableStep)
    (pool : PoolRef) (gate reference : LosslessPool) : Prop where
  fee : ∃ opened, resolve pool = some opened ∧ gate.feePips = opened.feePips
  standing : Standing before after pool gate reference

theorem EntriesAgree.later {resolve : PoolRef → Option LosslessPool}
    {before after : List ExecutableStep} {pool : PoolRef} {gate reference : LosslessPool}
    {step : ExecutableStep} (agree : EntriesAgree resolve before (step :: after) pool gate reference) :
    EntriesAgree resolve (before ++ [step]) after pool gate reference :=
  ⟨agree.fee, agree.standing.later⟩

section Uses

variable {plan : ExecutionPlan} {before after : List ExecutableStep} {step : ExecutableStep}
  {pool : PoolRef}

theorem uses_before {earlier : ExecutableStep} (order : before ++ step :: after = replayOrder plan)
    (member : earlier ∈ before) (uses : earlier.UsesPool pool) (usesNow : step.UsesPool pool) :
    [earlier, step].Sublist (poolUses plan pool) := by
  have listed : [earlier, step].Sublist (before ++ step :: after) :=
    (List.singleton_sublist.mpr member).append
      (List.singleton_sublist.mpr List.mem_cons_self)
  have kept := listed.filter (fun step => step.UsesPool pool)
  simpa [poolUses, uses, usesNow, order] using kept

theorem uses_after {later : ExecutableStep} (order : before ++ step :: after = replayOrder plan)
    (member : later ∈ after) (uses : later.UsesPool pool) (usesNow : step.UsesPool pool) :
    [step, later].Sublist (poolUses plan pool) := by
  have listed : [step, later].Sublist (before ++ step :: after) :=
    (List.nil_sublist before).append
      ((List.singleton_sublist.mpr member).cons_cons step)
  have kept := listed.filter (fun step => step.UsesPool pool)
  simpa [poolUses, uses, usesNow, order] using kept

theorem uses_around {earlier later : ExecutableStep}
    (order : before ++ step :: after = replayOrder plan)
    (member : earlier ∈ before) (uses : earlier.UsesPool pool) (usesNow : step.UsesPool pool)
    (member' : later ∈ after) (uses' : later.UsesPool pool) :
    3 ≤ (poolUses plan pool).length := by
  have listed : [earlier, step, later].Sublist (before ++ step :: after) :=
    (List.singleton_sublist.mpr member).append
      ((List.singleton_sublist.mpr member').cons_cons step)
  have kept := listed.filter (fun step => step.UsesPool pool)
  have counted := kept.length_le
  rw [order] at counted
  simpa [poolUses, uses, usesNow, uses'] using counted

end Uses

section Use

variable {plan : ExecutionPlan} {resolve : PoolRef → Option LosslessPool} {boundary : Nat}
  {before after : List ExecutableStep} {step : ExecutableStep} {pool : PoolRef}
  {gate reference : LosslessPool} {side : Side} {amountIn amountIn' : U256}

theorem EntriesAgree.sameTerms (agree : EntriesAgree resolve before (step :: after) pool gate reference)
    (uses : step.UsesPool pool) : SameTerms gate reference := by
  obtain ⟨-, standing⟩ := agree
  cases standing with
  | same => exact .refl _
  | idle same => exact same
  | skewed earlier side same => exact same
  | spent unused => exact absurd uses (unused step List.mem_cons_self)

/-- One more use of a pool, by the gate with at most the amount of the reference, pays no
more. -/
theorem EntriesAgree.pays (conservative : ConservativeUntil plan resolve boundary)
    (order : before ++ step :: after = replayOrder plan)
    (agree : EntriesAgree resolve before (step :: after) pool gate reference)
    (uses : step.UsesPool pool) (paysIn : gate.sideOf step.tokenIn = some side)
    (less : amountIn.toNat ≤ amountIn'.toNat)
    (equalUntil : step.stage ≤ boundary → amountIn = amountIn') :
    (gate.hop side amountIn).out.toNat ≤ (reference.hop side amountIn').out.toNat ∧
      (step.stage < boundary → (gate.hop side amountIn).out = (reference.hop side amountIn').out) := by
  have same := agree.sameTerms uses
  obtain ⟨⟨opened, resolved, fee⟩, standing⟩ := agree
  by_cases whole : pipsDenominator ≤ gate.feePips.toNat
  · have paid := LosslessPool.hop_out_of_wholeFee whole side amountIn
    have paid' := LosslessPool.hop_out_of_wholeFee (same.feePips ▸ whole) side amountIn'
    exact ⟨by omega, fun _ => BitVec.eq_of_toNat_eq (paid.trans paid'.symm)⟩
  · cases standing with
    | same =>
      refine ⟨LosslessPool.hop_out_mono same le_rfl le_rfl less, ?_⟩
      intro early
      rw [equalUntil early.le]
    | idle _ whole' => exact absurd whole' whole
    | skewed earlier side' _ member usesBefore paysIn' charged lower equal =>
      have charging : opened.feePips.toNat < pipsDenominator := by
        rw [← fee]
        omega
      obtain ⟨-, twice⟩ := conservative pool opened resolved charging earlier step
        (uses_before order member usesBefore uses)
      obtain ⟨-, direction, late⟩ := twice (fee ▸ charged)
      have sides : side' = side := by
        rw [← direction, paysIn] at paysIn'
        exact (Option.some.inj paysIn').symm
      subst sides
      refine ⟨LosslessPool.hop_out_mono same lower (by rw [equal]) less, ?_⟩
      intro early
      omega
    | spent unused => exact absurd uses (unused step List.mem_cons_self)

theorem EntriesAgree.use (conservative : ConservativeUntil plan resolve boundary)
    (order : before ++ step :: after = replayOrder plan)
    (agree : EntriesAgree resolve before (step :: after) pool gate reference)
    (uses : step.UsesPool pool) (paysIn : gate.sideOf step.tokenIn = some side)
    (equalUntil : step.stage ≤ boundary → amountIn = amountIn')
    (unlimited : (gate.hop side amountIn).hitLimit = false) :
    EntriesAgree resolve (before ++ [step]) after pool
      (gate.moved amountIn (gate.hop side amountIn).out side)
      (reference.moved (reference.addedOnChain side amountIn') (reference.hop side amountIn').out
        side) := by
  have same := agree.sameTerms uses
  obtain ⟨⟨opened, resolved, fee⟩, standing⟩ := agree
  refine ⟨⟨opened, resolved, by rw [LosslessPool.moved_feePips, fee]⟩, ?_⟩
  by_cases whole : pipsDenominator ≤ gate.feePips.toNat
  · exact .idle (same.moved _ _ _ _ side) (by simpa using whole)
  · have charging : opened.feePips.toNat < pipsDenominator := by
      rw [← fee]
      omega
    have rules := conservative pool opened resolved charging
    cases standing with
    | same =>
      by_cases again : ∃ later ∈ after, later.UsesPool pool
      · obtain ⟨later, member, usesLater⟩ := again
        obtain ⟨early, -⟩ := rules step later (uses_after order member usesLater uses)
        obtain rfl := equalUntil early
        by_cases free : gate.feePips.toNat = 0
        · rw [LosslessPool.addedOnChain, LosslessPool.cappedInput_of_hop unlimited,
            LosslessPool.afterFee_of_noFee free]
          exact .same _
        · refine .skewed step side (same.moved _ _ _ _ side)
            (List.mem_append_right _ List.mem_cons_self) uses (by simpa using paysIn)
            (by simpa using free) ?_ (by simp)
          have capped := (cappedInput_le (gate.swapLimit side) (gate.afterFee amountIn)).trans
            (gate.afterFee_le amountIn)
          rw [LosslessPool.moved_reserve, LosslessPool.moved_reserve, saturatingAdd_toNat,
            saturatingAdd_toNat, LosslessPool.addedOnChain]
          omega
      · push Not at again
        exact .spent again
    | idle _ whole' => exact absurd whole' whole
    | skewed earlier side' _ member usesBefore paysIn' charged lower equal =>
      obtain ⟨-, twice⟩ := rules earlier step (uses_before order member usesBefore uses)
      have pair := (twice (fee ▸ charged)).1
      refine .spent ?_
      intro later memberLater usesLater
      have thrice := uses_around order member usesBefore uses memberLater usesLater
      omega
    | spent unused => exact absurd uses (unused step List.mem_cons_self)

end Use

/-! ### One step of both replays -/

theorem StepEffect.apply_available (effect : StepEffect) (tokenOut token : TokenAddress)
    (next : StageStart) :
    ((effect.apply tokenOut next).balances.available token).toNat =
      if token = tokenOut then
        min ((next.balances.available token).toNat + (effect.credit.getD 0).toNat) (2 ^ 256 - 1)
      else (next.balances.available token).toNat := by
  have bound := (next.balances.available token).isLt
  unfold apply
  cases effect.credit with
  | none =>
    simp only [Option.getD_none]
    split
    · have zero : (0 : U256).toNat = 0 := rfl
      omega
    · rfl
  | some amount =>
    simp only [Option.getD_some, Balances.available_add]
    split
    · rw [saturatingAdd_toNat]
    · rfl

theorem weightedAmount_mono {balance balance' : U256} (less : balance.toNat ≤ balance'.toNat)
    (weight : ℚ) : (weightedAmount balance weight).toNat ≤ (weightedAmount balance' weight).toNat := by
  rw [weightedAmount_toNat, weightedAmount_toNat]
  exact Nat.div_le_div_right (Nat.mul_le_mul_right _ less)

section Swapped

variable {added : LosslessPool → Side → U256 → U256} {balances : Balances}
  {book : HashMap PoolRef LosslessPool} {step : ExecutableStep} {pool : PoolRef}
  {entry : LosslessPool} {side : Side} {effect : StepEffect}

/-- A swap of nothing has the effect that the entry and the balances already show. -/
theorem stepEffect_swapAdding (nothingAdded : added entry side 0 = 0)
    (kind : step.kind = .swap pool)
    (computed : stepEffect (LosslessPool.swapAdding added) balances book step = .ok effect)
    (found : book[pool]? = some entry) (paysIn : entry.sideOf step.tokenIn = some side) :
    effect.credit.getD 0 = (entry.hop side (stepInput balances step)).out ∧
    effect.hitLimit = (entry.hop side (stepInput balances step)).hitLimit ∧
    ∀ tokenOut next, next.book = book → ∀ other, (effect.apply tokenOut next).book[other]? =
      if other = pool then
        some (entry.moved (added entry side (stepInput balances step))
          (entry.hop side (stepInput balances step)).out side)
      else next.book[other]? := by
  rcases stepEffect_swap kind computed with ⟨empty, rfl⟩ | ⟨-, entry', next', hop, found', swapped, rfl⟩
  · rw [empty, nothingAdded, LosslessPool.hop_zero_out, LosslessPool.moved_zero]
    refine ⟨rfl, (LosslessPool.hop_zero_hitLimit entry side).symm, ?_⟩
    rintro tokenOut next rfl other
    by_cases here : other = pool
    · subst here
      simp [StepEffect.apply, StepEffect.nothing, found]
    · simp [StepEffect.apply, StepEffect.nothing, here]
  · obtain rfl := Option.some.inj (found.symm.trans found')
    simp only [LosslessPool.swapAdding, paysIn, Except.ok.injEq, Prod.mk.injEq] at swapped
    obtain ⟨rfl, rfl⟩ := swapped
    refine ⟨rfl, rfl, ?_⟩
    rintro tokenOut next rfl other
    simp only [StepEffect.apply, HashMap.getElem?_insert]

theorem paysIn_of_stepEffect (kind : step.kind = .swap pool)
    (computed : stepEffect (LosslessPool.swapAdding added) balances book step = .ok effect)
    (routed : stepInput balances step ≠ 0) :
    ∃ entry side, book[pool]? = some entry ∧ entry.sideOf step.tokenIn = some side := by
  rcases stepEffect_swap kind computed with ⟨empty, -⟩ | ⟨-, entry, _, _, found, swapped, -⟩
  · exact absurd empty routed
  · cases side : entry.sideOf step.tokenIn with
    | none => simp [LosslessPool.swapAdding, side] at swapped
    | some side' => exact ⟨entry, side', found, side⟩

end Swapped

/-- The balances of the gate are below those of the reference, or equal as long as
`exactly` holds, and the entries of the two books are related. -/
structure StatesAgree (Entries : PoolRef → LosslessPool → LosslessPool → Prop) (exactly : Prop)
    (gate reference : StageStart) : Prop where
  less : ∀ token,
    (gate.balances.available token).toNat ≤ (reference.balances.available token).toNat
  equal : exactly → ∀ token,
    gate.balances.available token = reference.balances.available token
  book : ∀ pool, gate.book[pool]? = none ∧ reference.book[pool]? = none ∨
    ∃ entry entry', gate.book[pool]? = some entry ∧ reference.book[pool]? = some entry' ∧
      Entries pool entry entry'

section OneStep

variable {Entries Entries' : PoolRef → LosslessPool → LosslessPool → Prop} {exactly : Prop}
  {step : ExecutableStep} {gate reference : StageStart} {balances balances' : Balances}
  {effect effect' : StepEffect}

/-- Where the reference has nothing to swap, the gate has nothing either. -/
theorem stepInput_eq_zero (less : (stepInput balances step).toNat ≤ (stepInput balances' step).toNat)
    (empty : stepInput balances' step = 0) : stepInput balances step = 0 := by
  apply BitVec.eq_of_toNat_eq
  rw [empty] at less
  exact Nat.eq_zero_of_le_zero less

theorem StatesAgree.entries (agree : StatesAgree Entries exactly gate reference) {pool : PoolRef}
    {entry entry' : LosslessPool} (found : gate.book[pool]? = some entry)
    (found' : reference.book[pool]? = some entry') : Entries pool entry entry' := by
  rcases agree.book pool with ⟨absent, -⟩ | ⟨other, other', held, held', entries⟩
  · rw [absent] at found
    cases found
  · obtain rfl := Option.some.inj (held.symm.trans found)
    obtain rfl := Option.some.inj (held'.symm.trans found')
    exact entries

theorem StatesAgree.mono (agree : StatesAgree Entries exactly gate reference)
    (later : ∀ pool entry entry', Entries pool entry entry' → Entries' pool entry entry') :
    StatesAgree Entries' exactly gate reference where
  less := agree.less
  equal := agree.equal
  book := by
    intro pool
    rcases agree.book pool with neither | ⟨entry, entry', found, found', entries⟩
    · exact .inl neither
    · exact .inr ⟨entry, entry', found, found', later pool entry entry' entries⟩

/-- Credits that compare like the balances keep the balances comparable. -/
theorem StatesAgree.apply (agree : StatesAgree Entries exactly gate reference)
    (less : (effect.credit.getD 0).toNat ≤ (effect'.credit.getD 0).toNat)
    (equal : exactly → effect.credit.getD 0 = effect'.credit.getD 0)
    (book : ∀ pool,
      (effect.apply step.tokenOut gate).book[pool]? = none ∧
        (effect'.apply step.tokenOut reference).book[pool]? = none ∨
      ∃ entry entry', (effect.apply step.tokenOut gate).book[pool]? = some entry ∧
        (effect'.apply step.tokenOut reference).book[pool]? = some entry' ∧
        Entries' pool entry entry') :
    StatesAgree Entries' exactly (effect.apply step.tokenOut gate)
      (effect'.apply step.tokenOut reference) where
  less := by
    intro token
    have before := agree.less token
    rw [StepEffect.apply_available, StepEffect.apply_available]
    split
    · omega
    · exact before
  equal := by
    intro holds token
    apply BitVec.eq_of_toNat_eq
    rw [StepEffect.apply_available, StepEffect.apply_available, agree.equal holds token, equal holds]
  book := book

/-- A step that swaps nothing hands its input on in both replays. -/
theorem StatesAgree.passed (agree : StatesAgree Entries exactly gate reference)
    (less : (stepInput balances step).toNat ≤ (stepInput balances' step).toNat)
    (equal : exactly → stepInput balances step = stepInput balances' step)
    (passes : ∀ pool, step.kind ≠ .swap pool)
    (computed : stepEffect LosslessPool.swap balances gate.book step = .ok effect)
    (computed' : stepEffect LosslessPool.swapOnChain balances' reference.book step = .ok effect') :
    StatesAgree Entries exactly (effect.apply step.tokenOut gate)
      (effect'.apply step.tokenOut reference) := by
  obtain ⟨kept, credit⟩ := stepEffect_pass passes computed
  obtain ⟨kept', credit'⟩ := stepEffect_pass passes computed'
  apply agree.apply
  · rw [credit, credit', passedAmount, passedAmount]
    split
    · exact le_rfl
    · exact less
  · intro holds
    rw [credit, credit', passedAmount, passedAmount, equal holds]
  · simpa only [StepEffect.apply, kept, kept'] using agree.book

/-- A swap of nothing leaves both replays as they are. -/
theorem StatesAgree.idled {pool : PoolRef} (agree : StatesAgree Entries exactly gate reference)
    (kind : step.kind = .swap pool) (idle : stepInput balances step = 0)
    (idle' : stepInput balances' step = 0)
    (computed : stepEffect LosslessPool.swap balances gate.book step = .ok effect)
    (computed' : stepEffect LosslessPool.swapOnChain balances' reference.book step = .ok effect') :
    StatesAgree Entries exactly (effect.apply step.tokenOut gate)
      (effect'.apply step.tokenOut reference) := by
  rcases stepEffect_swap kind computed with ⟨-, rfl⟩ | ⟨moved, -⟩
  · rcases stepEffect_swap kind computed' with ⟨-, rfl⟩ | ⟨moved', -⟩
    · exact agree.apply le_rfl (fun _ => rfl) agree.book
    · exact absurd idle' moved'
  · exact absurd idle moved

/-- Both replays swap through two entries on the same terms. The gate is credited no more if
its hop is paid no more. -/
theorem StatesAgree.swapped {pool : PoolRef} {entry entry' : LosslessPool} {side : Side}
    (agree : StatesAgree Entries exactly gate reference) (kind : step.kind = .swap pool)
    (found : gate.book[pool]? = some entry) (found' : reference.book[pool]? = some entry')
    (paysIn : entry.sideOf step.tokenIn = some side)
    (paysIn' : entry'.sideOf step.tokenIn = some side)
    (computed : stepEffect LosslessPool.swap balances gate.book step = .ok effect)
    (computed' : stepEffect LosslessPool.swapOnChain balances' reference.book step = .ok effect')
    (unlimited : effect.hitLimit = false)
    (swaps : (entry.hop side (stepInput balances step)).hitLimit = false →
      (entry.hop side (stepInput balances step)).out.toNat ≤
        (entry'.hop side (stepInput balances' step)).out.toNat ∧
      (exactly → (entry.hop side (stepInput balances step)).out =
        (entry'.hop side (stepInput balances' step)).out) ∧
      Entries pool
        (entry.moved (stepInput balances step) (entry.hop side (stepInput balances step)).out side)
        (entry'.moved (entry'.addedOnChain side (stepInput balances' step))
          (entry'.hop side (stepInput balances' step)).out side)) :
    StatesAgree Entries exactly (effect.apply step.tokenOut gate)
      (effect'.apply step.tokenOut reference) := by
  rw [LosslessPool.swap_eq_swapAdding] at computed
  obtain ⟨credit, hit, written⟩ := stepEffect_swapAdding rfl kind computed found paysIn
  have nothingAdded : entry'.addedOnChain side 0 = 0 := by
    apply BitVec.eq_of_toNat_eq
    exact Nat.eq_zero_of_le_zero ((cappedInput_le _ _).trans (entry'.afterFee_le 0))
  obtain ⟨credit', -, written'⟩ := stepEffect_swapAdding nothingAdded kind computed' found' paysIn'
  obtain ⟨paid, samePay, moved⟩ := swaps (hit ▸ unlimited)
  apply agree.apply
  · rw [credit, credit']
    exact paid
  · intro holds
    rw [credit, credit']
    exact samePay holds
  · intro other
    rw [written step.tokenOut gate rfl, written' step.tokenOut reference rfl]
    by_cases here : other = pool
    · subst here
      simp only [if_true]
      exact .inr ⟨_, _, rfl, rfl, moved⟩
    · simp only [here, if_false]
      exact agree.book other

/-- Both replays take one more step. A swap of something that pays the gate no more, and
relates the moved entries, keeps the states comparable. -/
theorem StatesAgree.stepped (agree : StatesAgree Entries exactly gate reference)
    (startLess : ∀ token, (balances.available token).toNat ≤ (balances'.available token).toNat)
    (startEqual : exactly → ∀ token, balances.available token = balances'.available token)
    (later : ∀ pool entry entry', Entries pool entry entry' → Entries' pool entry entry')
    (terms : ∀ pool entry entry', step.SwapsThrough balances' pool → Entries pool entry entry' →
      SameTerms entry entry')
    (swaps : ∀ pool side entry entry', step.SwapsThrough balances' pool →
      gate.book[pool]? = some entry → reference.book[pool]? = some entry' →
      entry.sideOf step.tokenIn = some side →
      (entry.hop side (stepInput balances step)).hitLimit = false →
      (entry.hop side (stepInput balances step)).out.toNat ≤
        (entry'.hop side (stepInput balances' step)).out.toNat ∧
      (exactly → (entry.hop side (stepInput balances step)).out =
        (entry'.hop side (stepInput balances' step)).out) ∧
      Entries' pool
        (entry.moved (stepInput balances step) (entry.hop side (stepInput balances step)).out side)
        (entry'.moved (entry'.addedOnChain side (stepInput balances' step))
          (entry'.hop side (stepInput balances' step)).out side))
    (computed : stepEffect LosslessPool.swap balances gate.book step = .ok effect)
    (computed' : stepEffect LosslessPool.swapOnChain balances' reference.book step = .ok effect')
    (unlimited : effect.hitLimit = false) :
    StatesAgree Entries' exactly (effect.apply step.tokenOut gate)
      (effect'.apply step.tokenOut reference) := by
  have less : (stepInput balances step).toNat ≤ (stepInput balances' step).toNat :=
    weightedAmount_mono (startLess step.tokenIn) step.weight
  have onward := agree.mono later
  by_cases swapping : ∃ pool, step.kind = .swap pool
  · obtain ⟨pool, kind⟩ := swapping
    by_cases routed : stepInput balances' step = 0
    · exact onward.idled kind (stepInput_eq_zero less routed) routed computed computed'
    · obtain ⟨entry', side, found', paysIn'⟩ := paysIn_of_stepEffect kind computed' routed
      obtain ⟨entry, found⟩ : ∃ entry, gate.book[pool]? = some entry := by
        rcases agree.book pool with ⟨-, absent⟩ | ⟨entry, _, found, -, -⟩
        · rw [absent] at found'
          cases found'
        · exact ⟨entry, found⟩
      have same := terms pool entry entry' ⟨kind, routed⟩ (agree.entries found found')
      have paysIn : entry.sideOf step.tokenIn = some side := by
        rw [← paysIn', same.sideOf_eq]
      apply onward.swapped kind found found' paysIn paysIn' computed computed' unlimited
      exact swaps pool side entry entry' ⟨kind, routed⟩ found found' paysIn
  · push Not at swapping
    apply onward.passed less _ swapping computed computed'
    intro holds
    rw [stepInput, stepInput, startEqual holds]

end OneStep

/-! ### Whole replays -/

section Lockstep

variable {rule rule' : SwapRule} {plan : ExecutionPlan} {resolve : PoolRef → Option LosslessPool}
  {entryAmount : U256} {stage : Nat}

theorem Reaches.last {done : List ExecutableStep} {step : ExecutableStep} {start next' : StageStart}
    (reaches : Reaches rule plan resolve entryAmount stage (done ++ [step]) start next') :
    ∃ next, Reaches rule plan resolve entryAmount stage done start next ∧
      replayStepBy rule start.balances next step = .ok next' := by
  obtain ⟨started, ran⟩ := reaches
  rw [List.foldlM_append] at ran
  obtain ⟨next, earlier, last⟩ := Except.bind_eq_ok_iff.mp ran
  refine ⟨next, ⟨started, earlier⟩, ?_⟩
  rw [List.foldlM_cons] at last
  obtain ⟨mid, moved, rest⟩ := Except.bind_eq_ok_iff.mp last
  obtain rfl := Except.pure_eq_ok_iff.mp rest
  exact moved

/-- What holds between two replays of one plan as they open, enter a stage, take a step each
and leave a stage, holds between them at the start of every stage and within it. -/
theorem lockstep {Start : Nat → StageStart → StageStart → Prop}
    {Within : Nat → List ExecutableStep → List ExecutableStep → StageStart → StageStart → Prop}
    (opens : ∀ book, buildBook resolve ∅ plan.steps = .ok book →
      Start 0 (openingOf plan book entryAmount) (openingOf plan book entryAmount))
    (enters : ∀ stage start start', Start stage start start' →
      Within stage [] (stageSteps plan stage) { start with balances := ∅ }
        { start' with balances := ∅ })
    (steps : ∀ stage done step later start start' next next' mid mid',
      stageSteps plan stage = done ++ step :: later → Start stage start start' →
      Reaches rule plan resolve entryAmount stage done start next →
      Reaches rule' plan resolve entryAmount stage done start' next' →
      Within stage done (step :: later) next next' →
      replayStepBy rule start.balances next step = .ok mid →
      replayStepBy rule' start'.balances next' step = .ok mid' →
        Within stage (done ++ [step]) later mid mid')
    (leaves : ∀ stage next next', Within stage (stageSteps plan stage) [] next next' →
      Start (stage + 1) next next') (stage : Nat) :
    (∀ start start', startOfStageBy rule plan resolve entryAmount stage = .ok start →
      startOfStageBy rule' plan resolve entryAmount stage = .ok start' → Start stage start start') ∧
    ∀ done later start start' next next', stageSteps plan stage = done ++ later →
      Reaches rule plan resolve entryAmount stage done start next →
      Reaches rule' plan resolve entryAmount stage done start' next' →
        Within stage done later next next' := by
  have within : ∀ stage, (∀ start start',
        startOfStageBy rule plan resolve entryAmount stage = .ok start →
        startOfStageBy rule' plan resolve entryAmount stage = .ok start' → Start stage start start') →
      ∀ done later start start' next next', stageSteps plan stage = done ++ later →
        Reaches rule plan resolve entryAmount stage done start next →
        Reaches rule' plan resolve entryAmount stage done start' next' →
          Within stage done later next next' := by
    intro stage started done
    induction done using List.reverseRecOn with
    | nil =>
      intro later start start' next next' split reaches reaches'
      obtain rfl := Except.pure_eq_ok_iff.mp reaches.ran
      obtain rfl := Except.pure_eq_ok_iff.mp reaches'.ran
      rw [List.nil_append] at split
      rw [← split]
      exact enters stage start start' (started _ _ reaches.started reaches'.started)
    | append_singleton done step inductionHypothesis =>
      intro later start start' next next' split reaches reaches'
      rw [List.append_assoc, List.singleton_append] at split
      obtain ⟨mid, earlier, moved⟩ := reaches.last
      obtain ⟨mid', earlier', moved'⟩ := reaches'.last
      have before := inductionHypothesis _ start start' mid mid' split earlier earlier'
      exact steps stage done step later start start' mid mid' next next' split
        (started _ _ earlier.started earlier'.started) earlier earlier' before moved moved'
  have starts : ∀ start start', startOfStageBy rule plan resolve entryAmount stage = .ok start →
      startOfStageBy rule' plan resolve entryAmount stage = .ok start' →
        Start stage start start' := by
    induction stage with
    | zero =>
      intro start start' started started'
      obtain ⟨book, built, rfl⟩ := startOfStageBy_zero started
      obtain ⟨book', built', rfl⟩ := startOfStageBy_zero started'
      obtain rfl := Except.ok.inj (built.symm.trans built')
      exact opens book built
    | succ stage inductionHypothesis =>
      intro next next' started started'
      rw [startOfStageBy_succ] at started started'
      obtain ⟨start, entered, ran⟩ := Except.bind_eq_ok_iff.mp started
      obtain ⟨start', entered', ran'⟩ := Except.bind_eq_ok_iff.mp started'
      exact leaves stage next next' (within stage inductionHypothesis (stageSteps plan stage) []
        start start' next next' (List.append_nil _).symm ⟨entered, ran⟩ ⟨entered', ran'⟩)
  exact ⟨starts, within stage starts⟩

end Lockstep

section Replays

variable {plan : ExecutionPlan} {resolve : PoolRef → Option LosslessPool} {entryAmount : U256}
  {Entries Entries' : PoolRef → LosslessPool → LosslessPool → Prop} {exactly : Prop}

/-- Unless a hop of the gate went beyond its limit, the two states agree. -/
def AgreeUnlessHit (Entries : PoolRef → LosslessPool → LosslessPool → Prop) (exactly : Prop)
    (gate reference : StageStart) : Prop :=
  gate.hitTickLimit = false → StatesAgree Entries exactly gate reference

theorem opening_agree {book : HashMap PoolRef LosslessPool}
    (built : buildBook resolve ∅ plan.steps = .ok book)
    (same : ∀ pool entry, resolve pool = some entry → Entries pool entry entry) :
    AgreeUnlessHit Entries exactly (openingOf plan book entryAmount)
      (openingOf plan book entryAmount) := by
  intro _
  refine ⟨fun _ => le_rfl, fun _ _ => rfl, fun pool => ?_⟩
  simp only [openingOf]
  cases found : book[pool]? with
  | none => exact .inl ⟨rfl, rfl⟩
  | some entry =>
    have looked := (buildBook_spec resolve ∅ plan.steps).1 book built pool
    rw [found] at looked
    by_cases listed : pool ∈ swapPools plan.steps
    · exact .inr ⟨entry, entry, rfl, rfl, same pool entry (by simpa [listed] using looked.symm)⟩
    · simp [listed] at looked

/-- Entering a stage puts the balances aside. -/
theorem AgreeUnlessHit.enter {exactly' : Prop} {start start' : StageStart}
    (agree : AgreeUnlessHit Entries exactly start start') :
    AgreeUnlessHit Entries exactly' { start with balances := ∅ } { start' with balances := ∅ } := by
  intro unlimited
  exact ⟨fun _ => le_rfl, fun _ _ => rfl, (agree unlimited).book⟩

/-- A limit that was hit stays hit. -/
theorem Reaches.unlimited {rule : SwapRule} {stage : Nat} {done : List ExecutableStep}
    {start next : StageStart} (reaches : Reaches rule plan resolve entryAmount stage done start next)
    (unlimited : next.hitTickLimit = false) : start.hitTickLimit = false := by
  by_contra limited
  have hit : ({ start with balances := ∅ } : StageStart).hitTickLimit = true := by
    simpa using limited
  have kept := Except.foldlM_keeps (fun state => state.hitTickLimit = true) (by
    intro step state state' before moved
    obtain ⟨effect, -, rfl⟩ := replayStepBy_eq_ok.mp moved
    simp [StepEffect.apply, before]) hit reaches.ran
  rw [unlimited] at kept
  cases kept

theorem stage_lt_stageCount {step : ExecutableStep} (member : step ∈ plan.steps) :
    step.stage < stageCount plan := by
  have listed : step.stage ∈ plan.steps.map (·.stage) := List.mem_map_of_mem member
  unfold stageCount
  cases greatest : (plan.steps.map (·.stage)).max? with
  | none =>
    rw [List.max?_eq_none_iff.mp greatest] at listed
    cases listed
  | some maxStage =>
    exact Nat.lt_succ_of_le ((List.max?_eq_some_iff.mp greatest).2 _ listed)

/-- The steps of the stages before a stage. -/
def earlierSteps (plan : ExecutionPlan) (stage : Nat) : List ExecutableStep :=
  (List.range stage).flatMap (stageSteps plan)

/-- The steps of a stage and of those after it. -/
def laterSteps (plan : ExecutionPlan) (stage : Nat) : List ExecutableStep :=
  (List.range' stage (stageCount plan - stage)).flatMap (stageSteps plan)

theorem earlierSteps_succ (plan : ExecutionPlan) (stage : Nat) :
    earlierSteps plan (stage + 1) = earlierSteps plan stage ++ stageSteps plan stage := by
  simp [earlierSteps, List.range_succ]

theorem laterSteps_eq (plan : ExecutionPlan) (stage : Nat) :
    laterSteps plan stage = stageSteps plan stage ++ laterSteps plan (stage + 1) := by
  unfold laterSteps
  by_cases last : stage < stageCount plan
  · obtain ⟨count, counted⟩ : ∃ count, stageCount plan - stage = count + 1 :=
      ⟨stageCount plan - stage - 1, by omega⟩
    have rest : stageCount plan - (stage + 1) = count := by omega
    rw [counted, rest, List.range'_succ, List.flatMap_cons]
  · have none : stageSteps plan stage = [] := by
      rw [List.eq_nil_iff_forall_not_mem]
      intro step listed
      obtain ⟨member, here⟩ := List.mem_filter.mp listed
      have within := stage_lt_stageCount member
      rw [of_decide_eq_true here] at within
      exact last within
    have ended : stageCount plan - stage = 0 := by omega
    have ended' : stageCount plan - (stage + 1) = 0 := by omega
    simp [none, ended, ended']

theorem earlierSteps_append_laterSteps (plan : ExecutionPlan) (stage : Nat) :
    earlierSteps plan stage ++ laterSteps plan stage = replayOrder plan := by
  induction stage with
  | zero => simp [earlierSteps, laterSteps, replayOrder, List.range_eq_range']
  | succ stage inductionHypothesis =>
    rw [← inductionHypothesis, laterSteps_eq plan stage, earlierSteps_succ, List.append_assoc]

/-- A step of a stage in the order of the whole replay. -/
theorem replayOrder_split {stage : Nat} {done later : List ExecutableStep} {step : ExecutableStep}
    (split : stageSteps plan stage = done ++ step :: later) :
    step.stage = stage ∧ (earlierSteps plan stage ++ done) ++
      step :: (later ++ laterSteps plan (stage + 1)) = replayOrder plan := by
  have listed : step ∈ stageSteps plan stage := by simp [split]
  refine ⟨of_decide_eq_true (List.mem_filter.mp listed).2, ?_⟩
  rw [← earlierSteps_append_laterSteps plan stage, laterSteps_eq plan stage, split]
  simp

/-- Within a stage of a plan that uses its pools again conservatively, the entries of the two
books stand to each other as the uses so far make them. Up to the boundary the balances are
the same. -/
theorem entriesAgree_of_conservative {boundary : Nat}
    (conservative : ConservativeUntil plan resolve boundary) (entryAmount : U256) (stage : Nat) :
    (∀ start start',
      startOfStageBy LosslessPool.swap plan resolve entryAmount stage = .ok start →
      startOfStageBy LosslessPool.swapOnChain plan resolve entryAmount stage = .ok start' →
        AgreeUnlessHit (EntriesAgree resolve (earlierSteps plan stage) (laterSteps plan stage))
          (stage ≤ boundary) start start') ∧
    ∀ done later start start' next next', stageSteps plan stage = done ++ later →
      Reaches LosslessPool.swap plan resolve entryAmount stage done start next →
      Reaches LosslessPool.swapOnChain plan resolve entryAmount stage done start' next' →
        AgreeUnlessHit (EntriesAgree resolve (earlierSteps plan stage ++ done)
          (later ++ laterSteps plan (stage + 1))) (stage < boundary) next next' := by
  refine @lockstep LosslessPool.swap LosslessPool.swapOnChain plan resolve entryAmount
    (fun stage => AgreeUnlessHit
      (EntriesAgree resolve (earlierSteps plan stage) (laterSteps plan stage)) (stage ≤ boundary))
    (fun stage done later => AgreeUnlessHit
      (EntriesAgree resolve (earlierSteps plan stage ++ done) (later ++ laterSteps plan (stage + 1)))
      (stage < boundary))
    ?opens ?enters ?steps ?leaves stage
  case opens =>
    intro book built
    exact opening_agree built (fun pool entry resolved => ⟨⟨entry, resolved, rfl⟩, .same entry⟩)
  case enters =>
    intro stage start start' agree
    rw [List.append_nil, ← laterSteps_eq]
    exact agree.enter
  case leaves =>
    intro stage next next' agree
    rw [earlierSteps_succ]
    exact agree
  case steps =>
    intro stage done step later start start' next next' mid mid' split agree reaches _ within moved
      moved' unlimited
    obtain ⟨effect, computed, rfl⟩ := replayStepBy_eq_ok.mp moved
    obtain ⟨effect', computed', rfl⟩ := replayStepBy_eq_ok.mp moved'
    have before : next.hitTickLimit = false ∧ effect.hitLimit = false := by
      simpa [StepEffect.apply] using unlimited
    obtain ⟨rfl, order⟩ := replayOrder_split split
    have entered := agree (reaches.unlimited before.1)
    rw [← List.append_assoc]
    refine (within before.1).stepped entered.less (fun early => entered.equal early.le)
      (fun _ _ _ entries => entries.later)
      (fun _ _ _ swaps entries => entries.sameTerms swaps.usesPool) ?_ computed computed' before.2
    intro pool side entry entry' swaps found found' paysIn unlimitedHop
    have entries := (within before.1).entries found found'
    have equal : step.stage ≤ boundary →
        stepInput start.balances step = stepInput start'.balances step := by
      intro early
      rw [stepInput, stepInput, entered.equal early]
    obtain ⟨paid, samePay⟩ := entries.pays conservative order swaps.usesPool paysIn
      (weightedAmount_mono (entered.less step.tokenIn) step.weight) equal
    exact ⟨paid, samePay, entries.use conservative order swaps.usesPool paysIn equal unlimitedHop⟩

/-- No hop of a plan that uses its pools again conservatively is paid more. -/
theorem noHopOverpays_of_conservative (conservative : ReusesConservatively plan resolve)
    (entryAmount : U256) : NoHopOverpays plan resolve entryAmount := by
  obtain ⟨boundary, conservative⟩ := conservative
  intro stage done step later split start gate start' reference reaches reaches' unlimited pool entry
    entry' side kind found found' paysIn
  obtain ⟨starts, within⟩ := entriesAgree_of_conservative conservative entryAmount stage
  have entered := starts start start' reaches.started reaches'.started
    (reaches.unlimited unlimited)
  have less : (stepInput start.balances step).toNat ≤ (stepInput start'.balances step).toNat :=
    weightedAmount_mono (entered.less step.tokenIn) step.weight
  by_cases routed : stepInput start'.balances step = 0
  · rw [stepInput_eq_zero less routed, LosslessPool.hop_zero_out]
    exact Nat.zero_le _
  · obtain ⟨rfl, order⟩ := replayOrder_split split
    have entries :=
      (within done _ start start' gate reference split reaches reaches' unlimited).entries found found'
    refine (entries.pays conservative order ⟨kind, scaledWeight_ne_zero routed⟩ paysIn less ?_).1
    intro early
    rw [stepInput, stepInput, entered.equal early]

end Replays

def reusedPool : PoolRef := poolAt 1

/-- Half of the entry is swapped in each of two stages, through one pool. -/
def twiceForth : ExecutionPlan where
  sourceAsset := tokenA
  outputAsset := tokenB
  steps :=
    [{ stage := 0, tokenIn := tokenA, tokenOut := tokenB, kind := .swap reusedPool,
       weight := 1 / 2 },
     { stage := 0, tokenIn := tokenA, tokenOut := tokenA, kind := .carry, weight := 1 / 2 },
     { stage := 1, tokenIn := tokenA, tokenOut := tokenB, kind := .swap reusedPool, weight := 1 },
     { stage := 1, tokenIn := tokenB, tokenOut := tokenB, kind := .carry, weight := 1 }]

def tokenC : TokenAddress := { address := 0xC, chain := .ethereum }

/-- The entry is swapped in two stages through one pool, and then what it yields in two stages
through another. -/
def forthInChain : ExecutionPlan where
  sourceAsset := tokenA
  outputAsset := tokenC
  steps :=
    [{ stage := 0, tokenIn := tokenA, tokenOut := tokenB, kind := .swap (poolAt 1),
       weight := 1 / 4 },
     { stage := 0, tokenIn := tokenA, tokenOut := tokenA, kind := .carry, weight := 3 / 4 },
     { stage := 1, tokenIn := tokenA, tokenOut := tokenB, kind := .swap (poolAt 1), weight := 1 },
     { stage := 1, tokenIn := tokenB, tokenOut := tokenB, kind := .carry, weight := 1 },
     { stage := 2, tokenIn := tokenB, tokenOut := tokenC, kind := .swap (poolAt 2),
       weight := 3 / 4 },
     { stage := 2, tokenIn := tokenB, tokenOut := tokenB, kind := .carry, weight := 1 / 4 },
     { stage := 3, tokenIn := tokenB, tokenOut := tokenC, kind := .swap (poolAt 2), weight := 1 },
     { stage := 3, tokenIn := tokenC, tokenOut := tokenC, kind := .carry, weight := 1 }]

def chainedPools (pool : PoolRef) : Option LosslessPool :=
  if pool = poolAt 1 then some { evenPool with reserve0 := 80, reserve1 := 676 }
  else some { evenPool with token0 := tokenB, token1 := tokenC, reserve0 := 303, reserve1 := 100 }

-- Every pool is used in one direction only, and still the floors make the gate return more:
-- less goes into the second pool at first, so its next hop is paid more.
example : replayPlanLossless forthInChain chainedPools 58 =
      .ok { output := 47, hitTickLimit := false } ∧
    referenceReplay forthInChain chainedPools 58 =
      .ok { output := 46, hitTickLimit := false } := by
  decide +kernel

/-! ### There and back through one pool -/

/-- The whole entry is swapped, and what it yields is swapped back. -/
def thereAndBack : ExecutionPlan where
  sourceAsset := tokenA
  outputAsset := tokenA
  steps :=
    [{ stage := 0, tokenIn := tokenA, tokenOut := tokenB, kind := .swap reusedPool, weight := 1 },
     { stage := 1, tokenIn := tokenB, tokenOut := tokenA, kind := .swap reusedPool, weight := 1 }]

end ArmchairAnalyst

import Mathlib.Data.Rat.Floor
import ArmchairAnalyst.Library.FloorShares
import ArmchairAnalyst.PoolReserves

/-!
# Lossless replay

An execution plan is replayed on integer reserves. Every stage splits the balances at
its start by the weights of its steps. A weight is a rational number here: the product
of a single precision weight with the scale is exact in double precision.
-/

namespace ArmchairAnalyst

def pipsDenominator : Nat := 1000000

def weightScale : Nat := 1000000000

inductive StepKind
  | swap (pool : PoolRef)
  | carry
  | bridge
  deriving DecidableEq

structure ExecutableStep where
  stage : Nat
  tokenIn : TokenAddress
  tokenOut : TokenAddress
  kind : StepKind
  weight : ℚ
  deriving DecidableEq

structure ExecutionPlan where
  sourceAsset : TokenAddress
  outputAsset : TokenAddress
  steps : List ExecutableStep
  deriving DecidableEq

structure LosslessPool where
  token0 : TokenAddress
  token1 : TokenAddress
  reserve0 : U256
  reserve1 : U256
  feePips : UInt32
  swapLimit0 : U256
  swapLimit1 : U256

structure LosslessOutcome where
  output : U256
  hitTickLimit : Bool
  deriving DecidableEq

inductive LosslessReplayError
  | poolNotFound
  | tokenNotInPool
  deriving DecidableEq

/-- The realized result of one swap. -/
structure Hop where
  out : U256
  hitLimit : Bool

/-! ### Amounts -/

def saturatingAdd (a b : U256) : U256 :=
  if a.toNat + b.toNat < 2 ^ 256 then a + b else BitVec.allOnes 256

def saturatingSub (a b : U256) : U256 := BitVec.ofNat 256 (a.toNat - b.toNat)

/-- Rounds to the nearest integer, halves away from zero. -/
def roundHalfAway (x : ℚ) : Int := if 0 ≤ x then ⌊x + 1 / 2⌋ else ⌈x - 1 / 2⌉

/-- The weight in billionths. -/
def scaledWeight (weight : ℚ) : Nat :=
  min (roundHalfAway (max 0 (min weight 1) * weightScale)).toNat weightScale

def weightedAmount (balance : U256) (weight : ℚ) : U256 :=
  BitVec.ofNat 256 (balance.toNat * scaledWeight weight / weightScale)

/-! ### Swaps -/

/-- The input that is left after the fee. A fee of the whole input or more leaves nothing. -/
def LosslessPool.afterFee (pool : LosslessPool) (amountIn : U256) : U256 :=
  BitVec.ofNat 256 (amountIn.toNat * (pipsDenominator - pool.feePips.toNat) / pipsDenominator)

/-- Swaps along the constant product of one side's reserves, capped at the tick boundary. -/
def swapOut (x y limit afterFee : U256) : Hop :=
  let hitLimit := decide (limit < afterFee)
  let capped := if hitLimit then limit else afterFee
  let denominator := x.toNat + capped.toNat
  { out := if denominator = 0 then 0 else BitVec.ofNat 256 (y.toNat * capped.toNat / denominator)
    hitLimit }

def LosslessPool.swap (pool : LosslessPool) (tokenIn : TokenAddress) (amountIn : U256) :
    Except LosslessReplayError (LosslessPool × Hop) :=
  if tokenIn = pool.token0 then
    let hop := swapOut pool.reserve0 pool.reserve1 pool.swapLimit0 (pool.afterFee amountIn)
    .ok ({ pool with
      reserve0 := saturatingAdd pool.reserve0 amountIn
      reserve1 := saturatingSub pool.reserve1 hop.out }, hop)
  else if tokenIn = pool.token1 then
    let hop := swapOut pool.reserve1 pool.reserve0 pool.swapLimit1 (pool.afterFee amountIn)
    .ok ({ pool with
      reserve1 := saturatingAdd pool.reserve1 amountIn
      reserve0 := saturatingSub pool.reserve0 hop.out }, hop)
  else .error .tokenNotInPool

/-! ### The replay -/

abbrev Balances := HashMap TokenAddress U256

def Balances.available (balances : Balances) (token : TokenAddress) : U256 :=
  balances[token]?.getD 0

def Balances.add (balances : Balances) (token : TokenAddress) (amount : U256) : Balances :=
  balances.insert token (saturatingAdd (balances.available token) amount)

/-- The balances at the start of a stage, with the pools as the stages before left them. -/
structure StageStart where
  balances : Balances
  book : HashMap PoolRef LosslessPool
  hitTickLimit : Bool

/-- Looks up every pool of the plan once. -/
def buildBook (resolve : PoolRef → Option LosslessPool) :
    HashMap PoolRef LosslessPool → List ExecutableStep →
      Except LosslessReplayError (HashMap PoolRef LosslessPool)
  | book, [] => .ok book
  | book, step :: steps =>
    match step.kind with
    | .swap pool =>
      if pool ∈ book then buildBook resolve book steps
      else
        match resolve pool with
        | some entry => buildBook resolve (book.insert pool entry) steps
        | none => .error .poolNotFound
    | .carry | .bridge => buildBook resolve book steps

/-- What a step takes from the balances at the start of its stage. -/
def stepInput (balances : Balances) (step : ExecutableStep) : U256 :=
  weightedAmount (balances.available step.tokenIn) step.weight

/-- One step. `balances` are those at the start of the stage, and those of `next` are
gathered for the stage after it. -/
def replayStep (balances : Balances) (next : StageStart) (step : ExecutableStep) :
    Except LosslessReplayError StageStart :=
  let amountIn := stepInput balances step
  if amountIn = 0 then .ok next
  else
    match step.kind with
    | .swap pool =>
      match next.book[pool]? with
      | none => .error .poolNotFound
      | some entry =>
        match entry.swap step.tokenIn amountIn with
        | .error error => .error error
        | .ok (entry, hop) =>
          .ok
            { balances := next.balances.add step.tokenOut hop.out
              book := next.book.insert pool entry
              hitTickLimit := next.hitTickLimit || hop.hitLimit }
    | .carry =>
      -- A carry to another token is malformed, and its share is dropped.
      if step.tokenIn = step.tokenOut then
        .ok { next with balances := next.balances.add step.tokenOut amountIn }
      else .ok next
    | .bridge => .ok { next with balances := next.balances.add step.tokenOut amountIn }

def stageSteps (plan : ExecutionPlan) (stage : Nat) : List ExecutableStep :=
  plan.steps.filter (fun step => step.stage = stage)

def replayStage (plan : ExecutionPlan) (start : StageStart) (stage : Nat) :
    Except LosslessReplayError StageStart :=
  (stageSteps plan stage).foldlM (replayStep start.balances) { start with balances := ∅ }

/-- The state at the start of a stage, after all stages before it. -/
def startOfStage (plan : ExecutionPlan) (resolve : PoolRef → Option LosslessPool)
    (entryAmount : U256) (stage : Nat) : Except LosslessReplayError StageStart :=
  match buildBook resolve ∅ plan.steps with
  | .error error => .error error
  | .ok book =>
    (List.range stage).foldlM (replayStage plan)
      { balances := (∅ : Balances).insert plan.sourceAsset entryAmount
        book
        hitTickLimit := false }

/-- The number of stages up to the last one that has a step. -/
def stageCount (plan : ExecutionPlan) : Nat :=
  match (plan.steps.map (·.stage)).max? with
  | some maxStage => maxStage + 1
  | none => 0

def replayPlanLossless (plan : ExecutionPlan) (resolve : PoolRef → Option LosslessPool)
    (entryAmount : U256) : Except LosslessReplayError LosslessOutcome :=
  match startOfStage plan resolve entryAmount (stageCount plan) with
  | .error error => .error error
  | .ok final =>
    .ok
      { output := final.balances.available plan.outputAsset
        hitTickLimit := final.hitTickLimit }

/-- What a stage takes of one token, all its steps together. -/
def routed (plan : ExecutionPlan) (stage : Nat) (balances : Balances) (token : TokenAddress) :
    Nat :=
  (((stageSteps plan stage).filter (fun step => step.tokenIn = token)).map
    (fun step => (stepInput balances step).toNat)).sum

/-! ### Whether the shares fit -/

/-- The weight in billionths, to the nearest integer with halves rounded up. -/
def nearestBillionths (weight : ℚ) : Nat := ⌊weight * weightScale + 1 / 2⌋₊

def sharesOf (balance : U256) (weights : List ℚ) : Nat :=
  (weights.map (fun weight => (weightedAmount balance weight).toNat)).sum

theorem scaledWeight_eq {weight : ℚ} (nonneg : 0 ≤ weight) (atMostOne : weight ≤ 1) :
    scaledWeight weight = nearestBillionths weight := by
  have scalePositive : (0 : ℚ) < weightScale := by norm_num [weightScale]
  have product : 0 ≤ weight * weightScale := mul_nonneg nonneg scalePositive.le
  have rounded : (roundHalfAway (max 0 (min weight 1) * weightScale)).toNat =
      nearestBillionths weight := by
    rw [min_eq_left atMostOne, max_eq_right nonneg]
    simp only [roundHalfAway, if_pos product]
    exact Int.floor_toNat _
  unfold scaledWeight
  rw [rounded]
  apply min_eq_left
  have below : weight * weightScale + 1 / 2 < ((weightScale + 1 : Nat) : ℚ) := by
    have scaled := mul_le_mul_of_nonneg_right atMostOne scalePositive.le
    push_cast
    linarith
  exact Nat.lt_succ_iff.mp ((Nat.floor_lt (by linarith)).mpr below)

theorem scaledWeight_le (weight : ℚ) : scaledWeight weight ≤ weightScale := Nat.min_le_right _ _

theorem weightedAmount_toNat (balance : U256) (weight : ℚ) :
    (weightedAmount balance weight).toNat =
      balance.toNat * scaledWeight weight / weightScale := by
  have small : balance.toNat * scaledWeight weight / weightScale ≤ balance.toNat := by
    apply Nat.div_le_of_le_mul
    rw [Nat.mul_comm weightScale]
    exact Nat.mul_le_mul_left _ (scaledWeight_le weight)
  rw [weightedAmount, BitVec.toNat_ofNat]
  exact Nat.mod_eq_of_lt (Nat.lt_of_le_of_lt small balance.isLt)

theorem sharesOf_eq (balance : U256) {weights : List ℚ}
    (unit : ∀ weight ∈ weights, 0 ≤ weight ∧ weight ≤ 1) :
    sharesOf balance weights =
      floorShares weightScale balance.toNat (weights.map nearestBillionths) := by
  unfold sharesOf floorShares
  rw [List.map_map]
  congr 1
  apply List.map_congr_left
  intro weight listed
  obtain ⟨nonneg, atMostOne⟩ := unit weight listed
  rw [weightedAmount_toNat, scaledWeight_eq nonneg atMostOne]
  rfl

/-- What the weights, rounded to billionths, exceed the whole by is covered by what the
floors of this balance's shares drop. -/
def FitsBalance (balance : U256) (weights : List ℚ) : Prop :=
  let rounded := weights.map nearestBillionths
  balance.toNat * rounded.sum ≤
    balance.toNat * weightScale + droppedRemainders weightScale balance.toNat rounded

theorem sharesOf_le_iff (balance : U256) {weights : List ℚ}
    (unit : ∀ weight ∈ weights, 0 ≤ weight ∧ weight ≤ 1) :
    sharesOf balance weights ≤ balance.toNat ↔ FitsBalance balance weights := by
  rw [sharesOf_eq balance unit]
  apply floorShares_le_iff
  decide

/-- Shares of every balance fit exactly when the rounded weights do not exceed the whole. -/
theorem sharesOf_le_all_iff {weights : List ℚ}
    (unit : ∀ weight ∈ weights, 0 ≤ weight ∧ weight ≤ 1) :
    (∀ balance, sharesOf balance weights ≤ balance.toNat) ↔
      (weights.map nearestBillionths).sum ≤ weightScale := by
  have positive : 0 < weightScale := by decide
  constructor
  · intro fits
    -- A balance of one whole shows every rounding up.
    have atScale := fits (BitVec.ofNat 256 weightScale)
    have whole : (BitVec.ofNat 256 weightScale).toNat = weightScale := by decide
    rw [sharesOf_eq _ unit, whole, floorShares_scale positive] at atScale
    exact atScale
  · intro within balance
    rw [sharesOf_eq balance unit]
    exact floorShares_le positive balance.toNat within

/-- The weights by which a stage splits its balance of a token. -/
def groupWeights (plan : ExecutionPlan) (stage : Nat) (token : TokenAddress) : List ℚ :=
  ((stageSteps plan stage).filter (fun step => step.tokenIn = token)).map (·.weight)

theorem groupWeights_unit {plan : ExecutionPlan}
    (unit : ∀ step ∈ plan.steps, 0 ≤ step.weight ∧ step.weight ≤ 1)
    (stage : Nat) (token : TokenAddress) :
    ∀ weight ∈ groupWeights plan stage token, 0 ≤ weight ∧ weight ≤ 1 := by
  intro weight listed
  obtain ⟨step, grouped, rfl⟩ := List.mem_map.mp listed
  apply unit step
  exact (List.mem_filter.mp (List.mem_filter.mp grouped).1).1

theorem routed_eq_sharesOf (plan : ExecutionPlan) (stage : Nat) (balances : Balances)
    (token : TokenAddress) :
    routed plan stage balances token =
      sharesOf (balances.available token) (groupWeights plan stage token) := by
  unfold routed sharesOf groupWeights
  rw [List.map_map]
  congr 1
  apply List.map_congr_left
  intro step grouped
  have sameToken : step.tokenIn = token := by simpa using (List.mem_filter.mp grouped).2
  rw [stepInput, sameToken]
  rfl

/-- No stage of the replay takes more of a token than its start holds. -/
def NeverOverspends (plan : ExecutionPlan) (resolve : PoolRef → Option LosslessPool)
    (entryAmount : U256) : Prop :=
  ∀ stage start, startOfStage plan resolve entryAmount stage = .ok start →
    ∀ token, routed plan stage start.balances token ≤ (start.balances.available token).toNat

theorem neverOverspends_iff {plan : ExecutionPlan}
    (unit : ∀ step ∈ plan.steps, 0 ≤ step.weight ∧ step.weight ≤ 1)
    (resolve : PoolRef → Option LosslessPool) (entryAmount : U256) :
    NeverOverspends plan resolve entryAmount ↔
      ∀ stage start, startOfStage plan resolve entryAmount stage = .ok start →
        ∀ token, FitsBalance (start.balances.available token) (groupWeights plan stage token) := by
  unfold NeverOverspends
  apply forall₃_congr
  intro stage start _
  apply forall_congr'
  intro token
  rw [routed_eq_sharesOf]
  exact sharesOf_le_iff _ (groupWeights_unit unit stage token)

theorem neverOverspends_of_rounded {plan : ExecutionPlan}
    (unit : ∀ step ∈ plan.steps, 0 ≤ step.weight ∧ step.weight ≤ 1)
    (within : ∀ stage token,
      ((groupWeights plan stage token).map nearestBillionths).sum ≤ weightScale)
    (resolve : PoolRef → Option LosslessPool) (entryAmount : U256) :
    NeverOverspends plan resolve entryAmount := by
  intro stage start _ token
  rw [routed_eq_sharesOf]
  exact (sharesOf_le_all_iff (groupWeights_unit unit stage token)).mpr (within stage token) _

/-- The shares of a balance, and the amounts that a replayed plan routes, stay within what
is held exactly when the roundings of the weights do not exceed it. -/
theorem weightedAmounts_within_iff {weights : List ℚ}
    (unitWeights : ∀ weight ∈ weights, 0 ≤ weight ∧ weight ≤ 1) {plan : ExecutionPlan}
    (unitSteps : ∀ step ∈ plan.steps, 0 ≤ step.weight ∧ step.weight ≤ 1) :
    (∀ balance, sharesOf balance weights ≤ balance.toNat ↔ FitsBalance balance weights) ∧
    ((∀ balance, sharesOf balance weights ≤ balance.toNat) ↔
      (weights.map nearestBillionths).sum ≤ weightScale) ∧
    (∀ resolve entryAmount, NeverOverspends plan resolve entryAmount ↔
      ∀ stage start, startOfStage plan resolve entryAmount stage = .ok start →
        ∀ token, FitsBalance (start.balances.available token) (groupWeights plan stage token)) ∧
    ((∀ stage token, ((groupWeights plan stage token).map nearestBillionths).sum ≤ weightScale) →
      ∀ resolve entryAmount, NeverOverspends plan resolve entryAmount) := by
  refine ⟨?_, ?_, ?_, ?_⟩
  · intro balance
    exact sharesOf_le_iff balance unitWeights
  · exact sharesOf_le_all_iff unitWeights
  · exact neverOverspends_iff unitSteps
  · exact neverOverspends_of_rounded unitSteps

/-! ### Two shares that exceed the whole -/

def heldToken : TokenAddress := { address := 0xA, chain := .ethereum }

def bridgedToken : TokenAddress := { address := 0xB, chain := .arbitrum }

/-- Bridges most of a token to another chain and back, and carries the rest on. The two
weights sum to one and both round up. -/
def bridgedAndBack : ExecutionPlan where
  sourceAsset := heldToken
  outputAsset := heldToken
  steps :=
    [{ stage := 0, tokenIn := heldToken, tokenOut := heldToken, kind := .carry, weight := 1 / 1024 },
     { stage := 0, tokenIn := heldToken, tokenOut := bridgedToken, kind := .bridge,
       weight := 1023 / 1024 },
     { stage := 1, tokenIn := heldToken, tokenOut := heldToken, kind := .carry, weight := 1 },
     { stage := 1, tokenIn := bridgedToken, tokenOut := heldToken, kind := .bridge, weight := 1 }]

theorem bridgedAndBack_unit :
    ∀ step ∈ bridgedAndBack.steps, 0 ≤ step.weight ∧ step.weight ≤ 1 := by
  simp only [bridgedAndBack, List.mem_cons, List.not_mem_nil, or_false]
  rintro step (rfl | rfl | rfl | rfl) <;> norm_num

/-- The weights of every group sum to at most one, and more comes back than was held. -/
theorem bridgedAndBack_overspends :
    ([1 / 1024, 1023 / 1024] : List ℚ).sum ≤ 1 ∧
    (∀ weight ∈ ([1 / 1024, 1023 / 1024] : List ℚ), 0 ≤ weight ∧ weight ≤ 1) ∧
    (BitVec.ofNat 256 1000000000).toNat <
      sharesOf (BitVec.ofNat 256 1000000000) [1 / 1024, 1023 / 1024] ∧
    (∀ step ∈ bridgedAndBack.steps, 0 ≤ step.weight ∧ step.weight ≤ 1) ∧
    (∀ stage token, (groupWeights bridgedAndBack stage token).sum ≤ 1) ∧
    replayPlanLossless bridgedAndBack (fun _ => none) (BitVec.ofNat 256 1000000000) =
      .ok { output := BitVec.ofNat 256 1000000001, hitTickLimit := false } ∧
    ¬ NeverOverspends bridgedAndBack (fun _ => none) (BitVec.ofNat 256 1000000000) := by
  refine ⟨by norm_num, ?_, by decide +kernel, bridgedAndBack_unit, ?_, by decide +kernel, ?_⟩
  · simp only [List.mem_cons, List.not_mem_nil, or_false]
    rintro weight (rfl | rfl) <;> norm_num
  · intro stage token
    have distinct : heldToken ≠ bridgedToken := by decide
    unfold groupWeights stageSteps bridgedAndBack
    match stage with
    | 0 =>
      by_cases held : heldToken = token
      · simp [held]
        norm_num
      · simp [held]
    | 1 =>
      by_cases held : heldToken = token
      · simp [held, held ▸ distinct.symm]
      · by_cases bridged : bridgedToken = token <;> simp [held, bridged]
    | _ + 2 => simp
  · intro fits
    have overspent := fits 0 _ rfl heldToken
    revert overspent
    decide +kernel

theorem weightedAmounts_within_iff_halves :
    (∀ balance, sharesOf balance [1 / 2, 1 / 2] ≤ balance.toNat) ∧
    ¬ ∀ stage start, startOfStage bridgedAndBack (fun _ => none)
        (BitVec.ofNat 256 1000000000) stage = .ok start →
      ∀ token, FitsBalance (start.balances.available token)
        (groupWeights bridgedAndBack stage token) := by
  have halves : ∀ weight ∈ ([1 / 2, 1 / 2] : List ℚ), 0 ≤ weight ∧ weight ≤ 1 := by
    simp only [List.mem_cons, List.not_mem_nil, or_false]
    rintro weight (rfl | rfl) <;> norm_num
  obtain ⟨-, allBalances, replays, -⟩ :=
    weightedAmounts_within_iff halves bridgedAndBack_unit
  constructor
  · apply allBalances.mpr
    decide +kernel
  · rw [← replays]
    intro fits
    have overspent := fits 0 _ rfl heldToken
    revert overspent
    decide +kernel

end ArmchairAnalyst

import ArmchairAnalyst.Optimization.Plan
import ArmchairAnalyst.ReplayEffects

/-!
# The order of the steps of a stage

All steps of a stage read the balances at its start, and share the book. Steps through
different pools commute, those through one pool commute when they swap alike.
-/

namespace ArmchairAnalyst

/-- The same steps in every stage, in any order. -/
structure SameStages (plan plan' : ExecutionPlan) : Prop where
  source : plan'.sourceAsset = plan.sourceAsset
  output : plan'.outputAsset = plan.outputAsset
  stages : ∀ stage, (stageSteps plan stage).Perm (stageSteps plan' stage)

/-- The two steps swap the same amount of one token for another. -/
structure SwapAlike (balances : Balances) (step step' : ExecutableStep) : Prop where
  tokenIn : step'.tokenIn = step.tokenIn
  tokenOut : step'.tokenOut = step.tokenOut
  amount : stepInput balances step' = stepInput balances step

/-- At the start of every stage of the replay, the steps of the stage that swap a share
through one pool swap alike. -/
def PoolsApart (plan : ExecutionPlan) (resolve : PoolRef → Option LosslessPool)
    (entryAmount : U256) : Prop :=
  ∀ stage start, startOfStage plan resolve entryAmount stage = .ok start →
    ∀ step ∈ stageSteps plan stage, ∀ step' ∈ stageSteps plan stage, ∀ pool,
      step.SwapsThrough start.balances pool → step'.SwapsThrough start.balances pool →
        SwapAlike start.balances step step'

/-- It is enough that steps of one stage that use the same pool are the same. -/
theorem poolsApart_of_uses {plan : ExecutionPlan}
    (apart : ∀ step ∈ plan.steps, ∀ step' ∈ plan.steps, step.stage = step'.stage →
      ∀ pool, step.UsesPool pool → step'.UsesPool pool → step = step')
    (resolve : PoolRef → Option LosslessPool) (entryAmount : U256) :
    PoolsApart plan resolve entryAmount := by
  intro stage start _ step listed step' listed' pool swaps swaps'
  obtain ⟨member, here⟩ := List.mem_filter.mp listed
  obtain ⟨member', here'⟩ := List.mem_filter.mp listed'
  have together : step.stage = step'.stage :=
    (of_decide_eq_true here).trans (of_decide_eq_true here').symm
  obtain rfl := apart step member step' member' together pool swaps.usesPool swaps'.usesPool
  exact ⟨rfl, rfl, rfl⟩

/-- Every pool of the plan has its entry, as after `buildBook`. -/
def Booked (plan : ExecutionPlan) (start : StageStart) : Prop :=
  ∀ pool ∈ swapPools plan.steps, pool ∈ start.book

/-! ### Two steps -/

theorem saturatingAdd_right_comm (a b c : U256) :
    saturatingAdd (saturatingAdd a b) c = saturatingAdd (saturatingAdd a c) b := by
  apply BitVec.eq_of_toNat_eq
  simp only [saturatingAdd_toNat]
  omega

theorem Balances.available_add (balances : Balances) (token other : TokenAddress)
    (amount : U256) :
    (balances.add token amount).available other =
      if other = token then saturatingAdd (balances.available other) amount
      else balances.available other := by
  unfold add available
  rw [HashMap.getElem?_insert]
  by_cases same : other = token
  · subst same
    simp
  · simp [same]

theorem Balances.add_comm (balances : Balances) (token token' : TokenAddress)
    (amount amount' : U256) :
    (balances.add token amount).add token' amount' =
      (balances.add token' amount').add token amount := by
  apply HashMap.ext_getElem?
  intro other
  simp only [add, HashMap.getElem?_insert, available]
  by_cases same : token = token'
  · subst same
    by_cases here : other = token
    · simp [here, saturatingAdd_right_comm]
    · simp [here]
  · by_cases here : other = token
    · simp [here, same]
    · simp [here, Ne.symm same]

namespace StepEffect

/-- The two effects write no common entry. -/
def Apart (effect effect' : StepEffect) : Prop :=
  ∀ pool entry entry', effect.entry = some (pool, entry) → effect'.entry ≠ some (pool, entry')

theorem apply_comm {effect effect' : StepEffect} (apart : effect.Apart effect')
    (tokenOut tokenOut' : TokenAddress) (next : StageStart) :
    effect'.apply tokenOut' (effect.apply tokenOut next) =
      effect.apply tokenOut (effect'.apply tokenOut' next) := by
  simp only [apply, StageStart.mk.injEq]
  refine ⟨?_, ?_, ?_⟩
  · cases effect.credit with
    | none => rfl
    | some amount =>
      cases effect'.credit with
      | none => rfl
      | some amount' => exact Balances.add_comm _ _ _ _ _
  · cases written : effect.entry with
    | none => rfl
    | some update =>
      cases written' : effect'.entry with
      | none => rfl
      | some update' =>
        obtain ⟨pool, entry⟩ := update
        obtain ⟨pool', entry'⟩ := update'
        have different : pool ≠ pool' := by
          rintro rfl
          exact apart _ _ _ written written'
        apply HashMap.ext_getElem?
        intro other
        simp only [HashMap.getElem?_insert]
        by_cases here : other = pool
        · simp [here, different]
        · simp [here]
  · exact Bool.or_right_comm _ _ _

theorem apply_book {effect : StepEffect} {pool : PoolRef}
    (elsewhere : ∀ entry, effect.entry ≠ some (pool, entry)) (tokenOut : TokenAddress)
    (next : StageStart) : (effect.apply tokenOut next).book[pool]? = next.book[pool]? := by
  cases written : effect.entry with
  | none => simp [apply, written]
  | some update =>
    obtain ⟨pool', entry⟩ := update
    have different : pool ≠ pool' := by
      rintro rfl
      exact elsewhere entry written
    simp [apply, written, HashMap.getElem?_insert, different]

theorem apply_book_mem {effect : StepEffect} {next : StageStart} {pool : PoolRef}
    (known : pool ∈ next.book) (tokenOut : TokenAddress) :
    pool ∈ (effect.apply tokenOut next).book := by
  cases written : effect.entry with
  | none => simpa [apply, written] using known
  | some update => simp [apply, written, Std.ExtTreeMap.mem_insert, known]

end StepEffect

section Steps

variable {plan : ExecutionPlan} {balances : Balances}

theorem Booked.stepEffect_error {step : ExecutableStep} {next : StageStart}
    (booked : Booked plan next) (member : step ∈ plan.steps) {error : LosslessReplayError}
    (failed : stepEffect LosslessPool.swap balances next.book step = .error error) :
    error = .tokenNotInPool := by
  unfold stepEffect at failed
  by_cases empty : stepInput balances step = 0
  · simp [empty] at failed
  · simp only [empty, if_false] at failed
    cases kind : step.kind with
    | swap pool =>
      obtain ⟨entry, found⟩ :=
        (HashMap.mem_iff_exists _ _).mp (booked pool (mem_swapPools.mpr ⟨step, member, kind⟩))
      simp only [kind, found, LosslessPool.swap_eq] at failed
      cases side : entry.sideOf step.tokenIn with
      | none =>
        simp only [side, Except.error.injEq] at failed
        exact failed.symm
      | some side' => simp [side] at failed
    | carry => simp [kind] at failed
    | bridge => simp [kind] at failed

theorem Booked.replayStep {step : ExecutableStep} {next next' : StageStart}
    (booked : Booked plan next) (moved : replayStep balances next step = .ok next') :
    Booked plan next' := by
  rw [replayStep_eq] at moved
  obtain ⟨effect, -, rfl⟩ := replayStepBy_eq_ok.mp moved
  intro pool listed
  exact StepEffect.apply_book_mem (booked pool listed) _

theorem SwapAlike.replayStep_eq {step step' : ExecutableStep} (alike : SwapAlike balances step step')
    {pool : PoolRef} (kind : step.kind = .swap pool) (kind' : step'.kind = .swap pool)
    (next : StageStart) : replayStep balances next step' = replayStep balances next step := by
  simp only [replayStep, kind, kind', alike.tokenIn, alike.tokenOut, alike.amount]

/-- Steps without a pool in common commute, failures included. -/
theorem replayStep_comm {step step' : ExecutableStep} {next : StageStart}
    (booked : Booked plan next) (member : step ∈ plan.steps) (member' : step' ∈ plan.steps)
    (apart : ∀ pool, step.SwapsThrough balances pool → ¬ step'.SwapsThrough balances pool) :
    replayStep balances next step >>= (fun next' => replayStep balances next' step') =
      replayStep balances next step' >>= (fun next' => replayStep balances next' step) := by
  simp only [replayStep_eq, replayStepBy]
  have unread : ∀ effect, stepEffect LosslessPool.swap balances next.book step = .ok effect →
      stepEffect LosslessPool.swap balances (effect.apply step.tokenOut next).book step' =
        stepEffect LosslessPool.swap balances next.book step' := by
    intro effect computed
    apply stepEffect_congr
    intro pool uses
    apply StepEffect.apply_book
    intro entry written
    exact apart pool (stepEffect_entry computed written) uses
  have unread' : ∀ effect, stepEffect LosslessPool.swap balances next.book step' = .ok effect →
      stepEffect LosslessPool.swap balances (effect.apply step'.tokenOut next).book step =
        stepEffect LosslessPool.swap balances next.book step := by
    intro effect computed
    apply stepEffect_congr
    intro pool uses
    apply StepEffect.apply_book
    intro entry written
    exact apart pool uses (stepEffect_entry computed written)
  cases computed : stepEffect LosslessPool.swap balances next.book step with
  | error error =>
    cases computed' : stepEffect LosslessPool.swap balances next.book step' with
    | error error' =>
      rw [booked.stepEffect_error member computed, booked.stepEffect_error member' computed']
      rfl
    | ok effect' =>
      have still := (unread' effect' computed').trans computed
      simp [Except.map, bind, Except.bind, still]
  | ok effect =>
    cases computed' : stepEffect LosslessPool.swap balances next.book step' with
    | error error' =>
      have still := (unread effect computed).trans computed'
      simp [Except.map, bind, Except.bind, still]
    | ok effect' =>
      have still := (unread effect computed).trans computed'
      have still' := (unread' effect' computed').trans computed
      simp only [Except.map, bind, Except.bind, still, still', Except.ok.injEq]
      apply StepEffect.apply_comm
      intro pool entry entry' written written'
      exact apart pool (stepEffect_entry computed written) (stepEffect_entry computed' written')

end Steps

/-! ### Whole replays -/

namespace SameStages

variable {plan plan' : ExecutionPlan}

theorem perm (same : SameStages plan plan') : plan.steps.Perm plan'.steps := by
  classical
  rw [List.perm_iff_count]
  intro step
  have counted := (List.perm_iff_count.mp (same.stages step.stage)) step
  unfold stageSteps at counted
  rwa [List.count_filter (by simp), List.count_filter (by simp)] at counted

theorem stageCount_eq (same : SameStages plan plan') : stageCount plan' = stageCount plan := by
  have stages : (plan.steps.map (·.stage)).Perm (plan'.steps.map (·.stage)) := same.perm.map _
  have greatest : (plan'.steps.map (·.stage)).max? = (plan.steps.map (·.stage)).max? := by
    apply Option.ext
    intro stage
    simp only [List.max?_eq_some_iff, stages.mem_iff]
  unfold stageCount
  rw [greatest]

theorem mem_swapPools_iff (same : SameStages plan plan') (pool : PoolRef) :
    pool ∈ swapPools plan'.steps ↔ pool ∈ swapPools plan.steps := by
  simp only [mem_swapPools, same.perm.mem_iff]

theorem buildBook_eq (same : SameStages plan plan') (resolve : PoolRef → Option LosslessPool) :
    buildBook resolve ∅ plan'.steps = buildBook resolve ∅ plan.steps := by
  obtain ⟨looked, failed, built⟩ := buildBook_spec resolve ∅ plan.steps
  obtain ⟨looked', failed', built'⟩ := buildBook_spec resolve ∅ plan'.steps
  simp only [same.mem_swapPools_iff] at looked' built'
  cases ok : buildBook resolve ∅ plan.steps with
  | error error =>
    cases ok' : buildBook resolve ∅ plan'.steps with
    | error error' => rw [failed error ok, failed' error' ok']
    | ok book' =>
      obtain ⟨book, found⟩ := built.mpr (built'.mp ⟨book', ok'⟩)
      rw [ok] at found
      cases found
  | ok book =>
    cases ok' : buildBook resolve ∅ plan'.steps with
    | error error' =>
      obtain ⟨book', found⟩ := built'.mpr (built.mp ⟨book, ok⟩)
      rw [ok'] at found
      cases found
    | ok book' =>
      have equal : book' = book :=
        HashMap.ext_getElem? (fun pool => (looked' book' ok' pool).trans (looked book ok pool).symm)
      rw [equal]

theorem booked_of_buildBook {resolve : PoolRef → Option LosslessPool}
    {book : HashMap PoolRef LosslessPool} (ok : buildBook resolve ∅ plan.steps = .ok book)
    (entryAmount : U256) : Booked plan (openingOf plan book entryAmount) := by
  intro pool listed
  obtain ⟨looked, -, built⟩ := buildBook_spec resolve ∅ plan.steps
  rcases built.mp ⟨book, ok⟩ pool listed with absent | resolved
  · simp at absent
  · obtain ⟨entry, found⟩ := Option.isSome_iff_exists.mp resolved
    apply (HashMap.mem_iff_exists _ _).mpr
    refine ⟨entry, ?_⟩
    rw [openingOf, looked book ok pool]
    simp [listed, found]

theorem booked_replayStage {start next : StageStart} {stage : Nat} (booked : Booked plan start)
    (moved : replayStage plan start stage = .ok next) : Booked plan next := by
  have opened : Booked plan { start with balances := ∅ } := booked
  exact Except.foldlM_keeps (Booked plan) (fun _ _ _ kept ran => kept.replayStep ran) opened moved

theorem replayStage_eq (same : SameStages plan plan') {resolve : PoolRef → Option LosslessPool}
    {entryAmount : U256} (apart : PoolsApart plan resolve entryAmount) {stage : Nat}
    {start : StageStart} (started : startOfStage plan resolve entryAmount stage = .ok start)
    (booked : Booked plan start) :
    replayStage plan start stage = replayStage plan' start stage := by
  refine Except.foldlM_perm (Booked plan) (same.stages stage) ?_ ?_ booked
  · intro step _ next next' kept moved
    exact kept.replayStep moved
  · intro step listed step' listed' next kept
    by_cases shared : ∃ pool, step.SwapsThrough start.balances pool ∧
        step'.SwapsThrough start.balances pool
    · obtain ⟨pool, swaps, swaps'⟩ := shared
      have alike := (apart stage start started step listed step' listed' pool swaps
        swaps').replayStep_eq swaps.1 swaps'.1
      simp only [alike]
    · push Not at shared
      have member := (List.mem_filter.mp listed).1
      have member' := (List.mem_filter.mp listed').1
      exact replayStep_comm kept member member' shared

/-- The state at the start of every stage is the same, and has every pool of the plan. -/
theorem startOfStage_eq (same : SameStages plan plan') {resolve : PoolRef → Option LosslessPool}
    {entryAmount : U256} (apart : PoolsApart plan resolve entryAmount) (stage : Nat) :
    startOfStage plan' resolve entryAmount stage = startOfStage plan resolve entryAmount stage ∧
      ∀ start, startOfStage plan resolve entryAmount stage = .ok start → Booked plan start := by
  induction stage with
  | zero =>
    refine ⟨?_, ?_⟩
    · unfold startOfStage
      rw [same.buildBook_eq, same.source]
      rfl
    · intro start started
      rw [ArmchairAnalyst.startOfStage_eq] at started
      obtain ⟨book, built, rfl⟩ := startOfStageBy_zero started
      exact booked_of_buildBook built entryAmount
  | succ stage inductionHypothesis =>
    obtain ⟨equal, booked⟩ := inductionHypothesis
    rw [startOfStage_succ, startOfStage_succ, equal]
    cases started : startOfStage plan resolve entryAmount stage with
    | error error => exact ⟨rfl, fun start failed => by cases failed⟩
    | ok start =>
      have kept := booked start started
      refine ⟨(same.replayStage_eq apart started kept).symm, ?_⟩
      intro next moved
      exact booked_replayStage kept moved

theorem replayPlanLossless_eq (same : SameStages plan plan')
    {resolve : PoolRef → Option LosslessPool} {entryAmount : U256}
    (apart : PoolsApart plan resolve entryAmount) :
    replayPlanLossless plan' resolve entryAmount = replayPlanLossless plan resolve entryAmount := by
  unfold replayPlanLossless
  rw [same.stageCount_eq, (same.startOfStage_eq apart _).1, same.output]

end SameStages

/-! ### Built plans -/

theorem sameStages_of_perm {plan plan' : ExecutionPlan} (source : plan'.sourceAsset = plan.sourceAsset)
    (output : plan'.outputAsset = plan.outputAsset) (permuted : plan.steps.Perm plan'.steps) :
    SameStages plan plan' :=
  ⟨source, output, fun _ => permuted.filter _⟩

def losslessKind : Optimization.StepKind PoolRef → StepKind
  | .swap pool => .swap pool
  | .carry => .carry
  | .bridge => .bridge

/-- What the replay reads of a built plan. The amounts are advisory, and `value` gives the
number that a weight stands for. -/
def losslessPlan {W : Type} (value : W → ℚ)
    (plan : Optimization.ExecutionPlan PoolRef TokenAddress W) : ExecutionPlan where
  sourceAsset := plan.sourceAsset
  outputAsset := plan.outputAsset
  steps := plan.steps.map (fun step =>
    { stage := step.stage
      tokenIn := step.tokenIn
      tokenOut := step.tokenOut
      kind := losslessKind step.kind
      weight := value step.weight })

section Built

open Optimization (FlowRecord CellKey Accum mergeFlow groupTotals planStep buildPlan)

variable {W : Type} [Zero W] [Add W] [Div W] [LT W] [DecidableLT W]
  {iterate iterate' : List (CellKey PoolRef TokenAddress × Accum W) →
    List (CellKey PoolRef TokenAddress × Accum W)}

/-- The two orders of the merged cells give every balance the same total weight, which sums
in single precision need not do. -/
def SameTotals (iterate iterate' : List (CellKey PoolRef TokenAddress × Accum W) →
    List (CellKey PoolRef TokenAddress × Accum W))
    (flows : List (FlowRecord PoolRef TokenAddress W)) (minWeight : W)
    (bridges : HashSet (TokenAddress × TokenAddress)) : Prop :=
  let merged := flows.foldl (mergeFlow minWeight bridges) []
  ∀ group, ((groupTotals (iterate merged)).lookup group).getD 0 =
    ((groupTotals (iterate' merged)).lookup group).getD 0

theorem sameTotals_exact {iterate iterate' : List (CellKey PoolRef TokenAddress × Accum ℚ) →
      List (CellKey PoolRef TokenAddress × Accum ℚ)}
    (iterated : ∀ merged, (iterate merged).Perm merged)
    (iterated' : ∀ merged, (iterate' merged).Perm merged)
    (flows : List (FlowRecord PoolRef TokenAddress ℚ)) (minWeight : ℚ)
    (bridges : HashSet (TokenAddress × TokenAddress)) :
    SameTotals iterate iterate' flows minWeight bridges := by
  rintro ⟨stage, tokenIn⟩
  rw [Optimization.lookup_groupTotals, Optimization.lookup_groupTotals,
    Optimization.groupWeight_perm (iterated _), Optimization.groupWeight_perm (iterated' _)]

theorem buildPlan_sameStages (iterated : ∀ merged, (iterate merged).Perm merged)
    (iterated' : ∀ merged, (iterate' merged).Perm merged)
    {flows : List (FlowRecord PoolRef TokenAddress W)} {minWeight : W}
    {bridges : HashSet (TokenAddress × TokenAddress)}
    (totals : SameTotals iterate iterate' flows minWeight bridges) (value : W → ℚ)
    (sourceAsset outputAsset : TokenAddress) (entryAmount : W) :
    SameStages
      (losslessPlan value
        (buildPlan iterate flows sourceAsset outputAsset entryAmount minWeight bridges))
      (losslessPlan value
        (buildPlan iterate' flows sourceAsset outputAsset entryAmount minWeight bridges)) := by
  have steps : @planStep PoolRef _ _ W _ _ _ _
        (groupTotals (iterate (flows.foldl (mergeFlow minWeight bridges) []))) =
      planStep (groupTotals (iterate' (flows.foldl (mergeFlow minWeight bridges) []))) := by
    funext entry
    simp only [planStep, totals _]
  refine sameStages_of_perm rfl rfl (List.Perm.map _ ?_)
  refine (Optimization.steps_perm iterated).trans ?_
  rw [steps]
  exact (Optimization.steps_perm iterated').symm

end Built

/-! ### A stage that swaps both ways -/

def tokenA : TokenAddress := { address := 0xA, chain := .ethereum }

def tokenB : TokenAddress := { address := 0xB, chain := .ethereum }

def poolAt (address : Address) : PoolRef := { key := .uniswapV3 address, chain := .ethereum }

def evenPool : LosslessPool where
  token0 := tokenA
  token1 := tokenB
  reserve0 := 1000000
  reserve1 := 1000000
  feePips := 3000
  swapLimit0 := 100000000
  swapLimit1 := 100000000

/-- The entry is split over two pools, in the order of `split`. -/
def splitPlan (split : List ExecutableStep → List ExecutableStep) : ExecutionPlan where
  sourceAsset := tokenA
  outputAsset := tokenB
  steps := split
    [{ stage := 0, tokenIn := tokenA, tokenOut := tokenB, kind := .swap (poolAt 1),
       weight := 1 / 2 },
     { stage := 0, tokenIn := tokenA, tokenOut := tokenB, kind := .swap (poolAt 2),
       weight := 1 / 2 }]

def splitFlow (address : Address) : Optimization.FlowRecord PoolRef TokenAddress ℚ where
  stage := 0
  tokenIn := tokenA
  tokenOut := tokenB
  poolId := some (poolAt address)
  amountIn := 500000
  amountOut := 0
  weight := 1 / 4

/-- The first stage splits the entry over both tokens, the second one sends the two
through one pool in opposite directions, in the order of `crossing`. -/
def crossingPlan (crossing : List ExecutableStep → List ExecutableStep) : ExecutionPlan where
  sourceAsset := tokenA
  outputAsset := tokenA
  steps :=
    [{ stage := 0, tokenIn := tokenA, tokenOut := tokenB, kind := .swap (poolAt 1),
       weight := 1 / 2 },
     { stage := 0, tokenIn := tokenA, tokenOut := tokenA, kind := .carry, weight := 1 / 2 }] ++
    crossing
      [{ stage := 1, tokenIn := tokenA, tokenOut := tokenB, kind := .swap (poolAt 2), weight := 1 },
       { stage := 1, tokenIn := tokenB, tokenOut := tokenA, kind := .swap (poolAt 2), weight := 1 }]

end ArmchairAnalyst

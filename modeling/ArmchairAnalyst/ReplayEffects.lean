import ArmchairAnalyst.Library.Fallible
import ArmchairAnalyst.SwapSequences

/-!
# The effects of replayed steps

A step reads the balances at the start of its stage and at most one entry of the book.
What it does to the gathered state follows from what it read, so two ways of swapping
make two replays of one shape.
-/

namespace ArmchairAnalyst

/-- A way to swap an amount of a token through a pool. -/
abbrev SwapRule :=
  LosslessPool → TokenAddress → U256 → Except LosslessReplayError (LosslessPool × Hop)

structure StepEffect where
  credit : Option U256
  entry : Option (PoolRef × LosslessPool)
  hitLimit : Bool

namespace StepEffect

def nothing : StepEffect := { credit := none, entry := none, hitLimit := false }

def passed (amount : U256) : StepEffect :=
  { credit := some amount, entry := none, hitLimit := false }

def apply (effect : StepEffect) (tokenOut : TokenAddress) (next : StageStart) : StageStart where
  balances :=
    match effect.credit with
    | some amount => next.balances.add tokenOut amount
    | none => next.balances
  book :=
    match effect.entry with
    | some (pool, entry) => next.book.insert pool entry
    | none => next.book
  hitTickLimit := next.hitTickLimit || effect.hitLimit

end StepEffect

section Rules

variable (rule : SwapRule)

def stepEffect (balances : Balances) (book : HashMap PoolRef LosslessPool)
    (step : ExecutableStep) : Except LosslessReplayError StepEffect :=
  let amountIn := stepInput balances step
  if amountIn = 0 then .ok .nothing
  else
    match step.kind with
    | .swap pool =>
      match book[pool]? with
      | none => .error .poolNotFound
      | some entry =>
        match rule entry step.tokenIn amountIn with
        | .error error => .error error
        | .ok (entry, hop) =>
          .ok { credit := some hop.out, entry := some (pool, entry), hitLimit := hop.hitLimit }
    | .carry => .ok (if step.tokenIn = step.tokenOut then .passed amountIn else .nothing)
    | .bridge => .ok (.passed amountIn)

def replayStepBy (balances : Balances) (next : StageStart) (step : ExecutableStep) :
    Except LosslessReplayError StageStart :=
  (stepEffect rule balances next.book step).map (fun effect => effect.apply step.tokenOut next)

def replayStageBy (plan : ExecutionPlan) (start : StageStart) (stage : Nat) :
    Except LosslessReplayError StageStart :=
  (stageSteps plan stage).foldlM (replayStepBy rule start.balances) { start with balances := ∅ }

def openingOf (plan : ExecutionPlan) (book : HashMap PoolRef LosslessPool) (entryAmount : U256) :
    StageStart where
  balances := (∅ : Balances).insert plan.sourceAsset entryAmount
  book
  hitTickLimit := false

/-- The state at the start of a stage under a rule for the swaps. -/
def startOfStageBy (plan : ExecutionPlan) (resolve : PoolRef → Option LosslessPool)
    (entryAmount : U256) (stage : Nat) : Except LosslessReplayError StageStart :=
  match buildBook resolve ∅ plan.steps with
  | .error error => .error error
  | .ok book => (List.range stage).foldlM (replayStageBy rule plan) (openingOf plan book entryAmount)

def replayPlanBy (plan : ExecutionPlan) (resolve : PoolRef → Option LosslessPool)
    (entryAmount : U256) : Except LosslessReplayError LosslessOutcome :=
  match startOfStageBy rule plan resolve entryAmount (stageCount plan) with
  | .error error => .error error
  | .ok final =>
    .ok
      { output := final.balances.available plan.outputAsset
        hitTickLimit := final.hitTickLimit }

variable {rule}

theorem startOfStageBy_zero {plan : ExecutionPlan} {resolve : PoolRef → Option LosslessPool}
    {entryAmount : U256} {start : StageStart}
    (started : startOfStageBy rule plan resolve entryAmount 0 = .ok start) :
    ∃ book, buildBook resolve ∅ plan.steps = .ok book ∧ start = openingOf plan book entryAmount := by
  unfold startOfStageBy at started
  cases built : buildBook resolve ∅ plan.steps with
  | error error => simp [built] at started
  | ok book =>
    simp only [built] at started
    exact ⟨book, rfl, (Except.pure_eq_ok_iff.mp started).symm⟩

theorem startOfStageBy_succ (plan : ExecutionPlan) (resolve : PoolRef → Option LosslessPool)
    (entryAmount : U256) (stage : Nat) :
    startOfStageBy rule plan resolve entryAmount (stage + 1) =
      startOfStageBy rule plan resolve entryAmount stage >>=
        fun start => replayStageBy rule plan start stage := by
  unfold startOfStageBy
  cases buildBook resolve ∅ plan.steps with
  | error error => rfl
  | ok book =>
    simp only [List.range_succ, List.foldlM_append, List.foldlM_cons, List.foldlM_nil]
    congr 1
    funext start
    exact bind_pure _

end Rules

/-! ### The replay of the gate -/

theorem replayStep_eq (balances : Balances) (next : StageStart) (step : ExecutableStep) :
    replayStep balances next step = replayStepBy LosslessPool.swap balances next step := by
  unfold replayStep replayStepBy stepEffect
  by_cases empty : stepInput balances step = 0
  · simp [empty, StepEffect.apply, StepEffect.nothing, Except.map]
  · cases kind : step.kind with
    | swap pool =>
      simp only [empty, if_false]
      cases next.book[pool]? with
      | none => rfl
      | some entry =>
        dsimp only
        cases entry.swap step.tokenIn (stepInput balances step) with
        | error error => rfl
        | ok result => rfl
    | carry =>
      simp only [empty, if_false]
      split <;> simp [StepEffect.apply, StepEffect.nothing, StepEffect.passed, Except.map]
    | bridge =>
      simp only [empty, if_false]
      simp [StepEffect.apply, StepEffect.passed, Except.map]

theorem replayStage_eq (plan : ExecutionPlan) :
    replayStage plan = replayStageBy LosslessPool.swap plan := by
  funext start stage
  unfold replayStage replayStageBy
  congr 1
  funext next step
  exact replayStep_eq _ next step

theorem startOfStage_eq (plan : ExecutionPlan) (resolve : PoolRef → Option LosslessPool)
    (entryAmount : U256) (stage : Nat) :
    startOfStage plan resolve entryAmount stage =
      startOfStageBy LosslessPool.swap plan resolve entryAmount stage := by
  unfold startOfStage
  rw [replayStage_eq]
  rfl

theorem startOfStage_succ (plan : ExecutionPlan) (resolve : PoolRef → Option LosslessPool)
    (entryAmount : U256) (stage : Nat) :
    startOfStage plan resolve entryAmount (stage + 1) =
      startOfStage plan resolve entryAmount stage >>= fun start => replayStage plan start stage := by
  rw [startOfStage_eq, startOfStage_eq, startOfStageBy_succ, replayStage_eq]

theorem replayPlanLossless_eq (plan : ExecutionPlan) (resolve : PoolRef → Option LosslessPool)
    (entryAmount : U256) :
    replayPlanLossless plan resolve entryAmount =
      replayPlanBy LosslessPool.swap plan resolve entryAmount := by
  unfold replayPlanLossless
  rw [startOfStage_eq]
  rfl

/-! ### Which pools a step uses -/

/-- The step swaps through the pool, with a weight of at least one billionth. -/
def ExecutableStep.UsesPool (step : ExecutableStep) (pool : PoolRef) : Prop :=
  step.kind = .swap pool ∧ scaledWeight step.weight ≠ 0

instance instDecidableUsesPool (step : ExecutableStep) (pool : PoolRef) :
    Decidable (step.UsesPool pool) :=
  inferInstanceAs (Decidable (_ ∧ _))

theorem scaledWeight_ne_zero {balances : Balances} {step : ExecutableStep}
    (routed : stepInput balances step ≠ 0) : scaledWeight step.weight ≠ 0 := by
  intro weightless
  apply routed
  apply BitVec.eq_of_toNat_eq
  rw [stepInput, weightedAmount_toNat, weightless]
  simp

/-- The step swaps a share of these balances through the pool. -/
def ExecutableStep.SwapsThrough (step : ExecutableStep) (balances : Balances) (pool : PoolRef) :
    Prop :=
  step.kind = .swap pool ∧ stepInput balances step ≠ 0

theorem ExecutableStep.SwapsThrough.usesPool {step : ExecutableStep} {balances : Balances}
    {pool : PoolRef} (swaps : step.SwapsThrough balances pool) : step.UsesPool pool :=
  ⟨swaps.1, scaledWeight_ne_zero swaps.2⟩

section Effects

variable {rule : SwapRule} {balances : Balances} {book book' : HashMap PoolRef LosslessPool}
  {step : ExecutableStep}

/-- The effect of a step only depends on the entry of the pool that it swaps through. -/
theorem stepEffect_congr
    (same : ∀ pool, step.SwapsThrough balances pool → book[pool]? = book'[pool]?) :
    stepEffect rule balances book step = stepEffect rule balances book' step := by
  unfold stepEffect
  by_cases empty : stepInput balances step = 0
  · simp [empty]
  · cases kind : step.kind with
    | swap pool => simp only [same pool ⟨kind, empty⟩]
    | carry => rfl
    | bridge => rfl

theorem stepEffect_swap {effect : StepEffect} {pool : PoolRef} (kind : step.kind = .swap pool)
    (computed : stepEffect rule balances book step = .ok effect) :
    stepInput balances step = 0 ∧ effect = .nothing ∨
      stepInput balances step ≠ 0 ∧ ∃ entry entry' hop, book[pool]? = some entry ∧
        rule entry step.tokenIn (stepInput balances step) = .ok (entry', hop) ∧
        effect = { credit := some hop.out, entry := some (pool, entry'), hitLimit := hop.hitLimit } := by
  unfold stepEffect at computed
  by_cases empty : stepInput balances step = 0
  · simp only [empty, if_true, Except.ok.injEq] at computed
    exact .inl ⟨empty, computed.symm⟩
  · simp only [empty, if_false, kind] at computed
    cases found : book[pool]? with
    | none => simp [found] at computed
    | some entry =>
      simp only [found] at computed
      cases swapped : rule entry step.tokenIn (stepInput balances step) with
      | error error => simp [swapped] at computed
      | ok result =>
        simp only [swapped, Except.ok.injEq] at computed
        exact .inr ⟨empty, entry, result.1, result.2, rfl, swapped, computed.symm⟩

/-- What a step without a pool passes on. -/
def passedAmount (balances : Balances) (step : ExecutableStep) : U256 :=
  if step.kind = .carry ∧ step.tokenIn ≠ step.tokenOut then 0 else stepInput balances step

theorem stepEffect_pass {effect : StepEffect} (kind : ∀ pool, step.kind ≠ .swap pool)
    (computed : stepEffect rule balances book step = .ok effect) :
    effect.entry = none ∧ effect.credit.getD 0 = passedAmount balances step := by
  unfold stepEffect at computed
  unfold passedAmount
  by_cases empty : stepInput balances step = 0
  · simp only [empty, if_true, Except.ok.injEq] at computed
    subst computed
    simp [StepEffect.nothing, empty]
  · simp only [empty, if_false] at computed
    cases shape : step.kind with
    | swap pool => exact absurd shape (kind pool)
    | carry =>
      simp only [shape, Except.ok.injEq] at computed
      subst computed
      by_cases same : step.tokenIn = step.tokenOut
      · simp [same, StepEffect.passed]
      · simp [same, StepEffect.nothing]
    | bridge =>
      simp only [shape, Except.ok.injEq] at computed
      subst computed
      simp [StepEffect.passed]

theorem stepEffect_entry {effect : StepEffect} {pool : PoolRef} {entry : LosslessPool}
    (computed : stepEffect rule balances book step = .ok effect)
    (written : effect.entry = some (pool, entry)) : step.SwapsThrough balances pool := by
  cases kind : step.kind with
  | swap pool' =>
    rcases stepEffect_swap kind computed with ⟨-, rfl⟩ | ⟨routed, _, _, _, -, -, rfl⟩
    · cases written
    · simp only [Option.some.injEq, Prod.mk.injEq] at written
      obtain ⟨rfl, -⟩ := written
      exact ⟨kind, routed⟩
  | carry =>
    rw [(stepEffect_pass (by simp [kind]) computed).1] at written
    cases written
  | bridge =>
    rw [(stepEffect_pass (by simp [kind]) computed).1] at written
    cases written

theorem replayStepBy_eq_ok {next next' : StageStart} :
    replayStepBy rule balances next step = .ok next' ↔
      ∃ effect, stepEffect rule balances next.book step = .ok effect ∧
        next' = effect.apply step.tokenOut next := by
  unfold replayStepBy
  cases stepEffect rule balances next.book step with
  | error error => simp [Except.map]
  | ok effect => simp [Except.map, eq_comm]

end Effects

/-! ### The book -/

/-- The pools that the steps swap through, whatever their weights. -/
def swapPools (steps : List ExecutableStep) : List PoolRef :=
  steps.filterMap (fun step =>
    match step.kind with
    | .swap pool => some pool
    | .carry | .bridge => none)

/-- Every pool that is not in the book yet is resolved, or else the book is not built. -/
theorem buildBook_spec (resolve : PoolRef → Option LosslessPool)
    (book : HashMap PoolRef LosslessPool) (steps : List ExecutableStep) :
    (∀ book', buildBook resolve book steps = .ok book' → ∀ pool,
      book'[pool]? =
        (book[pool]?).or (if pool ∈ swapPools steps then resolve pool else none)) ∧
    (∀ error, buildBook resolve book steps = .error error → error = .poolNotFound) ∧
    ((∃ book', buildBook resolve book steps = .ok book') ↔
      ∀ pool ∈ swapPools steps, pool ∈ book ∨ (resolve pool).isSome) := by
  induction steps generalizing book with
  | nil => simp [buildBook, swapPools]
  | cons step steps inductionHypothesis =>
    unfold buildBook
    cases kind : step.kind with
    | swap pool =>
      have pools : swapPools (step :: steps) = pool :: swapPools steps := by
        simp [swapPools, kind]
      simp only [pools]
      by_cases known : pool ∈ book
      · obtain ⟨entry, found⟩ := (HashMap.mem_iff_exists _ _).mp known
        obtain ⟨looked, failed, built⟩ := inductionHypothesis book
        simp only [known, if_true]
        refine ⟨?_, failed, ?_⟩
        · intro book' ok other
          rw [looked book' ok other]
          by_cases same : other = pool
          · subst same
            simp [found]
          · simp [same]
        · rw [built]
          simp [known]
      · have unknown := (HashMap.getElem?_eq_none_iff _ _).mpr known
        simp only [known, if_false]
        cases resolved : resolve pool with
        | none => simp [known, resolved]
        | some entry =>
          obtain ⟨looked, failed, built⟩ := inductionHypothesis (book.insert pool entry)
          refine ⟨?_, failed, ?_⟩
          · intro book' ok other
            rw [looked book' ok other, HashMap.getElem?_insert]
            by_cases same : other = pool
            · subst same
              simp [unknown, resolved]
            · simp [same]
          · rw [built]
            simp only [List.mem_cons, forall_eq_or_imp, resolved, Option.isSome_some, or_true,
              true_and, Std.ExtTreeMap.mem_insert]
            apply forall₂_congr
            intro other listed
            by_cases same : other = pool
            · subst same
              simp [resolved]
            · simp [Ne.symm same]
    | carry => simpa [swapPools, kind] using inductionHypothesis book
    | bridge => simpa [swapPools, kind] using inductionHypothesis book

theorem mem_swapPools {steps : List ExecutableStep} {pool : PoolRef} :
    pool ∈ swapPools steps ↔ ∃ step ∈ steps, step.kind = .swap pool := by
  unfold swapPools
  rw [List.mem_filterMap]
  apply exists_congr
  intro step
  apply and_congr_right
  intro _
  cases step.kind <;> simp

end ArmchairAnalyst

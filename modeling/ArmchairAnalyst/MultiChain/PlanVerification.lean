import ArmchairAnalyst.Library.KeyedMerge
import ArmchairAnalyst.MultiChain.DispatchedSnapshots
import ArmchairAnalyst.StageOrder
import ArmchairAnalyst.TickRange

/-!
# Verified plans

A plan that comes with a completed optimization step is judged by its lossless replay
against the state at that moment. Its pools are read with one fold for each chain, which is
as good as one for each pool.
-/

namespace ArmchairAnalyst.MultiChain

open Bootstrap (FillerHash)

variable [BloomHash]

/-! ### The book -/

/-- The lossless pool of a chain, from its overlay or else from its finalized state. -/
def losslessEntry (chainState : Kernel.State) (chain : ChainKey)
    (overlay : HashMap PoolRef PoolState) (pool : PoolRef) : Option LosslessPool := do
  let poolState ← overlay[pool]?.or chainState.blocks.finalizedSnapshot[pool]?
  let metadata ← chainState.poolRegistry.verifiedMetadata pool
  (LosslessPool.fromPoolState poolState metadata chain).toOption

/-- Adds the pools of one chain to the book. -/
def addChainPools (state : State) (book : HashMap PoolRef LosslessPool)
    (entry : ChainKey × List PoolRef) : HashMap PoolRef LosslessPool :=
  match state.chains[entry.1]? with
  | some (.active chainState) =>
    let overlay := (optimizationUpdate chainState entry.1).poolStates
    resolveInto (losslessEntry chainState entry.1 overlay) book entry.2
  | _ => book

/-- The pools that a plan swaps through, with one fold for each chain. -/
def losslessPoolsForPlan (state : State) (plan : ExecutionPlan) : HashMap PoolRef LosslessPool :=
  (groupedBy PoolRef.chain (swapPools plan.steps)).toList.foldl (addChainPools state) ∅

/-- The lossless pool of the freshest state that is known of a pool. -/
def freshPool (state : State) (pool : PoolRef) : Option LosslessPool :=
  match state.chains[pool.chain]? with
  | some (.active chainState) =>
    losslessEntry chainState pool.chain (optimizationUpdate chainState pool.chain).poolStates pool
  | _ => none

theorem freshPool_active {state : State} {pool : PoolRef} {chainState : Kernel.State}
    (found : state.chains[pool.chain]? = some (.active chainState)) :
    freshPool state pool = losslessEntry chainState pool.chain
      (optimizationUpdate chainState pool.chain).poolStates pool := by
  simp only [freshPool, found]

theorem addChainPools_fresh (state : State) (book : HashMap PoolRef LosslessPool)
    {entry : ChainKey × List PoolRef} (own : ∀ pool ∈ entry.2, pool.chain = entry.1) :
    addChainPools state book entry = resolveInto (freshPool state) book entry.2 := by
  obtain ⟨chain, pools⟩ := entry
  apply HashMap.ext_getElem?
  intro pool
  rw [getElem?_resolveInto]
  unfold addChainPools
  split
  · rename_i chainState found
    rw [getElem?_resolveInto]
    split
    · rename_i listed
      obtain rfl := own pool listed
      rw [freshPool_active found]
    · rfl
  · rename_i inactive
    split
    · rename_i listed
      obtain rfl := own pool listed
      have unknown : freshPool state pool = none := by
        unfold freshPool
        split
        · rename_i chainState found
          exact absurd found (inactive chainState)
        · rfl
      rw [unknown, Option.none_or]
    · rfl

theorem foldl_addChainPools (state : State) {entries : List (ChainKey × List PoolRef)}
    (own : ∀ entry ∈ entries, ∀ pool ∈ entry.2, pool.chain = entry.1)
    (book : HashMap PoolRef LosslessPool) (pool : PoolRef) :
    (entries.foldl (addChainPools state) book)[pool]? =
      if ∃ entry ∈ entries, pool ∈ entry.2 then (freshPool state pool).or book[pool]?
      else book[pool]? := by
  induction entries generalizing book with
  | nil => simp
  | cons entry entries inductionHypothesis =>
    have later := inductionHypothesis (fun other listed => own other (List.mem_cons_of_mem _ listed))
    rw [List.foldl_cons, later, addChainPools_fresh state book (own entry List.mem_cons_self),
      getElem?_resolveInto]
    simp only [List.exists_mem_cons_iff]
    by_cases here : pool ∈ entry.2
    · cases freshPool state pool <;> simp [here]
    · rw [if_neg here]
      exact if_congr (by simp [here]) rfl rfl

/-- Reading the pools chain by chain is reading each of them by itself. -/
theorem losslessPoolsForPlan_fresh (state : State) (plan : ExecutionPlan) (pool : PoolRef) :
    (losslessPoolsForPlan state plan)[pool]? =
      if pool ∈ swapPools plan.steps then freshPool state pool else none := by
  have groups : ∀ entry ∈ (groupedBy PoolRef.chain (swapPools plan.steps)).toList,
      ∀ pool ∈ entry.2, pool ∈ swapPools plan.steps ∧ pool.chain = entry.1 := by
    intro entry listed pool member
    exact mem_groupedBy.mp ⟨entry.2, (HashMap.mem_toList_iff _ entry).mp listed, member⟩
  have grouped : (∃ entry ∈ (groupedBy PoolRef.chain (swapPools plan.steps)).toList,
      pool ∈ entry.2) ↔ pool ∈ swapPools plan.steps := by
    constructor
    · rintro ⟨entry, listed, member⟩
      exact (groups entry listed pool member).1
    · intro listed
      obtain ⟨group, found, member⟩ : ∃ group,
          (groupedBy PoolRef.chain (swapPools plan.steps))[pool.chain]? = some group ∧
            pool ∈ group := mem_groupedBy.mpr ⟨listed, rfl⟩
      exact ⟨(pool.chain, group), (HashMap.mem_toList_iff _ _).mpr found, member⟩
  unfold losslessPoolsForPlan
  rw [foldl_addChainPools state (fun entry listed pool member => (groups entry listed pool member).2)]
  simp [grouped]

omit [BloomHash] in
theorem buildBook_congr {resolve resolve' : PoolRef → Option LosslessPool}
    {steps : List ExecutableStep} (same : ∀ pool ∈ swapPools steps, resolve pool = resolve' pool)
    (book : HashMap PoolRef LosslessPool) :
    buildBook resolve book steps = buildBook resolve' book steps := by
  induction steps generalizing book with
  | nil => rfl
  | cons step steps inductionHypothesis =>
    have later := inductionHypothesis (fun pool listed => same pool (by
      rw [mem_swapPools] at listed ⊢
      obtain ⟨step, member, kind⟩ := listed
      exact ⟨step, List.mem_cons_of_mem _ member, kind⟩))
    unfold buildBook
    cases kind : step.kind with
    | swap pool =>
      have agree := same pool (mem_swapPools.mpr ⟨step, List.mem_cons_self, kind⟩)
      simp only [agree, later]
    | carry => exact later book
    | bridge => exact later book

/-- A replay with the book is one with the freshest pools. -/
theorem replayPlanLossless_fresh (state : State) (plan : ExecutionPlan) (entry : U256) :
    replayPlanLossless plan (fun pool => (losslessPoolsForPlan state plan)[pool]?) entry =
      replayPlanLossless plan (freshPool state) entry := by
  have same : ∀ pool ∈ swapPools plan.steps,
      (losslessPoolsForPlan state plan)[pool]? = freshPool state pool := by
    intro pool listed
    rw [losslessPoolsForPlan_fresh, if_pos listed]
  unfold replayPlanLossless startOfStage
  rw [buildBook_congr same]

/-! ### When a replay fails -/

section Replays

variable {plan : ExecutionPlan} {resolve : PoolRef → Option LosslessPool} {entryAmount : U256}

omit [BloomHash]

theorem booked_step_error {balances : Balances} {next : StageStart} {step : ExecutableStep}
    (booked : Booked plan next) (member : step ∈ plan.steps) {error : LosslessReplayError}
    (failed : replayStep balances next step = .error error) : error = .tokenNotInPool := by
  rw [replayStep_eq, replayStepBy] at failed
  cases computed : stepEffect LosslessPool.swap balances next.book step with
  | error error' =>
    rw [computed] at failed
    obtain rfl := Except.error.inj failed
    exact booked.stepEffect_error member computed
  | ok effect =>
    rw [computed] at failed
    cases failed

theorem booked_stage_error {start : StageStart} {stage : Nat} (booked : Booked plan start)
    {error : LosslessReplayError} (failed : replayStage plan start stage = .error error) :
    error = .tokenNotInPool := by
  have opened : Booked plan { start with balances := ∅ } := booked
  obtain ⟨step, member, mid, kept, failed'⟩ := Except.foldlM_error (Booked plan)
    (fun _ _ _ _ kept ran => kept.replayStep ran) opened failed
  exact booked_step_error kept (List.mem_filter.mp member).1 failed'

/-- A replay only misses a pool that cannot be resolved. -/
theorem replay_poolNotFound_iff :
    replayPlanLossless plan resolve entryAmount = .error .poolNotFound ↔
      ∃ pool ∈ swapPools plan.steps, resolve pool = none := by
  obtain ⟨-, failed, built⟩ := buildBook_spec resolve ∅ plan.steps
  cases ok : buildBook resolve ∅ plan.steps with
  | error error =>
    have missing : replayPlanLossless plan resolve entryAmount = .error .poolNotFound := by
      simp only [replayPlanLossless, startOfStage, ok, failed error ok]
    refine iff_of_true missing ?_
    by_contra resolved
    simp only [not_exists, not_and, ← Option.isSome_iff_ne_none] at resolved
    obtain ⟨book, found⟩ := built.mpr (fun pool listed => .inr (resolved pool listed))
    rw [ok] at found
    cases found
  | ok book =>
    have booked := SameStages.booked_of_buildBook ok entryAmount
    refine iff_of_false ?_ ?_
    · intro missing
      simp only [replayPlanLossless, startOfStage, ok] at missing
      split at missing
      · rename_i error ran
        obtain rfl := Except.error.inj missing
        obtain ⟨stage, -, mid, kept, failed'⟩ := Except.foldlM_error (Booked plan)
          (fun _ _ _ _ kept ran => SameStages.booked_replayStage kept ran) booked ran
        cases booked_stage_error kept failed'
      · cases missing
    · rintro ⟨pool, listed, unresolved⟩
      rcases built.mp ⟨book, ok⟩ pool listed with known | resolved
      · exact Std.ExtTreeMap.not_mem_empty known
      · rw [unresolved] at resolved
        cases resolved

/-- Every swap of the plan finds its pool, with the token that it pays in. -/
def Swappable (plan : ExecutionPlan) (book : PoolRef → Option LosslessPool) : Prop :=
  ∀ step ∈ plan.steps, ∀ pool, step.kind = .swap pool →
    ∃ entry, book pool = some entry ∧ (entry.sideOf step.tokenIn).isSome

theorem Swappable.step {balances : Balances} {next : StageStart}
    (swappable : Swappable plan (fun pool => next.book[pool]?)) {step : ExecutableStep}
    (member : step ∈ plan.steps) :
    ∃ next', replayStep balances next step = .ok next' ∧
      Swappable plan (fun pool => next'.book[pool]?) := by
  unfold replayStep
  simp only
  by_cases empty : stepInput balances step = 0
  · exact ⟨next, if_pos empty, swappable⟩
  · rw [if_neg empty]
    cases kind : step.kind with
    | swap pool =>
      obtain ⟨entry, found, paysIn⟩ := swappable step member pool kind
      obtain ⟨side, sided⟩ := Option.isSome_iff_exists.mp paysIn
      simp only [found, LosslessPool.swap_eq, sided]
      refine ⟨_, rfl, fun later member' pool' kind' => ?_⟩
      obtain ⟨entry', found', paysIn'⟩ := swappable later member' pool' kind'
      simp only [HashMap.getElem?_insert]
      by_cases same : pool' = pool
      · subst same
        obtain rfl := Option.some.inj (found.symm.trans found')
        exact ⟨_, if_pos rfl, by rwa [LosslessPool.moved_sideOf]⟩
      · exact ⟨entry', (if_neg same).trans found', paysIn'⟩
    | carry =>
      simp only
      split
      · exact ⟨_, rfl, swappable⟩
      · exact ⟨_, rfl, swappable⟩
    | bridge => exact ⟨_, rfl, swappable⟩

theorem Swappable.stage {start : StageStart}
    (swappable : Swappable plan (fun pool => start.book[pool]?)) (stage : Nat) :
    ∃ next, replayStage plan start stage = .ok next ∧
      Swappable plan (fun pool => next.book[pool]?) := by
  have opened : Swappable plan (fun pool => ({ start with balances := ∅ } : StageStart).book[pool]?) :=
    swappable
  exact Except.foldlM_ok (fun next : StageStart => Swappable plan (fun pool => next.book[pool]?))
    (fun step listed _ kept => kept.step (List.mem_filter.mp listed).1) opened

/-- A plan whose swaps find their pools and tokens is replayed to its end. -/
theorem Swappable.replays (swappable : Swappable plan resolve) (entryAmount : U256) :
    ∃ outcome, replayPlanLossless plan resolve entryAmount = .ok outcome := by
  obtain ⟨looked, -, built⟩ := buildBook_spec resolve ∅ plan.steps
  have resolved : ∀ pool ∈ swapPools plan.steps, pool ∈ (∅ : HashMap PoolRef LosslessPool) ∨
      (resolve pool).isSome := by
    intro pool listed
    obtain ⟨step, member, kind⟩ := mem_swapPools.mp listed
    obtain ⟨entry, found, -⟩ := swappable step member pool kind
    exact .inr (by rw [found]; rfl)
  obtain ⟨book, ok⟩ := built.mpr resolved
  have start : Swappable plan (fun pool => (openingOf plan book entryAmount).book[pool]?) := by
    intro step member pool kind
    obtain ⟨entry, found, paysIn⟩ := swappable step member pool kind
    refine ⟨entry, ?_, paysIn⟩
    simp only [openingOf]
    rw [looked book ok pool, if_pos (mem_swapPools.mpr ⟨step, member, kind⟩), found]
    simp
  obtain ⟨final, ran, -⟩ : ∃ final, (List.range (stageCount plan)).foldlM (replayStage plan)
      (openingOf plan book entryAmount) = .ok final ∧
        Swappable plan (fun pool => final.book[pool]?) :=
    Except.foldlM_ok (fun start : StageStart => Swappable plan (fun pool => start.book[pool]?))
      (fun stage _ _ kept => kept.stage stage) start
  rw [openingOf] at ran
  simp only [replayPlanLossless, startOfStage, ok, ran]
  exact ⟨_, rfl⟩

end Replays

/-! ### The verdict -/

variable [FloatConversion]

/-- The conversion of an entry to raw units and the difference of two amounts. The errors
of a conversion are not read. -/
class EntryConversion [FloatConversion] where
  f32TokenAmountToU256 : FloatConversion.F32 → TokenDecimals → Option U256
  sub : FloatConversion.F32 → FloatConversion.F32 → FloatConversion.F32

inductive PlanVerificationFailure
  | initAssetUnknown
  | amountConversion
  | bridgeTokenUnknown
  | bridgeDecimalsMismatch
  | replay (error : LosslessReplayError)
  deriving DecidableEq

inductive PlanVerification
  | verified (profit : FloatConversion.F32) (hitTickLimit : Bool)
  | unverifiable (failure : PlanVerificationFailure)

/-- A plan with the entry it is made for. -/
structure AdvisedPlan extends ExecutionPlan where
  entryAmount : FloatConversion.F32

/-- The decimals of a verified token of an active chain. -/
def verifiedDecimals (state : State) (token : TokenAddress) : Option TokenDecimals :=
  match state.chains[token.chain]? with
  | some (.active chainState) =>
    (chainState.tokenRegistry.verifiedMetadata token).map (·.decimals)
  | _ => none

/-- Both ends of every bridge need verified decimals, and the same. -/
def checkBridgeSteps (state : State) : List ExecutableStep → Except PlanVerificationFailure Unit
  | [] => .ok ()
  | step :: steps =>
    match step.kind with
    | .bridge =>
      match verifiedDecimals state step.tokenIn, verifiedDecimals state step.tokenOut with
      | some decimalsIn, some decimalsOut =>
        if decimalsIn ≠ decimalsOut then .error .bridgeDecimalsMismatch
        else checkBridgeSteps state steps
      | _, _ => .error .bridgeTokenUnknown
    | .swap _ | .carry => checkBridgeSteps state steps

def verifyPlan [EntryConversion] (state : State) (plan : AdvisedPlan) : PlanVerification :=
  match verifiedDecimals state plan.sourceAsset with
  | none => .unverifiable .initAssetUnknown
  | some sourceDecimals =>
    match verifiedDecimals state plan.outputAsset with
    | none => .unverifiable .initAssetUnknown
    | some outputDecimals =>
      match checkBridgeSteps state plan.steps with
      | .error failure => .unverifiable failure
      | .ok () =>
        match EntryConversion.f32TokenAmountToU256 plan.entryAmount sourceDecimals with
        | none => .unverifiable .amountConversion
        | some entry =>
          let book := losslessPoolsForPlan state plan.toExecutionPlan
          match replayPlanLossless plan.toExecutionPlan (fun pool => book[pool]?) entry with
          | .error error => .unverifiable (.replay error)
          | .ok outcome =>
            match FloatConversion.u256TokenAmountToF32 outcome.output outputDecimals with
            | .error _ => .unverifiable .amountConversion
            | .ok output =>
              .verified (EntryConversion.sub output plan.entryAmount) outcome.hitTickLimit

/-! ### What a verdict says -/

/-- Both ends of a bridge have the same verified decimals. -/
def SameScale (state : State) (step : ExecutableStep) : Prop :=
  ∃ decimals, verifiedDecimals state step.tokenIn = some decimals ∧
    verifiedDecimals state step.tokenOut = some decimals

omit [BloomHash] [FloatConversion] in
theorem checkBridgeSteps_ok_iff {state : State} {steps : List ExecutableStep} :
    checkBridgeSteps state steps = .ok () ↔
      ∀ step ∈ steps, step.kind = .bridge → SameScale state step := by
  induction steps with
  | nil => simp [checkBridgeSteps]
  | cons step steps inductionHypothesis =>
    rw [List.forall_mem_cons]
    unfold checkBridgeSteps
    cases kind : step.kind with
    | swap pool => simp [inductionHypothesis]
    | carry => simp [inductionHypothesis]
    | bridge =>
      rw [SameScale]
      cases verifiedDecimals state step.tokenIn with
      | none => simp
      | some decimalsIn =>
        cases verifiedDecimals state step.tokenOut with
        | none => simp
        | some decimalsOut =>
          by_cases same : decimalsIn = decimalsOut
          · simp [same, inductionHypothesis]
          · simp [same, Ne.symm same]

omit [BloomHash] [FloatConversion] in
theorem checkBridgeSteps_error {state : State} {steps : List ExecutableStep}
    {failure : PlanVerificationFailure} (failed : checkBridgeSteps state steps = .error failure)
    (error : LosslessReplayError) : failure ≠ .replay error := by
  induction steps with
  | nil => cases failed
  | cons step steps inductionHypothesis =>
    unfold checkBridgeSteps at failed
    split at failed
    · split at failed
      · split at failed
        · obtain rfl := Except.error.inj failed
          exact PlanVerificationFailure.noConfusion
        · exact inductionHypothesis failed
      · obtain rfl := Except.error.inj failed
        exact PlanVerificationFailure.noConfusion
    · exact inductionHypothesis failed
    · exact inductionHypothesis failed

/-- The entry of a plan and the decimals of its output are known, and all of its bridges
keep the scale. -/
structure Judgeable [EntryConversion] (state : State) (plan : AdvisedPlan) (entry : U256)
    (outputDecimals : TokenDecimals) : Prop where
  entry : ∃ sourceDecimals, verifiedDecimals state plan.sourceAsset = some sourceDecimals ∧
    EntryConversion.f32TokenAmountToU256 plan.entryAmount sourceDecimals = some entry
  output : verifiedDecimals state plan.outputAsset = some outputDecimals
  bridges : ∀ step ∈ plan.steps, step.kind = .bridge → SameScale state step

theorem verifyPlan_judgeable [EntryConversion] {state : State} {plan : AdvisedPlan} {entry : U256}
    {outputDecimals : TokenDecimals} (judgeable : Judgeable state plan entry outputDecimals) :
    verifyPlan state plan =
      match replayPlanLossless plan.toExecutionPlan (freshPool state) entry with
      | .error error => .unverifiable (.replay error)
      | .ok outcome =>
        match FloatConversion.u256TokenAmountToF32 outcome.output outputDecimals with
        | .error _ => .unverifiable .amountConversion
        | .ok output =>
          .verified (EntryConversion.sub output plan.entryAmount) outcome.hitTickLimit := by
  obtain ⟨sourceDecimals, source, converted⟩ := judgeable.entry
  have bridges := checkBridgeSteps_ok_iff.mpr judgeable.bridges
  simp only [verifyPlan, source, judgeable.output, bridges, converted, replayPlanLossless_fresh]

/-- A plan that cannot be judged is found out before its replay. -/
theorem verifyPlan_cases [EntryConversion] (state : State) (plan : AdvisedPlan) :
    (∃ entry outputDecimals, Judgeable state plan entry outputDecimals) ∨
      ∃ failure, verifyPlan state plan = .unverifiable failure ∧
        ∀ error, failure ≠ .replay error := by
  cases source : verifiedDecimals state plan.sourceAsset with
  | none => exact .inr ⟨.initAssetUnknown, by simp only [verifyPlan, source], by simp⟩
  | some sourceDecimals =>
    cases output : verifiedDecimals state plan.outputAsset with
    | none => exact .inr ⟨.initAssetUnknown, by simp only [verifyPlan, source, output], by simp⟩
    | some outputDecimals =>
      cases bridges : checkBridgeSteps state plan.steps with
      | error failure =>
        refine .inr ⟨failure, by simp only [verifyPlan, source, output, bridges], ?_⟩
        exact checkBridgeSteps_error bridges
      | ok _ =>
        cases converted : EntryConversion.f32TokenAmountToU256 plan.entryAmount sourceDecimals with
        | none =>
          refine .inr ⟨.amountConversion, ?_, by simp⟩
          simp only [verifyPlan, source, output, bridges, converted]
        | some entry =>
          exact .inl ⟨entry, outputDecimals, ⟨sourceDecimals, source, converted⟩, output,
            checkBridgeSteps_ok_iff.mp bridges⟩

theorem verifyPlan_verified_iff [EntryConversion] {state : State} {plan : AdvisedPlan}
    {profit : FloatConversion.F32} {hitTickLimit : Bool} :
    verifyPlan state plan = .verified profit hitTickLimit ↔
      ∃ entry outputDecimals outcome output, Judgeable state plan entry outputDecimals ∧
        replayPlanLossless plan.toExecutionPlan (freshPool state) entry = .ok outcome ∧
        FloatConversion.u256TokenAmountToF32 outcome.output outputDecimals = .ok output ∧
        profit = EntryConversion.sub output plan.entryAmount ∧
        hitTickLimit = outcome.hitTickLimit := by
  constructor
  · intro judged
    rcases verifyPlan_cases state plan with ⟨entry, outputDecimals, judgeable⟩ | ⟨failure, failed, -⟩
    · rw [verifyPlan_judgeable judgeable] at judged
      cases replayed : replayPlanLossless plan.toExecutionPlan (freshPool state) entry with
      | error error =>
        rw [replayed] at judged
        cases judged
      | ok outcome =>
        rw [replayed] at judged
        simp only at judged
        cases converted : FloatConversion.u256TokenAmountToF32 outcome.output outputDecimals with
        | error _ =>
          rw [converted] at judged
          cases judged
        | ok output =>
          rw [converted] at judged
          obtain ⟨rfl, rfl⟩ := PlanVerification.verified.inj judged
          exact ⟨entry, outputDecimals, outcome, output, judgeable, replayed, converted, rfl, rfl⟩
    · rw [failed] at judged
      cases judged
  · rintro ⟨entry, outputDecimals, outcome, output, judgeable, replayed, converted, rfl, rfl⟩
    rw [verifyPlan_judgeable judgeable, replayed]
    simp only [converted]

/-- An error of the replay is reported when a plan can be judged and its replay fails so. -/
theorem verifyPlan_replay_iff [EntryConversion] {state : State} {plan : AdvisedPlan}
    {error : LosslessReplayError} :
    verifyPlan state plan = .unverifiable (.replay error) ↔
      ∃ entry outputDecimals, Judgeable state plan entry outputDecimals ∧
        replayPlanLossless plan.toExecutionPlan (freshPool state) entry = .error error := by
  constructor
  · intro judged
    rcases verifyPlan_cases state plan with ⟨entry, outputDecimals, judgeable⟩ | ⟨failure, failed, other⟩
    · refine ⟨entry, outputDecimals, judgeable, ?_⟩
      rw [verifyPlan_judgeable judgeable] at judged
      cases replayed : replayPlanLossless plan.toExecutionPlan (freshPool state) entry with
      | error error' =>
        rw [replayed] at judged
        obtain rfl := PlanVerificationFailure.replay.inj (PlanVerification.unverifiable.inj judged)
        rfl
      | ok outcome =>
        rw [replayed] at judged
        simp only at judged
        split at judged
        · cases PlanVerification.unverifiable.inj judged
        · cases judged
    · rw [failed] at judged
      exact absurd (PlanVerification.unverifiable.inj judged) (other _)
  · rintro ⟨entry, outputDecimals, judgeable, replayed⟩
    rw [verifyPlan_judgeable judgeable, replayed]

/-- A verdict is that of the replay with the freshest pool of each swap, read one by one. A
replay misses a pool exactly when some swap has none, and never fails when all swaps find
theirs with the token that they pay in. -/
theorem verdict_exact [EntryConversion] (state : State) (plan : AdvisedPlan) :
    (∀ profit hitTickLimit, verifyPlan state plan = .verified profit hitTickLimit ↔
      ∃ entry outputDecimals outcome output, Judgeable state plan entry outputDecimals ∧
        replayPlanLossless plan.toExecutionPlan (freshPool state) entry = .ok outcome ∧
        FloatConversion.u256TokenAmountToF32 outcome.output outputDecimals = .ok output ∧
        profit = EntryConversion.sub output plan.entryAmount ∧
        hitTickLimit = outcome.hitTickLimit) ∧
    (verifyPlan state plan = .unverifiable (.replay .poolNotFound) ↔
      (∃ entry outputDecimals, Judgeable state plan entry outputDecimals) ∧
        ∃ step ∈ plan.steps, ∃ pool, step.kind = .swap pool ∧ freshPool state pool = none) ∧
    (Swappable plan.toExecutionPlan (freshPool state) →
      ∀ error, verifyPlan state plan ≠ .unverifiable (.replay error)) := by
  refine ⟨fun _ _ => verifyPlan_verified_iff, ?_, ?_⟩
  · rw [verifyPlan_replay_iff]
    constructor
    · rintro ⟨entry, outputDecimals, judgeable, replayed⟩
      obtain ⟨pool, listed, unresolved⟩ := replay_poolNotFound_iff.mp replayed
      obtain ⟨step, member, kind⟩ := mem_swapPools.mp listed
      exact ⟨⟨entry, outputDecimals, judgeable⟩, step, member, pool, kind, unresolved⟩
    · rintro ⟨⟨entry, outputDecimals, judgeable⟩, step, member, pool, kind, unresolved⟩
      refine ⟨entry, outputDecimals, judgeable, ?_⟩
      exact replay_poolNotFound_iff.mpr ⟨pool, mem_swapPools.mpr ⟨step, member, kind⟩, unresolved⟩
  · intro swappable error judged
    obtain ⟨entry, _, _, failed⟩ := verifyPlan_replay_iff.mp judged
    obtain ⟨outcome, replayed⟩ := swappable.replays entry
    rw [replayed] at failed
    cases failed

/-- Entries of whole units. -/
@[reducible] def EntryConversion.whole : @EntryConversion .whole :=
  letI : FloatConversion := .whole
  { f32TokenAmountToU256 := fun (amount : Nat) _ => some (BitVec.ofNat 256 amount)
    sub := fun (left right : Nat) => left - right }

/-- A unit of the first token is worth four of the second. -/
def dearState : PoolState where
  sqrtPriceX96 := 158456325028528675187087900672
  tick := ⟨13863, by decide, by decide⟩
  liquidity := 1000000000000

def unscaled : TokenMetadata := ⟨⟨0, by decide⟩⟩

/-- One verified pool over two tokens without decimals, with its state at the anchor. -/
def judgedOutcome : Bootstrap.BootstrapOutcome :=
  { tradedOutcome with
    poolSnapshots := (∅ : HashMap PoolRef PoolState).insert samplePool dearState
    tokenRegistry := TokenRegistry.new.withMetadataResults
      (((∅ : HashMap TokenAddress TokenMetadataResult).insert ⟨1, .ethereum⟩ (.ok unscaled)).insert
        ⟨2, .ethereum⟩ (.ok unscaled)) }

/-- Half of the entry is sold in each of two stages. -/
def soldTwice : ExecutionPlan where
  sourceAsset := ⟨1, .ethereum⟩
  outputAsset := ⟨2, .ethereum⟩
  steps :=
    [{ stage := 0, tokenIn := ⟨1, .ethereum⟩, tokenOut := ⟨2, .ethereum⟩, kind := .swap samplePool,
       weight := 1 / 2 },
     { stage := 0, tokenIn := ⟨1, .ethereum⟩, tokenOut := ⟨1, .ethereum⟩, kind := .carry,
       weight := 1 / 2 },
     { stage := 1, tokenIn := ⟨1, .ethereum⟩, tokenOut := ⟨2, .ethereum⟩, kind := .swap samplePool,
       weight := 1 },
     { stage := 1, tokenIn := ⟨2, .ethereum⟩, tokenOut := ⟨2, .ethereum⟩, kind := .carry,
       weight := 1 }]

omit [BloomHash] [FloatConversion] in
/-- Both sales are paid, and the verdict has their profit. -/
theorem verdict_exact_soldTwice :
    letI : BloomHash := BloomHash.tabulated
    letI : FloatConversion := .whole
    letI : EntryConversion := .whole
    let state := activeAlone .ethereum (activateBootstrapOutcome judgedOutcome).1
    let plan : AdvisedPlan := { soldTwice with entryAmount := (100000 : Nat) }
    verifyPlan state plan = .verified (299798 : Nat) false ∧
      ∀ error, verifyPlan state plan ≠ .unverifiable (.replay error) := by
  let _ : BloomHash := BloomHash.tabulated
  let _ : FloatConversion := .whole
  let _ : EntryConversion := .whole
  intro state plan
  have source : verifiedDecimals state plan.sourceAsset = some unscaled.decimals := by
    decide +kernel
  have output : verifiedDecimals state plan.outputAsset = some unscaled.decimals := by
    decide +kernel
  have bridgeless : ∀ step ∈ plan.steps, step.kind ≠ .bridge := by
    decide
  have entryIn : EntryConversion.f32TokenAmountToU256 plan.entryAmount unscaled.decimals =
      some 100000 := rfl
  have judgeable : Judgeable state plan 100000 unscaled.decimals :=
    ⟨⟨unscaled.decimals, source, entryIn⟩, output,
      fun step listed bridges => absurd bridges (bridgeless step listed)⟩
  have replayed : replayPlanLossless plan.toExecutionPlan (freshPool state) 100000 =
      .ok { output := 399798, hitTickLimit := false } := by
    decide +kernel
  have converted : FloatConversion.u256TokenAmountToF32 399798 unscaled.decimals =
      .ok (399798 : Nat) := rfl
  have profit : (299798 : Nat) = EntryConversion.sub (399798 : Nat) plan.entryAmount := by
    change 299798 = 399798 - 100000
    norm_num
  have verdict := verdict_exact state plan
  refine ⟨(verdict.1 _ _).mpr
    ⟨100000, unscaled.decimals, _, (399798 : Nat), judgeable, replayed, converted, profit, rfl⟩, ?_⟩
  apply verdict.2.2
  have paid : ∀ step ∈ plan.steps, step.kind = .swap samplePool →
      ((freshPool state samplePool).bind (fun entry => entry.sideOf step.tokenIn)).isSome := by
    decide +kernel
  intro step listed pool swaps
  have traded : ∀ step ∈ plan.steps, ∀ other, step.kind = .swap other → other = samplePool := by
    simp [plan, soldTwice]
  obtain rfl := traded step listed pool swaps
  have sided := paid step listed swaps
  cases found : freshPool state samplePool with
  | none =>
    rw [found] at sided
    cases sided
  | some entry =>
    rw [found] at sided
    exact ⟨entry, rfl, sided⟩

end ArmchairAnalyst.MultiChain

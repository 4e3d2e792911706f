import ArmchairAnalyst.Kernel.IdleSchedule
import ArmchairAnalyst.Kernel.StreamedLogs
import ArmchairAnalyst.Kernel.HeaderRetry
import ArmchairAnalyst.MultiChain.Projection

/-!
# The inert shortcut

A head delivered again while it is the tip leaves the kernel as it is and skips the
scheduling chain and the dispatch. What is skipped is nothing exactly when all work
is in flight and no dispatch is due.
-/

namespace ArmchairAnalyst

namespace Kernel

/-- What the shortcut skips: the scheduling chain, then the orphan probe. -/
def fullArm [BloomHash] (chain : ChainKey) (state : State) (hash : BlockHash)
    (number : UInt64) : State × List Effect :=
  withFinalityProbeIfOrphanSuspected hash number
    (scheduleUnknownCanonicalRequests chain (state, []))

theorem withObservedHead_again {graph : BlocksGraph} {hash : BlockHash}
    (tip : hash = graph.observedHead) : graph.withObservedHead hash = graph := by
  unfold BlocksGraph.withObservedHead
  split
  · rw [tip]
  · rfl

/-- A repeated admission of the tip changes nothing: no logs are buffered for it. -/
theorem withLogHeadObserved_again {state : State} (staging : Staging state)
    {hash parent : BlockHash} {number : UInt64} {bloom : Bloom} {maxPending : Nat}
    (repeated : (state.withLogHeadObserved hash parent number bloom maxPending).2 =
      .duplicateBlock)
    (tip : hash = state.blocks.graph.observedHead) :
    (state.withLogHeadObserved hash parent number bloom maxPending).1 = state := by
  have admits := state.blocks.graph.withDataCapped_admits hash parent
    { number, logsBloom := some bloom, logs := .unknown } maxPending
  unfold State.withLogHeadObserved BlocksGraph.withBlockCapped at repeated ⊢
  generalize state.blocks.graph.withDataCapped hash parent
    { number, logsBloom := some bloom, logs := .unknown } maxPending = result at admits repeated
  cases admits with
  | duplicate existing proper notAnchor found sameParent =>
    have present : hash ∈ state.blocks.graph.nodes :=
      (HashMap.mem_iff_exists _ _).mpr ⟨existing, found⟩
    have nothing : state.streamedLogs[hash]? = none :=
      (HashMap.getElem?_eq_none_iff _ _).mpr (fun buffered =>
        staging.absent hash buffered present)
    have same : state.mapGraph (fun _ => state.blocks.graph.withObservedHead hash) = state := by
      rw [withObservedHead_again tip]
      rfl
    simp only [same]
    unfold State.withStreamedLogsDrained
    rw [if_neg (not_not.mpr present), nothing]
  | _ => simp at repeated

theorem inert_cases [BloomHash] {chain : ChainKey} {state state' : State}
    {hash parent : BlockHash} {bloom : Bloom} {number : UInt64}
    (inert : transitionOutcome chain state (.headObserved hash parent bloom number) =
      .inert state') :
    (state.withLogHeadObserved hash parent number bloom (maxPendingBlocks chain)).2 =
        .duplicateBlock ∧ hash = state.blocks.graph.observedHead ∧
      state' = (state.withLogHeadObserved hash parent number bloom (maxPendingBlocks chain)).1 := by
  simp only [transitionOutcome, headObserved] at inert
  generalize state.withLogHeadObserved hash parent number bloom (maxPendingBlocks chain) =
    result at inert
  obtain ⟨after, admission⟩ := result
  cases admission with
  | duplicateBlock =>
    simp only at inert
    split at inert
    · rename_i tip
      exact ⟨rfl, tip, (TransitionOutcome.inert.inj inert).symm⟩
    · simp [TransitionOutcome.ofOutput] at inert
  | _ => simp [TransitionOutcome.ofOutput] at inert

theorem inert_of_again [BloomHash] {chain : ChainKey} {state : State} (staging : Staging state)
    {hash parent : BlockHash} {bloom : Bloom} {number : UInt64}
    (repeated : (state.withLogHeadObserved hash parent number bloom (maxPendingBlocks chain)).2 =
      .duplicateBlock)
    (tip : hash = state.blocks.graph.observedHead) :
    transitionOutcome chain state (.headObserved hash parent bloom number) = .inert state := by
  have same := withLogHeadObserved_again staging repeated tip
  simp only [transitionOutcome, headObserved]
  generalize state.withLogHeadObserved hash parent number bloom (maxPendingBlocks chain) =
    result at same repeated
  obtain ⟨after, admission⟩ := result
  obtain rfl : after = state := same
  obtain rfl : admission = .duplicateBlock := repeated
  exact if_pos tip

end Kernel

namespace MultiChain

open Kernel (NothingToAsk)

theorem shouldFetchFinalizedHeader_same (len : Option Nat) (targetLen retryStride : Nat) :
    shouldFetchFinalizedHeader len len targetLen retryStride = false := by
  unfold shouldFetchFinalizedHeader
  cases len with
  | none => rfl
  | some len =>
    simp only [Nat.lt_irrefl, decide_false]
    split <;> rfl

theorem reinsert_same {chains : BTreeMap ChainKey ChainLifecycle} {chain : ChainKey}
    {lifecycle : ChainLifecycle} (found : chains[chain]? = some lifecycle) :
    (chains.erase chain).insert chain lifecycle = chains := by
  apply HashMap.ext_getElem?
  intro other
  rw [HashMap.getElem?_insert, HashMap.getElem?_erase]
  split
  · rename_i same
    rw [same, found]
  · rfl

section

variable [BloomHash] [ReserveProjection]

/-- The handling of a head without the shortcut. -/
def chainEventWithoutShortcut (state : State) (chain : ChainKey) (hash parentHash : BlockHash)
    (logsBloom : Bloom) (number : UInt64) : State × List Effect :=
  match state.chains[chain]? with
  | some (.active chainState) =>
    afterProgress state chain chainState (Kernel.fullArm chain
      (chainState.withLogHeadObserved hash parentHash number logsBloom
        (maxPendingBlocks chain)).1 hash number)
  | _ => chainEvent state chain (.headObserved hash parentHash logsBloom number)

/-- The fold frontier has moved since the last dispatch and the projection is ready. -/
def DispatchDue (state : State) (chain : ChainKey) (chainState : Kernel.State) : Prop :=
  let update := optimizationUpdate chainState chain
  state.lastOptimizedBlock[chain]? ≠ some update.blockHash ∧
    ∀ entry ∈ sortedPoolStatesForProjection chainState.blocks.finalizedSnapshot update.poolStates,
      Projects chainState chain entry

omit [BloomHash] in
theorem poolReserves_ready_iff {state : State} {chain : ChainKey} {chainState : Kernel.State}
    (found : state.chains[chain]? = some (.active chainState)) (update : OptimizationStateUpdate) :
    (∃ reserves, poolReservesForOptimization state chain update = .ok (some reserves)) ↔
      ∀ entry ∈ sortedPoolStatesForProjection chainState.blocks.finalizedSnapshot
          update.poolStates, Projects chainState chain entry := by
  rw [← projectReserves_ready_iff]
  simp only [poolReservesForOptimization, found]
  cases projectReserves chainState chain (sortedPoolStatesForProjection
      chainState.blocks.finalizedSnapshot update.poolStates) with
  | error failure => simp [bind, Except.bind]
  | ok reserves => cases reserves <;> simp [bind, Except.bind, pure, Except.pure]

/-- After a transition that changed nothing the wrapper does nothing, unless a dispatch is due. -/
theorem afterProgress_idle_iff {state : State} {chain : ChainKey} {chainState : Kernel.State}
    (found : state.chains[chain]? = some (.active chainState)) :
    afterProgress state chain chainState (chainState, []) = (state, []) ↔
      ¬ DispatchDue state chain chainState := by
  have same : ({ state with
      chains := (state.chains.erase chain).insert chain (.active chainState) } : State) = state := by
    rw [reinsert_same found]
  unfold afterProgress DispatchDue
  simp only [same, shouldFetchFinalizedHeader_same, optimizationUpdateIfChanged_eq,
    wrapChainEffects, List.map_nil, Bool.false_eq_true, if_false, List.append_nil,
    ← poolReserves_ready_iff found]
  generalize optimizationUpdate chainState chain = update
  by_cases dispatched : state.lastOptimizedBlock[chain]? = some update.blockHash
  · simp [dispatched]
  · simp only [dispatched, if_false, not_false_eq_true, true_and, ne_eq]
    cases poolReservesForOptimization state chain update with
    | error failure => simp
    | ok reserves =>
      cases reserves with
      | none => simp
      | some chainReserves =>
        simp only [Except.ok.injEq, Option.some.injEq, exists_eq', not_true_eq_false, iff_false]
        intro unchanged
        apply dispatched
        have recorded : state.lastOptimizedBlock.insert chain update.blockHash =
            state.lastOptimizedBlock := by
          split at unchanged <;>
            exact congrArg (fun result : State × List Effect => result.1.lastOptimizedBlock)
              unchanged
        rw [← recorded, HashMap.getElem?_insert, if_pos rfl]

/-- The shortcut returns the kernel as it was, and skips nothing exactly when there was
nothing to ask for and no dispatch was due. -/
theorem inert_is_no_op_iff {chain : ChainKey} {chainState chainState' : Kernel.State}
    (reached : Kernel.Reached chain chainState) {hash parent : BlockHash} {bloom : Bloom}
    {number : UInt64}
    (inert : Kernel.transitionOutcome chain chainState (.headObserved hash parent bloom number) =
      .inert chainState') :
    chainState' = chainState ∧
    (Kernel.fullArm chain chainState' hash number = (chainState', []) ↔
      NothingToAsk chain chainState hash number) ∧
    ∀ state : State, state.chains[chain]? = some (.active chainState) →
      (Kernel.fullArm chain chainState' hash number = (chainState', []) ∧
          chainEvent state chain (.headObserved hash parent bloom number) =
            chainEventWithoutShortcut state chain hash parent bloom number ↔
        NothingToAsk chain chainState hash number ∧ ¬ DispatchDue state chain chainState) := by
  obtain ⟨repeated, tip, after⟩ := Kernel.inert_cases inert
  have same := Kernel.withLogHeadObserved_again reached.staging repeated tip
  rw [same] at after
  subst after
  have skipped := Kernel.fullArm_idle_iff chain chainState' hash number
  refine ⟨rfl, skipped, fun state found => ?_⟩
  rw [show Kernel.fullArm chain chainState' hash number = (chainState', []) ↔ _ from skipped]
  apply and_congr_right
  intro nothing
  have shortcut : chainEvent state chain (.headObserved hash parent bloom number) = (state, []) := by
    simp only [chainEvent, found, inert, reinsert_same found]
  have full : chainEventWithoutShortcut state chain hash parent bloom number =
      afterProgress state chain chainState' (chainState', []) := by
    simp only [chainEventWithoutShortcut, found, same]
    rw [show Kernel.fullArm chain chainState' hash number = (chainState', []) from
      skipped.mpr nothing]
  rw [shortcut, full, eq_comm]
  exact afterProgress_idle_iff found

end

/-- A connected tip with nothing left to ask for. -/
def settledTip : Kernel.State :=
  letI : BloomHash := BloomHash.tabulated
  (Kernel.transition .ethereum (Kernel.State.init 0x10 100) (.headObserved 0x11 0x10 0 101)).1

theorem inert_is_no_op_settledTip :
    letI : BloomHash := BloomHash.tabulated
    letI : ReserveProjection := ReserveProjection.unavailable
    Kernel.fullArm .ethereum settledTip 0x11 101 = (settledTip, []) ↔
      NothingToAsk .ethereum settledTip 0x11 101 := by
  let _ : BloomHash := BloomHash.tabulated
  let _ : ReserveProjection := ReserveProjection.unavailable
  have reached : Kernel.Reached .ethereum settledTip :=
    .step (.init ⟨[], .init 0x10 100⟩) trivial
  have inert : Kernel.transitionOutcome .ethereum settledTip (.headObserved 0x11 0x10 0 101) =
      .inert settledTip :=
    Kernel.inert_of_again reached.staging (by decide +kernel) (by decide +kernel)
  exact (inert_is_no_op_iff reached inert).2.1

/-- A tip whose missing parent the provider did not know: the request is gone. -/
def forgottenParent : Kernel.State :=
  letI : BloomHash := BloomHash.tabulated
  (Kernel.transition .ethereum Kernel.waitingSample (.blockHeaderNotFound 1)).1

/-- The tip is delivered again and taken for a no-op, while the full arm would ask for the
missing header once more. -/
theorem inert_skips_a_request :
    letI : BloomHash := BloomHash.tabulated
    Kernel.Reached .ethereum forgottenParent ∧
      Kernel.transitionOutcome .ethereum forgottenParent (.headObserved 0x12 0x11 0 102) =
        .inert forgottenParent ∧
      Kernel.fullArm .ethereum forgottenParent 0x12 102 ≠ (forgottenParent, []) := by
  let _ : BloomHash := BloomHash.tabulated
  have reached : Kernel.Reached .ethereum forgottenParent :=
    .step (.step (.init ⟨[], .init 0x10 100⟩) trivial) trivial
  refine ⟨reached, Kernel.inert_of_again reached.staging (by decide +kernel) (by decide +kernel), ?_⟩
  intro idle
  have silent : (Kernel.fullArm .ethereum forgottenParent 0x12 102).2.length = 0 := by
    rw [idle]
    rfl
  exact absurd silent (by decide +kernel)

end MultiChain

end ArmchairAnalyst

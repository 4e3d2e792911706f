import ArmchairAnalyst.Kernel.ScheduledWork
import ArmchairAnalyst.MultiChain.VerifiedStates

/-!
# Stalls of the projection

A projection waits for the metadata of a pool or the decimals of a token. The
schedulers ask for both where a log on the present chain names the pool, which is
not where the view gets its pools from.
-/

namespace ArmchairAnalyst.MultiChain

open Bootstrap (FillerHash)
open Kernel (runFrom Target Names RunsSchedule absorb WantedWork)
open RequestStore (Covers)

section

variable [BloomHash] {chain : ChainKey}

/-- The pools with a state at the fold frontier, in the order of their projection. -/
def projectedView (chain : ChainKey) (state : Kernel.State) : List (PoolRef × PoolState) :=
  sortedPoolStatesForProjection state.blocks.finalizedSnapshot
    (optimizationUpdate state chain).poolStates

/-- A pool of the view lacks its metadata, or a token of one its decimals. -/
def Blocking (chain : ChainKey) (state : Kernel.State) : Target → Prop
  | .candidate key =>
      (∃ poolState, (⟨key, chain⟩, poolState) ∈ projectedView chain state) ∧
        state.poolRegistry.verifiedMetadata ⟨key, chain⟩ = none
  | .token token =>
      (∃ entry ∈ projectedView chain state, ∃ metadata,
        state.poolRegistry.verifiedMetadata entry.1 = some metadata ∧
          (token = ⟨metadata.token0, chain⟩ ∨ token = ⟨metadata.token1, chain⟩)) ∧
        state.tokenRegistry.verifiedMetadata token = none
  | _ => False

/-- The projection meets a pool without metadata before a state it cannot convert. -/
def Stalls [ReserveProjection] (chain : ChainKey) (state : Kernel.State) : Prop :=
  ∃ earlier entry later, projectedView chain state = earlier ++ entry :: later ∧
    projectionMetadata state chain entry.1 = none ∧
    ∀ passed ∈ earlier, Projects state chain passed

/-- A request in flight names something that the projection waits for. -/
def WorkInFlight (chain : ChainKey) (state : Kernel.State) : Prop :=
  ∃ target, Blocking chain state target ∧
    ∃ id payload, state.pendingRequests.InFlight ⟨target.kind, id, payload⟩ ∧
      Names target.kind payload target

/-- What the projection waits for is unknown to the registries, and a log on the present
chain names the pool it is about. -/
def WorkToSchedule (chain : ChainKey) (state : Kernel.State) : Prop :=
  ∃ target, Blocking chain state target ∧ WantedWork chain state target

/-- Where a step that runs the scheduling chain leaves a stall, something that the
projection waits for is in flight already or can be asked for. -/
def StallsAskable [ReserveProjection] (chain : ChainKey) (state : Kernel.State)
    (event : Kernel.Event) : Prop :=
  RunsSchedule chain state event → Stalls chain (absorb chain state event) →
    WorkInFlight chain (absorb chain state event) ∨
      WorkToSchedule chain (absorb chain state event)

theorem Blocking.of_sameCore {state state' : Kernel.State} (same : Kernel.SameCore state state') :
    Blocking chain state' = Blocking chain state := by
  funext target
  rw [same]
  cases target <;> rfl

section

variable [ReserveProjection]

theorem Stalls.of_sameCore {state state' : Kernel.State} (same : Kernel.SameCore state state') :
    Stalls chain state' ↔ Stalls chain state := by
  rw [same]
  rfl

theorem Stalls.nonempty {state : Kernel.State} (stalls : Stalls chain state) :
    projectedView chain state ≠ [] := by
  obtain ⟨earlier, entry, later, whole, -⟩ := stalls
  simp [whole]

omit [BloomHash] in
theorem projectReserves_stalled_iff (state : Kernel.State) (chain : ChainKey)
    (entries : List (PoolRef × PoolState)) :
    projectReserves state chain entries = .ok none ↔
      ∃ earlier entry later, entries = earlier ++ entry :: later ∧
        projectionMetadata state chain entry.1 = none ∧
        ∀ passed ∈ earlier, Projects state chain passed := by
  induction entries with
  | nil => simp [projectReserves]
  | cons entry rest inductionHypothesis =>
    obtain ⟨pool, poolState⟩ := entry
    cases found : projectionMetadata state chain pool with
    | none =>
      rw [projectReserves_blocked found]
      exact ⟨fun _ => ⟨[], _, rest, rfl, found, by simp⟩, fun _ => rfl⟩
    | some metadata =>
      have split : (∃ earlier entry later, (pool, poolState) :: rest = earlier ++ entry :: later ∧
          projectionMetadata state chain entry.1 = none ∧
          ∀ passed ∈ earlier, Projects state chain passed) ↔
          Projects state chain (pool, poolState) ∧
            ∃ earlier entry later, rest = earlier ++ entry :: later ∧
              projectionMetadata state chain entry.1 = none ∧
              ∀ passed ∈ earlier, Projects state chain passed := by
        constructor
        · rintro ⟨earlier, entry, later, whole, missing, passes⟩
          cases earlier with
          | nil =>
            obtain ⟨rfl, rfl⟩ := List.cons.inj whole
            rw [found] at missing
            simp at missing
          | cons first earlier =>
            obtain ⟨rfl, rfl⟩ := List.cons.inj whole
            exact ⟨passes _ List.mem_cons_self, earlier, entry, later, rfl, missing,
              fun passed membership => passes passed (List.mem_cons_of_mem _ membership)⟩
        · rintro ⟨first, earlier, entry, later, rfl, missing, passes⟩
          exact ⟨_ :: earlier, entry, later, rfl, missing, List.forall_mem_cons.mpr ⟨first, passes⟩⟩
      rw [split, ← inductionHypothesis, projectReserves_cons found]
      unfold Projects
      cases values : projectedValues pool poolState metadata with
      | error failure => simp [found, values]
      | ok value =>
        cases projectReserves state chain rest with
        | error failure => simp
        | ok reserves => cases reserves <;> simp [found, values]

/-- The optimization read of an active chain stalls as its kernel does. -/
theorem poolReserves_stalled_iff {state : State} {chainState : Kernel.State}
    (active : state.chains[chain]? = some (.active chainState)) :
    poolReservesForOptimization state chain (optimizationUpdate chainState chain) = .ok none ↔
      Stalls chain chainState := by
  unfold Stalls projectedView
  rw [← projectReserves_stalled_iff]
  simp only [poolReservesForOptimization, active]
  cases projectReserves chainState chain (sortedPoolStatesForProjection
      chainState.blocks.finalizedSnapshot (optimizationUpdate chainState chain).poolStates) with
  | error failure => simp [bind, Except.bind]
  | ok reserves => cases reserves <;> simp [bind, Except.bind, pure, Except.pure]

omit [ReserveProjection] in
/-- A step that runs the scheduling chain puts what it can ask about in flight. -/
theorem transition_works {state : Kernel.State} {event : Kernel.Event}
    (runs : RunsSchedule chain state event)
    (sequenced : RequestStore.Sequenced state.pendingRequests)
    (bounded : state.pendingRequests.lastRequestId.toNat +
      (Kernel.transition chain state event).2.length < 2 ^ 64)
    (work : WorkInFlight chain (absorb chain state event) ∨
      WorkToSchedule chain (absorb chain state event)) :
    WorkInFlight chain (Kernel.transition chain state event).1 := by
  have core := (Kernel.transition_asks runs).core
  obtain ⟨target, blocking, wants⟩ : ∃ target, Blocking chain (absorb chain state event) target ∧
      (WantedWork chain (absorb chain state event) target ∨
        Covers Names (absorb chain state event).pendingRequests target) := by
    rcases work with ⟨target, blocking, id, payload, inFlight, named⟩ | ⟨target, blocking, wants⟩
    · exact ⟨target, blocking, .inr ⟨_, inFlight, named⟩⟩
    · exact ⟨target, blocking, .inl wants⟩
  refine ⟨target, ?_, Kernel.inFlight_of_covers
    (Kernel.transition_covers runs sequenced bounded wants)⟩
  rw [Blocking.of_sameCore core]
  exact blocking

omit [BloomHash] [ReserveProjection] in
theorem ChainStarts.starts [FillerHash] {start : Kernel.State × List Kernel.Effect}
    (starts : ChainStarts chain start) : Kernel.Starts start := by
  cases starts with
  | init hash number => exact .init hash number
  | bootstrapped policy events completed => exact .activateFromSeed _ _ _ _ _ _

omit [ReserveProjection] in
theorem runFrom_issued_le (start : Kernel.State × List Kernel.Effect)
    {events taken : List Kernel.Event} (begins : taken <+: events) :
    (runFrom chain start taken).2.length ≤ (runFrom chain start events).2.length := by
  obtain ⟨rest, rfl⟩ := begins
  simp only [runFrom, run_append, List.length_append]
  omega

/-- In every run whose stalls can be asked about, a stall after the scheduling chain has
metadata in flight that it waits for. -/
theorem stall_is_worked_on [FillerHash] {start : Kernel.State × List Kernel.Effect}
    (starts : ChainStarts chain start) {events : List Kernel.Event}
    (bounded : (runFrom chain start events).2.length < 2 ^ 64)
    (askable : AllowedAlong (Kernel.transition chain) (StallsAskable chain) start.1 events) :
    ∀ taken event, taken ++ [event] <+: events →
      RunsSchedule chain (runFrom chain start taken).1 event →
      ∀ (state : State) (chainState : Kernel.State),
        chainState = (runFrom chain start (taken ++ [event])).1 →
        state.chains[chain]? = some (.active chainState) →
        poolReservesForOptimization state chain (optimizationUpdate chainState chain) = .ok none →
        WorkInFlight chain chainState := by
  intro taken event begins runs state chainState reached active stalled
  have issued : (runFrom chain start (taken ++ [event])).2.length ≤
      (runFrom chain start events).2.length := runFrom_issued_le start begins
  rw [poolReserves_stalled_iff active, reached] at stalled
  rw [reached]
  rw [Kernel.runFrom_concat] at issued stalled ⊢
  rw [List.length_append] at issued
  have stalls := (Stalls.of_sameCore (Kernel.transition_asks runs).core).mp stalled
  obtain ⟨sequenced, last⟩ := Kernel.runFrom_sequenced chain starts.starts taken (by omega)
  exact transition_works runs sequenced (by omega) (askable.of_prefix begins runs stalls)

end

end

/-! ### A stall that ends -/

theorem seedingEvents_askable :
    letI : BloomHash := BloomHash.tabulated
    letI : ReserveProjection := ReserveProjection.unavailable
    AllowedAlong (Kernel.transition .ethereum) (StallsAskable .ethereum)
      (Kernel.State.init 0x10 100) seedingEvents := by
  let _ : BloomHash := BloomHash.tabulated
  let _ : ReserveProjection := ReserveProjection.unavailable
  refine ⟨fun _ stalls => ?_, fun _ stalls => ?_, fun _ _ => .inr ?_, trivial⟩
  · exact absurd (by decide +kernel) stalls.nonempty
  · exact absurd (by decide +kernel) stalls.nonempty
  · -- The verified pool is named by a log of the head block, and so are its tokens.
    refine ⟨.token ⟨1, .ethereum⟩, ⟨⟨(samplePool, sampleState), ?_, ?_⟩, ?_⟩, ?_⟩
    · decide +kernel
    · exact ⟨{ token0 := 1, token1 := 2, fee := .tiered .fee500 }, by decide +kernel, .inl rfl⟩
    · decide +kernel
    · exact ⟨(0x11, HashSet.collect [sampleKey]), by decide +kernel, by decide +kernel,
        by decide +kernel⟩

/-- A state with one active chain. -/
def activeAlone (chain : ChainKey) (chainState : Kernel.State) : State where
  chains := (∅ : BTreeMap ChainKey ChainLifecycle).insert chain (.active chainState)
  lastOptimizedBlock := ∅

theorem activeAlone_active (chain : ChainKey) (chainState : Kernel.State) :
    (activeAlone chain chainState).chains[chain]? = some (.active chainState) := by
  simp [activeAlone]

theorem seedingEvents_stalls :
    letI : BloomHash := BloomHash.tabulated
    letI : ReserveProjection := ReserveProjection.unavailable
    Stalls .ethereum
      (runFrom .ethereum (Kernel.State.init 0x10 100, []) seedingEvents).1 := by
  let _ : BloomHash := BloomHash.tabulated
  let _ : ReserveProjection := ReserveProjection.unavailable
  refine ⟨[], (samplePool, sampleState), [], ?_, ?_, by simp⟩
  · decide +kernel
  · decide +kernel

theorem stall_is_worked_on_seeding :
    letI : BloomHash := BloomHash.tabulated
    WorkInFlight .ethereum (runFrom .ethereum (Kernel.State.init 0x10 100, []) seedingEvents).1 := by
  refine @stall_is_worked_on BloomHash.tabulated .ethereum ReserveProjection.unavailable
    ⟨fun _ _ => 0⟩ _ (@ChainStarts.init ⟨fun _ _ => 0⟩ .ethereum 0x10 100) seedingEvents ?_
    seedingEvents_askable (seedingEvents.take 2) _ (List.prefix_refl _) ?_
    (activeAlone .ethereum _) _ rfl (activeAlone_active _ _)
    ((@poolReserves_stalled_iff BloomHash.tabulated .ethereum ReserveProjection.unavailable _ _
      (activeAlone_active _ _)).mpr seedingEvents_stalls)
  · decide +kernel
  · decide +kernel

/-! ### A stall for ever -/

/-- The bootstrap discovers one pool and fails to read the decimals of its first token. -/
def failedTokenBootstrap : List Bootstrap.Event :=
  [.finalizedHeaderReceived 1 ⟨0x10, 100⟩,
    .poolCandidatesReceived 2 [⟨100, 0x10, [sampleSwap]⟩] 100 none,
    .poolMetadataReceived 3 ((∅ : HashMap ProtocolPoolKey PoolMetadataResult).insert sampleKey
      (.ok { token0 := 1, token1 := 2, fee := .tiered .fee500 })),
    .tokenMetadataReceived 4 ((∅ : HashMap TokenAddress TokenMetadataResult).insert ⟨1, .ethereum⟩
      (.error (.unsupportedDecimals 77)))]

def failedTokenOutcome : Bootstrap.BootstrapOutcome where
  anchor := ⟨0x10, 100⟩
  poolSnapshots := ∅
  poolRegistry := TrustedPoolRegistry.new.withMetadataResults .ethereum
    ((∅ : HashMap ProtocolPoolKey PoolMetadataResult).insert sampleKey
      (.ok { token0 := 1, token1 := 2, fee := .tiered .fee500 }))
  tokenRegistry := TokenRegistry.new.withMetadataResults
    ((∅ : HashMap TokenAddress TokenMetadataResult).insert ⟨1, .ethereum⟩
      (.error (.unsupportedDecimals 77)))
  seedBlocks := []

theorem failedTokenBootstrap_completes :
    letI : FillerHash := ⟨fun _ _ => 0⟩
    Bootstrap.completion (run (Bootstrap.transition .ethereum)
      (Bootstrap.init (bootstrapPolicy .ethereum)).1 failedTokenBootstrap).1 =
        some (.ready failedTokenOutcome) := by
  let _ : FillerHash := ⟨fun _ _ => 0⟩
  let seed := Bootstrap.GraphSeed.fromWindow [⟨100, 0x10, [sampleSwap]⟩] ⟨0x10, 100⟩ 4
  have unseeded : seed.blocks = [] := by
    simp [seed, Bootstrap.GraphSeed.fromWindow, Bootstrap.recentBlocks]
  have completed : Bootstrap.completion (run (Bootstrap.transition .ethereum)
      (Bootstrap.init (bootstrapPolicy .ethereum)).1 failedTokenBootstrap).1 =
        some (.ready { failedTokenOutcome with seedBlocks := seed.blocks }) := by
    rfl
  rw [completed, unseeded]
  rfl

/-- The pool gets its anchor state, and no log is about it. -/
def failedTokenEvents : List Kernel.Event :=
  [.headObserved 0x11 0x10 0 101,
    .poolDataReceived 1 ((∅ : HashMap PoolRef PoolDataResult).insert samplePool (.ok sampleState))]

theorem not_workInFlight [BloomHash] {chain : ChainKey} {state : Kernel.State}
    (pools : (state.pendingRequests.collection .poolMetadata).isEmpty = true)
    (tokens : (state.pendingRequests.collection .tokenMetadata).isEmpty = true) :
    ¬ WorkInFlight chain state := by
  rintro ⟨target, blocking, id, payload, ⟨tick, found⟩, -⟩
  cases target with
  | candidate key =>
    have absent : (state.pendingRequests.collection .poolMetadata)[id]? = none := by
      simp [Std.ExtTreeMap.isEmpty_iff.mp pools]
    exact Option.some_ne_none _ (found.symm.trans absent)
  | token token =>
    have absent : (state.pendingRequests.collection .tokenMetadata)[id]? = none := by
      simp [Std.ExtTreeMap.isEmpty_iff.mp tokens]
    exact Option.some_ne_none _ (found.symm.trans absent)
  | _ => exact blocking

/-- A pool with an unsupported token stalls the projection, and nothing is in flight. -/
theorem stall_without_work :
    letI : BloomHash := BloomHash.tabulated
    letI : ReserveProjection := ReserveProjection.unavailable
    letI : FillerHash := ⟨fun _ _ => 0⟩
    let start := activateBootstrapOutcome failedTokenOutcome
    let chainState := (runFrom .ethereum start failedTokenEvents).1
    ChainStarts .ethereum start ∧
      RunsSchedule .ethereum (runFrom .ethereum start (failedTokenEvents.take 1)).1
        (.poolDataReceived 1
          ((∅ : HashMap PoolRef PoolDataResult).insert samplePool (.ok sampleState))) ∧
      poolReservesForOptimization (activeAlone .ethereum chainState) .ethereum
        (optimizationUpdate chainState .ethereum) = .ok none ∧
      ¬ WorkInFlight .ethereum chainState := by
  let _ : BloomHash := BloomHash.tabulated
  let _ : ReserveProjection := ReserveProjection.unavailable
  let _ : FillerHash := ⟨fun _ _ => 0⟩
  intro start chainState
  refine ⟨.bootstrapped _ failedTokenBootstrap failedTokenBootstrap_completes, ?_, ?_, ?_⟩
  · decide +kernel
  · apply (poolReserves_stalled_iff (activeAlone_active _ _)).mpr
    refine ⟨[], (samplePool, sampleState), [], ?_, ?_, by simp⟩
    · decide +kernel
    · decide +kernel
  · apply not_workInFlight
    · decide +kernel
    · decide +kernel

end ArmchairAnalyst.MultiChain

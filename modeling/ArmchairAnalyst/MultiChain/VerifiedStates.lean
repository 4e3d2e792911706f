import ArmchairAnalyst.Kernel.TrackedPools
import ArmchairAnalyst.Kernel.GroundTruth
import ArmchairAnalyst.Kernel.RequestIds
import ArmchairAnalyst.RequestTargets
import ArmchairAnalyst.MultiChain.Projection
import ArmchairAnalyst.MultiChain.Lifecycles

/-!
# States of verified pools

A bootstrap hands over no pool states, and a fold only derives states of verified
pools. The states read at the anchor are the one way for another pool to get one,
since an answer is applied as a whole.
-/

namespace ArmchairAnalyst.MultiChain

open Bootstrap (BootstrapOutcome FillerHash)
open Kernel (runFrom)

/-! ### What a bootstrap hands over -/

/-- A phase without pool states. -/
def Stateless : Bootstrap.Phase → Prop
  | .ready outcome => outcome.poolSnapshots = ∅
  | _ => True

theorem stateless_degraded [FillerHash] (chain : ChainKey) (tipTrim : UInt64)
    {phase : Bootstrap.Phase} (stateless : Stateless phase) :
    Stateless (Bootstrap.degraded chain tipTrim phase) := by
  cases phase with
  | anchoringChain => trivial
  | discovering anchor blocks => rfl
  | validatingPools anchor seed => rfl
  | resolvingTokens anchor seed verified => rfl
  | ready outcome => exact stateless
  | abandoned => trivial

theorem bootstrap_stateless [FillerHash] (chain : ChainKey) {state : Bootstrap.State}
    (event : Bootstrap.Event) (stateless : Stateless state.phase) :
    Stateless (Bootstrap.transition chain state event).1.phase := by
  cases event with
  | finalizedHeaderReceived id anchor =>
    simp only [Bootstrap.transition, Bootstrap.finalizedHeaderReceived]
    split
    · trivial
    · rename_i taken _
      rw [← congrArg Prod.fst taken]
      exact stateless
  | poolCandidatesReceived id blocks scanTip nextFrom =>
    simp only [Bootstrap.transition, Bootstrap.poolCandidatesReceived]
    split
    · split <;> trivial
    · rename_i taken _
      rw [← congrArg Prod.fst taken]
      exact stateless
  | poolMetadataReceived id metadata =>
    simp only [Bootstrap.transition, Bootstrap.poolMetadataReceived]
    split
    · trivial
    · rename_i taken _
      rw [← congrArg Prod.fst taken]
      exact stateless
  | tokenMetadataReceived id metadata =>
    simp only [Bootstrap.transition, Bootstrap.tokenMetadataReceived]
    split
    · rfl
    · rename_i taken _
      rw [← congrArg Prod.fst taken]
      exact stateless
  | requestFailed id => exact stateless
  | tick order =>
    simp only [Bootstrap.transition, Bootstrap.ticked]
    split
    · exact stateless
    · exact stateless
    · split
      · exact stateless_degraded chain _ stateless
      · exact stateless

/-- The starts of a chain's kernel: an anchor alone, or what its bootstrap completes with. -/
inductive ChainStarts [FillerHash] (chain : ChainKey) : Kernel.State × List Kernel.Effect → Prop
  | init (finalizedHash : BlockHash) (finalizedNumber : UInt64) :
    ChainStarts chain (Kernel.State.init finalizedHash finalizedNumber, [])
  | bootstrapped (policy : Bootstrap.BootstrapPolicy) (events : List Bootstrap.Event)
    {outcome : BootstrapOutcome} :
    Bootstrap.completion (run (Bootstrap.transition chain) (Bootstrap.init policy).1 events).1 =
      some (.ready outcome) →
    ChainStarts chain (activateBootstrapOutcome outcome)

theorem bootstrapped_stateless [FillerHash] (chain : ChainKey) (policy : Bootstrap.BootstrapPolicy)
    (events : List Bootstrap.Event) {outcome : BootstrapOutcome}
    (completed : Bootstrap.completion
      (run (Bootstrap.transition chain) (Bootstrap.init policy).1 events).1 =
        some (.ready outcome)) :
    outcome.poolSnapshots = ∅ := by
  have stateless : Stateless
      (run (Bootstrap.transition chain) (Bootstrap.init policy).1 events).1.phase := by
    have start : Stateless (Bootstrap.init policy).1.phase := trivial
    generalize (Bootstrap.init policy).1 = state at start
    clear completed
    induction events generalizing state with
    | nil => exact start
    | cons event events inductionHypothesis =>
      exact inductionHypothesis _ (bootstrap_stateless chain event start)
  unfold Bootstrap.completion at completed
  split at completed
  · rename_i ready
    obtain rfl := Bootstrap.Completion.ready.inj (Option.some.inj completed)
    rw [ready] at stateless
    exact stateless
  · simp at completed
  · simp at completed

/-! ### The base -/

section

variable [BloomHash] {chain : ChainKey}

/-- The pools of the base are verified. -/
def BaseVerified (chain : ChainKey) (registry : TrustedPoolRegistry)
    (blocks : Kernel.Blocks) : Prop :=
  ∀ pool ∈ blocks.finalizedSnapshot, pool ∈ registry.verifiedPools chain

/-- An answer at the anchor has states of verified pools only. -/
def SeedsVerified (chain : ChainKey) (state : Kernel.State) : Kernel.Event → Prop
  | .poolDataReceived id pools => ∀ payload,
      state.pendingRequests.InFlight ⟨.poolData, id, payload⟩ →
      payload.at_ = state.blocks.graph.anchor.hash →
      ∀ pool poolState, pools[pool]? = some (.ok poolState) →
        pool ∈ state.poolRegistry.verifiedPools chain
  | _ => True

theorem baseVerified_finalize {registry : TrustedPoolRegistry} {blocks : Kernel.Blocks}
    (verified : BaseVerified chain registry blocks) (target : BlockHash) :
    BaseVerified chain registry (blocks.update chain registry (.finalize target)) := by
  simp only [Kernel.Blocks.update, BlocksGraph.finalizedTo]
  split
  · exact verified
  · rename_i target' _
    rcases blocks.graph.reanchoredTo_cases (blocks.graph.foldableFrontier target'
        (BloomPatterns.of (watchedAddresses (registry.verifiedPools chain)
          (poolManagerAddress chain))) .requireComplete) blocks.finalizedSnapshot
        (registry.verifiedPools chain) with idle | ⟨node, -, -, moved⟩
    · rw [idle]
      exact verified
    · rw [moved]
      intro pool folded
      obtain ⟨poolState, found⟩ := (HashMap.mem_iff_exists _ pool).mp folded
      rw [BlocksGraph.getElem?_foldedPoolStates] at found
      by_contra untracked
      have uncovered : blocks.finalizedSnapshot[pool]? = none :=
        (HashMap.getElem?_eq_none_iff _ _).mpr (fun covered => untracked (verified pool covered))
      rw [mergedState_untracked uncovered untracked] at found
      exact Option.some_ne_none _ found.symm

omit [BloomHash] in
/-- Seeding keeps the base verified exactly when the seeds that are written are. -/
theorem baseVerified_seed {registry : TrustedPoolRegistry} {blocks : Kernel.Blocks}
    (verified : BaseVerified chain registry blocks) (at_ : BlockHash)
    (results : HashMap PoolRef PoolDataResult) :
    BaseVerified chain registry (blocks.withFinalizedPoolSeeds at_ results) ↔
      (at_ = blocks.graph.anchor.hash → ∀ pool poolState, results[pool]? = some (.ok poolState) →
        pool ∈ registry.verifiedPools chain) := by
  unfold Kernel.Blocks.withFinalizedPoolSeeds
  split
  · rename_i stale
    exact ⟨fun _ current => absurd current stale, fun _ => verified⟩
  · rename_i current
    constructor
    · intro seeded _ pool poolState found
      exact seeded pool
        (Kernel.mem_seedPools.mpr (.inr ⟨poolState, (HashMap.mem_toList_iff results _).mpr found⟩))
    · intro answers pool seeded
      rcases Kernel.mem_seedPools.mp seeded with earlier | ⟨poolState, listed⟩
      · exact verified pool earlier
      · exact answers (not_not.mp current) pool poolState
          ((HashMap.mem_toList_iff results _).mp listed)

/-- Only an unverified seed takes the base out of the verified pools. -/
theorem transition_baseVerified_iff {state : Kernel.State} (event : Kernel.Event)
    (verified : BaseVerified chain state.poolRegistry state.blocks) :
    BaseVerified chain (Kernel.transition chain state event).1.poolRegistry
        (Kernel.transition chain state event).1.blocks ↔
      SeedsVerified chain state event := by
  by_cases answer : ∃ id pools, event = .poolDataReceived id pools
  · obtain ⟨id, pools, rfl⟩ := answer
    rw [(Kernel.transition_continues chain state (.poolDataReceived id pools) not_false).core]
    cases found : (state.pendingRequests.collection .poolData)[id]? with
    | none =>
      have idle : Kernel.absorb chain state (.poolDataReceived id pools) =
          (state.take .poolData id).1 := by
        simp only [Kernel.absorb, Kernel.applied, Kernel.State.take, RequestStore.takeRequest, found]
      rw [idle]
      refine ⟨fun _ payload inFlight => ?_, fun _ => verified⟩
      obtain ⟨tick, held⟩ := inFlight
      rw [found] at held
      exact absurd held (by simp)
    | some request =>
      have seeded : (Kernel.absorb chain state (.poolDataReceived id pools)).blocks =
          state.blocks.withFinalizedPoolSeeds request.payload.at_ pools := by
        simp only [Kernel.absorb, Kernel.applied, Kernel.State.take, RequestStore.takeRequest, found]
        rfl
      have registry : (Kernel.absorb chain state (.poolDataReceived id pools)).poolRegistry =
          state.poolRegistry := by
        simp only [Kernel.absorb, Kernel.applied, Kernel.State.take, RequestStore.takeRequest, found]
        rfl
      simp only [seeded, registry]
      rw [baseVerified_seed verified]
      constructor
      · intro answers payload inFlight
        obtain rfl := RequestStore.inFlight_functional inFlight ⟨request.dispatchedAt, found⟩
        exact answers
      · exact fun answers => answers request.payload ⟨request.dispatchedAt, found⟩
  · have allowed : SeedsVerified chain state event := by
      cases event with
      | poolDataReceived id pools => exact absurd ⟨id, pools, rfl⟩ answer
      | _ => trivial
    refine ⟨fun _ => allowed, fun _ pool covered => ?_⟩
    apply Kernel.transition_verified_mono chain state event
    refine Kernel.transition_keeps (BaseVerified chain state.poolRegistry) ?_
      (fun hash number pool covered => by simp [Kernel.Blocks.new] at covered) verified pool covered
    intro update performs blocks held
    cases update with
    | finalize target => exact baseVerified_finalize held target
    | seed at_ results =>
      cases performs
      exact absurd ⟨_, _, rfl⟩ answer
    | _ => exact held

/-! ### What a verified base gives -/

/-- Every pool with a state is verified: in the base, in the overlay and in the view
that is projected, and the fold watches an address of every pool of the base. -/
structure StatesVerified (chain : ChainKey) (state : Kernel.State) : Prop where
  base : ∀ pool ∈ state.blocks.finalizedSnapshot, pool ∈ state.poolRegistry.verifiedPools chain
  overlay : ∀ pool ∈ (optimizationUpdate state chain).poolStates,
    pool ∈ state.poolRegistry.verifiedPools chain
  projected : ∀ entry ∈ sortedPoolStatesForProjection state.blocks.finalizedSnapshot
      (optimizationUpdate state chain).poolStates,
    (state.poolRegistry.verifiedMetadata entry.1).isSome
  watched : ∀ pool ∈ state.blocks.finalizedSnapshot,
    ∃ address ∈ watchedAddresses (state.poolRegistry.verifiedPools chain) (poolManagerAddress chain),
      watchedAddress (poolManagerAddress chain) pool = some address

theorem overlay_verified {state : Kernel.State}
    (verified : BaseVerified chain state.poolRegistry state.blocks) {pool : PoolRef}
    (overlaid : pool ∈ (optimizationUpdate state chain).poolStates) :
    pool ∈ state.poolRegistry.verifiedPools chain := by
  simp only [optimizationUpdate, Kernel.State.projectedPoolStates,
    BlocksGraph.projectedPoolStates] at overlaid
  split at overlaid
  · simp at overlaid
  · obtain ⟨poolState, found⟩ := (HashMap.mem_iff_exists _ pool).mp overlaid
    rw [BlocksGraph.getElem?_foldedOverlay] at found
    by_contra untracked
    have uncovered : state.blocks.finalizedSnapshot[pool]? = none :=
      (HashMap.getElem?_eq_none_iff _ _).mpr (fun covered => untracked (verified pool covered))
    simp [uncovered, untracked] at found

theorem statesVerified_iff (state : Kernel.State) :
    StatesVerified chain state ↔ BaseVerified chain state.poolRegistry state.blocks := by
  refine ⟨fun held => held.base, fun verified => ?_⟩
  refine ⟨verified, fun pool => overlay_verified verified, ?_, ?_⟩
  · intro entry membership
    have tracked : entry.1 ∈ state.poolRegistry.verifiedPools chain := by
      have viewed := (HashMap.mem_toList_iff _ entry).mp membership
      have either : entry.1 ∈ state.blocks.finalizedSnapshot ∪
          (optimizationUpdate state chain).poolStates :=
        (HashMap.mem_iff_exists _ _).mpr ⟨_, viewed⟩
      rcases Std.ExtTreeMap.mem_union_iff.mp either with covered | overlaid
      · exact verified _ covered
      · exact overlay_verified verified overlaid
    obtain ⟨metadata, found⟩ := (HashMap.mem_iff_exists _ _).mp
      ((TrustedPoolRegistry.mem_verifiedPools _ _ _).mp tracked).1
    exact Option.isSome_iff_exists.mpr ⟨metadata, found⟩
  · intro pool covered
    obtain ⟨address, watches⟩ := watchedAddress_isSome chain pool
    exact ⟨address, (mem_watchedAddresses _ _ _).mpr ⟨pool, verified pool covered, watches⟩, watches⟩

omit [BloomHash] in
theorem ChainStarts.stateless [FillerHash] {start : Kernel.State × List Kernel.Effect}
    (starts : ChainStarts chain start) : start.1.blocks.finalizedSnapshot = ∅ := by
  cases starts with
  | init hash number => rfl
  | bootstrapped policy events completed =>
    rename_i outcome
    rw [← bootstrapped_stateless chain policy events completed]
    exact congrArg Kernel.Blocks.finalizedSnapshot
      (Kernel.activation_issues chain outcome.anchor.hash outcome.anchor.number
        outcome.poolSnapshots outcome.poolRegistry outcome.tokenRegistry outcome.seedBlocks).blocks

/-- Along a run every pool with a state is verified exactly when every answer at the
anchor only has states of verified pools. -/
theorem states_verified_iff [FillerHash] {start : Kernel.State × List Kernel.Effect}
    (starts : ChainStarts chain start) (events : List Kernel.Event) :
    (∀ taken, taken <+: events → StatesVerified chain (runFrom chain start taken).1) ↔
      AllowedAlong (Kernel.transition chain) (SeedsVerified chain) start.1 events := by
  have stateless : start.1.blocks.finalizedSnapshot = ∅ := starts.stateless
  simp only [statesVerified_iff]
  refine AllowedAlong.iff_never_left
    (fun state : Kernel.State => BaseVerified chain state.poolRegistry state.blocks)
    (fun state event verified => transition_baseVerified_iff event verified) ?_
  intro pool covered
  simp [stateless] at covered

end

/-- One pool is verified, and its state at the anchor is asked for under identifier 3. -/
def seedingEvents : List Kernel.Event := Kernel.GroundTruth.sampleEvents.take 3

/-- The anchor state of one pool. -/
def seedAnswer (pool : PoolRef) : Kernel.Event :=
  .poolDataReceived 3 ((∅ : HashMap PoolRef PoolDataResult).insert pool (.ok sampleState))

theorem seedingEvents_allowed :
    letI : BloomHash := BloomHash.tabulated
    AllowedAlong (Kernel.transition .ethereum) (SeedsVerified .ethereum)
      (Kernel.State.init 0x10 100) (seedingEvents ++ [seedAnswer samplePool]) := by
  refine ⟨trivial, trivial, trivial, fun payload _ _ pool poolState found => ?_, trivial⟩
  have same : samplePool = pool := by
    rw [Std.ExtTreeMap.getElem?_insert] at found
    split at found
    · rename_i equal
      exact Std.LawfulEqCmp.eq_of_compare equal
    · simp at found
  rw [← same]
  decide +kernel

theorem states_verified_iff_seeded :
    letI : BloomHash := BloomHash.tabulated
    StatesVerified .ethereum (runFrom .ethereum (Kernel.State.init 0x10 100, [])
      (seedingEvents ++ [seedAnswer samplePool])).1 :=
  (@states_verified_iff BloomHash.tabulated .ethereum ⟨fun _ _ => 0⟩ _
      (@ChainStarts.init ⟨fun _ _ => 0⟩ .ethereum 0x10 100) _).mpr
    seedingEvents_allowed _ (List.prefix_refl _)

/-- An answer may name a pool that was not asked for, which then has a state unverified. -/
theorem unverified_pool_is_seeded :
    letI : BloomHash := BloomHash.tabulated
    let other : PoolRef := { samplePool with key := .uniswapV3 0x77 }
    ¬ StatesVerified .ethereum (runFrom .ethereum (Kernel.State.init 0x10 100, [])
      (seedingEvents ++ [seedAnswer other])).1 := by
  intro other held
  have based := @StatesVerified.base BloomHash.tabulated _ _ held other (by decide +kernel)
  exact absurd based (by decide +kernel)

end ArmchairAnalyst.MultiChain

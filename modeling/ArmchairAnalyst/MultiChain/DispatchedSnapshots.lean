import ArmchairAnalyst.Kernel.MetadataCatalog
import ArmchairAnalyst.Library.Batches
import ArmchairAnalyst.MultiChain.ProjectionStalls
import ArmchairAnalyst.Optimization.RoutableTokens

/-!
# Dispatched snapshots

A snapshot that is dispatched to the optimizer is taken from one state: it holds the
projection of every active chain that is ready, each at its own frontier. In every run its
reserves are the two directions of pairwise different pools.
-/

namespace ArmchairAnalyst.MultiChain

open Bootstrap (BootstrapOutcome FillerHash)

variable [BloomHash] [ReserveProjection]

/-! ### The merge -/

/-- What a chain adds to a snapshot. -/
def contribution (state : State) (entry : ChainKey × ChainLifecycle) :
    Option (ChainKey × ChainPoolReserves) :=
  match entry.2 with
  | .bootstrapping _ _ => none
  | .active chainState =>
    match poolReservesForOptimization state entry.1 (optimizationUpdate chainState entry.1) with
    | .ok (some chainReserves) => some (entry.1, chainReserves)
    | _ => none

/-- The snapshot of a state. -/
structure SnapshotOf (state : State) (input : OptimizationPoolReserves) : Prop where
  reserves : input.reserves =
    (state.chains.toList.filterMap (contribution state)).flatMap (fun added => added.2.reserves)
  blockHashes : ∀ chain : ChainKey, input.blockHashes[chain]? =
    (state.chains[chain]?.bind (fun lifecycle => contribution state (chain, lifecycle))).map
      (fun added => added.2.blockHash)

def addContribution (state : State) (merged : OptimizationPoolReserves)
    (entry : ChainKey × ChainLifecycle) : OptimizationPoolReserves :=
  match contribution state entry with
  | some added =>
    { blockHashes := merged.blockHashes.insert entry.1 added.2.blockHash
      reserves := merged.reserves ++ added.2.reserves }
  | none => merged

theorem mergeChain_eq {state : State} {chain : ChainKey} {chainState : Kernel.State}
    {precomputed : ChainPoolReserves} (found : state.chains[chain]? = some (.active chainState))
    (own : contribution state (chain, .active chainState) = some (chain, precomputed))
    (merged : OptimizationPoolReserves) {entry : ChainKey × ChainLifecycle}
    (listed : entry ∈ state.chains.toList) :
    mergeChain state chain precomputed merged entry = addContribution state merged entry := by
  obtain ⟨other, lifecycle⟩ := entry
  have present := (HashMap.mem_toList_iff _ _).mp listed
  cases lifecycle with
  | bootstrapping bootstrapState buffered => rfl
  | active otherState =>
    by_cases same : other = chain
    · subst same
      rw [found] at present
      obtain rfl := ChainLifecycle.active.inj (Option.some.inj present)
      simp [mergeChain, addContribution, own]
    · simp only [mergeChain, addContribution, contribution, if_neg same]
      cases poolReservesForOptimization state other (optimizationUpdate otherState other) with
      | error failure => rfl
      | ok chainReserves => cases chainReserves <;> rfl

/-- Merging the contributions in turn. -/
theorem foldl_addContribution (state : State) {entries : List (ChainKey × ChainLifecycle)}
    (distinct : (entries.map Prod.fst).Nodup) (merged : OptimizationPoolReserves) :
    (entries.foldl (addContribution state) merged).reserves =
        merged.reserves ++ (entries.filterMap (contribution state)).flatMap
          (fun added => added.2.reserves) ∧
      ∀ chain : ChainKey, (entries.foldl (addContribution state) merged).blockHashes[chain]? =
        ((entries.find? (fun entry => entry.1 = chain)).bind (contribution state)).elim
          merged.blockHashes[chain]? (fun added => some added.2.blockHash) := by
  induction entries generalizing merged with
  | nil => exact ⟨by simp, fun chain => rfl⟩
  | cons entry entries inductionHypothesis =>
    rw [List.map_cons, List.nodup_cons] at distinct
    obtain ⟨reserves, blockHashes⟩ := inductionHypothesis distinct.2 (addContribution state merged entry)
    rw [List.foldl_cons]
    refine ⟨?_, fun chain => ?_⟩
    · rw [reserves, addContribution, List.filterMap_cons]
      cases contribution state entry with
      | none => rfl
      | some added => rw [List.flatMap_cons, List.append_assoc]
    · rw [blockHashes, List.find?_cons]
      by_cases own : entry.1 = chain
      · have absent : entries.find? (fun entry => entry.1 = chain) = none := by
          rw [List.find?_eq_none]
          intro other listed same
          rw [decide_eq_true_eq, ← own] at same
          exact distinct.1 (same ▸ List.mem_map_of_mem listed)
        rw [absent, decide_eq_true own]
        cases contributes : contribution state entry with
        | none => simp [addContribution, contributes]
        | some added =>
          simp [addContribution, contributes, own]
      · have unchanged : (addContribution state merged entry).blockHashes[chain]? =
            merged.blockHashes[chain]? := by
          rw [addContribution]
          cases contribution state entry with
          | none => rfl
          | some added => rw [HashMap.getElem?_insert, if_neg (Ne.symm own)]
        rw [decide_eq_false own, unchanged]

theorem mergedOptimizationReserves_snapshot {state : State} {chain : ChainKey}
    {chainState : Kernel.State} {precomputed : ChainPoolReserves}
    (found : state.chains[chain]? = some (.active chainState))
    (own : contribution state (chain, .active chainState) = some (chain, precomputed)) :
    SnapshotOf state (mergedOptimizationReserves state chain precomputed) := by
  have merges : mergedOptimizationReserves state chain precomputed =
      state.chains.toList.foldl (addContribution state) { blockHashes := ∅, reserves := [] } := by
    rw [mergedOptimizationReserves]
    exact List.foldl_ext _ _ _ (fun merged entry listed => mergeChain_eq found own merged listed)
  have distinct : (state.chains.toList.map Prod.fst).Nodup := by
    rw [Std.ExtTreeMap.map_fst_toList_eq_keys]
    exact HashMap.keys_nodup state.chains
  obtain ⟨reserves, blockHashes⟩ := foldl_addContribution state distinct
    { blockHashes := ∅, reserves := [] }
  rw [← merges] at reserves blockHashes
  refine ⟨reserves, fun other => ?_⟩
  have looked : state.chains.toList.find? (fun entry => entry.1 = other) =
      state.chains[other]?.map (fun lifecycle => (other, lifecycle)) := by
    cases present : state.chains[other]? with
    | none =>
      rw [Option.map_none, List.find?_eq_none]
      intro entry listed same
      rw [decide_eq_true_eq] at same
      rw [HashMap.mem_toList_iff, same, present] at listed
      cases listed
    | some lifecycle =>
      refine find?_eq_some_of_unique ((HashMap.mem_toList_iff _ _).mpr present)
        (decide_eq_true rfl) (fun entry listed same => ?_)
      rw [decide_eq_true_eq] at same
      rw [HashMap.mem_toList_iff, same, present] at listed
      exact Prod.ext same (Option.some.inj listed).symm
  rw [blockHashes, looked]
  cases state.chains[other]? with
  | none => simp
  | some lifecycle =>
    cases contributes : contribution state (other, lifecycle) <;> simp [contributes]

/-! ### Dispatches -/

omit [BloomHash] in
def isDispatch : Effect → Bool
  | .runOptimization _ => true
  | _ => false

section Undispatched

variable {chain : ChainKey} {input : OptimizationPoolReserves}

omit [BloomHash]

theorem not_dispatched_wrapChain (effects : List Kernel.Effect) :
    .runOptimization input ∉ wrapChainEffects chain effects := by
  simp [wrapChainEffects]

theorem not_dispatched_wrapBootstrap (effects : List Bootstrap.Effect) :
    .runOptimization input ∉ wrapBootstrapEffects chain effects := by
  simp [wrapBootstrapEffects]

end Undispatched

theorem not_dispatched_replay {chain : ChainKey} {input : OptimizationPoolReserves}
    (chainState : Kernel.State) (buffered : List SubscriptionData) :
    .runOptimization input ∉ (replayBufferedSubscriptionData chain chainState buffered).2 := by
  unfold replayBufferedSubscriptionData
  apply List.foldlRecOn
    (motive := fun result : Kernel.State × List Effect => .runOptimization input ∉ result.2)
  · exact List.not_mem_nil
  · intro result absent data _
    rw [List.mem_append, not_or]
    exact ⟨absent, not_dispatched_wrapChain _⟩

theorem not_dispatched_bootstrap [FillerHash] {chain : ChainKey}
    {input : OptimizationPoolReserves} (bootstrapState : Bootstrap.State)
    (buffered : List SubscriptionData) (event : Bootstrap.Event) :
    .runOptimization input ∉ (advanceBootstrap chain bootstrapState buffered event).2 := by
  unfold advanceBootstrap
  simp only
  split
  · simp only [List.mem_append, not_or]
    exact ⟨⟨not_dispatched_wrapBootstrap _, not_dispatched_wrapChain _⟩,
      not_dispatched_replay _ _⟩
  · exact not_dispatched_wrapBootstrap _
  · exact not_dispatched_wrapBootstrap _

omit [BloomHash] in
theorem not_dispatched_lifecycle {state : State} {chain : ChainKey}
    {input : OptimizationPoolReserves}
    {handler : ChainLifecycle → Option ChainLifecycle × List Effect}
    (undispatched : ∀ lifecycle, .runOptimization input ∉ (handler lifecycle).2) :
    .runOptimization input ∉ (withChainLifecycle state chain handler).2 := by
  unfold withChainLifecycle
  split
  · rename_i lifecycle _
    have absent := undispatched lifecycle
    simp only
    split <;> exact absent
  · exact List.not_mem_nil

theorem not_dispatched_tick [FillerHash] (state : State) (orders : ChainKey → IterationOrder)
    {input : OptimizationPoolReserves} : .runOptimization input ∉ (tick state orders).2 := by
  unfold tick
  apply List.foldlRecOn (motive := fun result : BTreeMap ChainKey ChainLifecycle × List Effect =>
    .runOptimization input ∉ result.2)
  · exact List.not_mem_nil
  · rintro result absent ⟨chain, lifecycle⟩ -
    cases lifecycle with
    | bootstrapping bootstrapState buffered =>
      have undispatched : .runOptimization input ∉
          (advanceBootstrap chain bootstrapState buffered (.tick (orders chain))).2 :=
        not_dispatched_bootstrap bootstrapState buffered _
      simp only [tickChain]
      split
      · exact List.mem_append.not.mpr (not_or.mpr ⟨absent, undispatched⟩)
      · exact List.mem_append.not.mpr (not_or.mpr ⟨absent, undispatched⟩)
    | active chainState =>
      exact List.mem_append.not.mpr (not_or.mpr ⟨absent, not_dispatched_wrapChain _⟩)

/-- A dispatch after progress is the snapshot of the new state. -/
theorem afterProgress_snapshot {state : State} {chain : ChainKey} {before : Kernel.State}
    {result : Kernel.State × List Kernel.Effect} {input : OptimizationPoolReserves}
    (dispatched : .runOptimization input ∈ (afterProgress state chain before result).2) :
    SnapshotOf (afterProgress state chain before result).1 input ∧ input.reserves ≠ [] := by
  unfold afterProgress at dispatched ⊢
  have undispatched (refreshed : Prop) [Decidable refreshed] : .runOptimization input ∉
      wrapChainEffects chain result.2 ++ if refreshed then [.fetchFinalizedHeader chain] else [] := by
    rw [List.mem_append, not_or]
    refine ⟨not_dispatched_wrapChain _, ?_⟩
    split <;> simp
  simp only at dispatched ⊢
  split at dispatched
  · exact absurd dispatched (undispatched _)
  · rename_i update updated
    split at dispatched
    · rename_i chainReserves ready
      split at dispatched
      · exact absurd dispatched (undispatched _)
      · rename_i nonempty
        have merged := (List.mem_append.mp dispatched).resolve_left (undispatched _)
        obtain rfl := Effect.runOptimization.inj (List.mem_singleton.mp merged)
        have current : update = optimizationUpdate result.1 chain := by
          rw [optimizationUpdateIfChanged_eq] at updated
          split at updated
          · cases updated
          · exact (Option.some.inj updated).symm
        rw [if_neg nonempty]
        refine ⟨mergedOptimizationReserves_snapshot Std.ExtTreeMap.getElem?_insert_self ?_, ?_⟩
        · rw [current] at ready ⊢
          have ready' : poolReservesForOptimization
              { chains := (state.chains.erase chain).insert chain (.active result.1)
                lastOptimizedBlock := state.lastOptimizedBlock.insert chain
                  (optimizationUpdate result.1 chain).blockHash }
              chain (optimizationUpdate result.1 chain) = .ok (some chainReserves) := ready
          simp only [contribution, ready']
        · rwa [List.isEmpty_iff] at nonempty
    · exact absurd dispatched (undispatched _)

/-- Every dispatch is the snapshot of the state it is dispatched in. -/
theorem snapshot_of_dispatch [FillerHash] {state : State} {event : Event}
    {input : OptimizationPoolReserves}
    (dispatched : .runOptimization input ∈ (transition state event).2) :
    SnapshotOf (transition state event).1 input ∧ input.reserves ≠ [] := by
  have chainEvent (chain : ChainKey) (kernelEvent : Kernel.Event)
      (dispatched : .runOptimization input ∈ (chainEvent state chain kernelEvent).2) :
      SnapshotOf (chainEvent state chain kernelEvent).1 input ∧ input.reserves ≠ [] := by
    unfold MultiChain.chainEvent at dispatched ⊢
    split at dispatched
    · split at dispatched
      · exact absurd dispatched List.not_mem_nil
      · exact afterProgress_snapshot dispatched
    · exact absurd dispatched List.not_mem_nil
    · exact absurd dispatched List.not_mem_nil
  cases event with
  | finalizedHeaderReceived chain hash number =>
    refine absurd dispatched (not_dispatched_lifecycle (fun lifecycle => ?_))
    cases lifecycle with
    | bootstrapping bootstrapState buffered => exact List.not_mem_nil
    | active chainState => exact not_dispatched_wrapChain _
  | finalizedHeaderUnavailable chain => exact absurd dispatched List.not_mem_nil
  | subscriptionData chain data =>
    simp only [MultiChain.transition, subscriptionData] at dispatched ⊢
    split at dispatched
    · refine absurd dispatched (not_dispatched_lifecycle (fun lifecycle => ?_))
      cases lifecycle with
      | bootstrapping bootstrapState buffered => exact List.not_mem_nil
      | active chainState => exact List.not_mem_nil
    · exact chainEvent chain data.intoKernelEvent dispatched
  | chainEvent chain kernelEvent => exact chainEvent chain kernelEvent dispatched
  | bootstrapEvent chain bootstrapEvent =>
    refine absurd dispatched (not_dispatched_lifecycle (fun lifecycle => ?_))
    cases lifecycle with
    | bootstrapping bootstrapState buffered => exact not_dispatched_bootstrap _ _ _
    | active chainState => exact List.not_mem_nil
  | optimizationStepCompleted => exact absurd dispatched List.not_mem_nil
  | tick orders => exact absurd dispatched (not_dispatched_tick state orders)

/-! ### The pools of a snapshot -/

/-- The verified pools of a registry belong to its chain. -/
def RegistryOf (chain : ChainKey) (registry : TrustedPoolRegistry) : Prop :=
  ∀ pool ∈ registry.verified, pool.chain = chain

omit [BloomHash] [ReserveProjection] in
theorem RegistryOf.withMetadataResults {chain : ChainKey} {registry : TrustedPoolRegistry}
    (own : RegistryOf chain registry) (results : HashMap ProtocolPoolKey PoolMetadataResult) :
    RegistryOf chain (registry.withMetadataResults chain results) := by
  have owned : Kernel.Owned chain (registry, .new) := ⟨own, (Kernel.Owned.new chain).tokens⟩
  exact (owned.withPoolResults results).pools

omit [BloomHash] [ReserveProjection] in
theorem RegistryOf.new (chain : ChainKey) : RegistryOf chain .new :=
  (Kernel.Owned.new chain).pools

/-- A bootstrap completes with a registry of its own chain. -/
def OwnOutcome (chain : ChainKey) : Bootstrap.Phase → Prop
  | .ready outcome => RegistryOf chain outcome.poolRegistry
  | _ => True

omit [BloomHash] [ReserveProjection] in
theorem ownOutcome_transition [FillerHash] (chain : ChainKey) {state : Bootstrap.State}
    (event : Bootstrap.Event) (own : OwnOutcome chain state.phase) :
    OwnOutcome chain (Bootstrap.transition chain state event).1.phase := by
  have verified (verified : Bootstrap.VerifiedPools) :
      RegistryOf chain (verified.intoRegistry chain) :=
    (RegistryOf.new chain).withMetadataResults verified.metadata
  cases event with
  | finalizedHeaderReceived id anchor =>
    simp only [Bootstrap.transition, Bootstrap.finalizedHeaderReceived]
    split
    · trivial
    · rename_i taken _
      rw [← congrArg Prod.fst taken]
      exact own
  | poolCandidatesReceived id blocks scanTip nextFrom =>
    simp only [Bootstrap.transition, Bootstrap.poolCandidatesReceived]
    split
    · split <;> trivial
    · rename_i taken _
      rw [← congrArg Prod.fst taken]
      exact own
  | poolMetadataReceived id metadata =>
    simp only [Bootstrap.transition, Bootstrap.poolMetadataReceived]
    split
    · trivial
    · rename_i taken _
      rw [← congrArg Prod.fst taken]
      exact own
  | tokenMetadataReceived id metadata =>
    simp only [Bootstrap.transition, Bootstrap.tokenMetadataReceived]
    split
    · exact verified _
    · rename_i taken _
      rw [← congrArg Prod.fst taken]
      exact own
  | requestFailed id => exact own
  | tick order =>
    simp only [Bootstrap.transition, Bootstrap.ticked]
    split
    · exact own
    · exact own
    · split
      · generalize state.phase = phase at own
        cases phase with
        | anchoringChain => trivial
        | discovering anchor blocks => exact .new chain
        | validatingPools anchor seed => exact .new chain
        | resolvingTokens anchor seed pools => exact verified pools
        | ready outcome => exact own
        | abandoned => trivial
      · exact own

theorem reached_registryOf [FillerHash] {state : State} (reached : Reached state)
    {chain : ChainKey} {chainState : Kernel.State}
    (found : state.chains[chain]? = some (.active chainState)) :
    RegistryOf chain chainState.poolRegistry := by
  have invariant : ChainInvariant (fun chain state => OwnOutcome chain state.phase)
      (fun chain state => RegistryOf chain state.poolRegistry) := by
    refine ⟨fun chain => trivial, fun chain state event own => ownOutcome_transition chain event own,
      ?_, ?_⟩
    · intro chain state outcome own completed
      have registry := (Kernel.activation_issues chain outcome.anchor.hash outcome.anchor.number
        outcome.poolSnapshots outcome.poolRegistry outcome.tokenRegistry
        outcome.seedBlocks).poolRegistry
      rw [activateBootstrapOutcome, registry]
      unfold Bootstrap.completion at completed
      split at completed
      · rename_i ready
        obtain rfl := Bootstrap.Completion.ready.inj (Option.some.inj completed)
        rw [ready] at own
        exact own
      · simp at completed
      · simp at completed
    · intro chain state event own
      exact Kernel.transition_poolRegistry (RegistryOf chain) state event
        (fun _ _ _ registry results earlier => earlier.withMetadataResults results) own
  exact invariant.reached reached chain (.active chainState) found

/-- The two directions of every reserve. -/
def bothDirections (projected : List Reserves) : List Reserves :=
  projected.flatMap (fun reserve => [reserve, reserve.inverse])

/-- Each pool in both of its directions, and no pool twice. -/
structure Paired (reserves : List Reserves) (projected : List Reserves) : Prop where
  directions : reserves = bothDirections projected
  distinct : (projected.map (·.poolId)).Nodup
  tokens : ∀ reserve ∈ projected, reserve.token0.chain = reserve.poolId.chain ∧
    reserve.token1.chain = reserve.poolId.chain

omit [BloomHash] in
theorem Paired.append {reserves reserves' projected projected' : List Reserves}
    (paired : Paired reserves projected) (paired' : Paired reserves' projected')
    (apart : ∀ reserve ∈ projected, ∀ reserve' ∈ projected', reserve.poolId ≠ reserve'.poolId) :
    Paired (reserves ++ reserves') (projected ++ projected') := by
  refine ⟨?_, ?_, ?_⟩
  · rw [paired.directions, paired'.directions, bothDirections, bothDirections, bothDirections,
      List.flatMap_append]
  · rw [List.map_append, List.nodup_append']
    refine ⟨paired.distinct, paired'.distinct, ?_⟩
    rw [List.disjoint_left]
    intro pool listed listed'
    obtain ⟨reserve, member, rfl⟩ := List.mem_map.mp listed
    obtain ⟨reserve', member', same⟩ := List.mem_map.mp listed'
    exact apart reserve member reserve' member' same.symm
  · intro reserve listed
    rcases List.mem_append.mp listed with member | member
    · exact paired.tokens reserve member
    · exact paired'.tokens reserve member

omit [BloomHash] in
theorem Paired.poolPairs {reserves projected : List Reserves} (paired : Paired reserves projected) :
    Optimization.PoolPairs reserves := by
  have ends : ∀ reserve ∈ reserves, ∃ own ∈ projected, own.poolId = reserve.poolId ∧
      s(own.token0, own.token1) = s(reserve.token0, reserve.token1) := by
    intro reserve listed
    rw [paired.directions, bothDirections] at listed
    obtain ⟨own, member, direction⟩ := List.mem_flatMap.mp listed
    rcases List.mem_cons.mp direction with rfl | inverse
    · exact ⟨_, member, rfl, rfl⟩
    · obtain rfl := List.mem_singleton.mp inverse
      exact ⟨own, member, rfl, Sym2.eq_swap⟩
  intro reserve listed reserve' listed' same
  obtain ⟨own, member, named, tokens⟩ := ends reserve listed
  obtain ⟨own', member', named', tokens'⟩ := ends reserve' listed'
  obtain rfl := List.inj_on_of_nodup_map paired.distinct member member'
    (named.trans (same.trans named'.symm))
  exact tokens.symm.trans tokens'

omit [BloomHash] [ReserveProjection] in
theorem projectionMetadata_own {state : Kernel.State} {chain : ChainKey} {pool : PoolRef}
    {metadata : ProjectionMetadata} (found : projectionMetadata state chain pool = some metadata) :
    pool ∈ state.poolRegistry.verified ∧ metadata.token0.chain = chain ∧
      metadata.token1.chain = chain := by
  obtain ⟨verified, looked, found⟩ := Option.bind_eq_some_iff.mp found
  obtain ⟨decimals0, -, found⟩ := Option.bind_eq_some_iff.mp found
  obtain ⟨decimals1, -, found⟩ := Option.bind_eq_some_iff.mp found
  obtain rfl := Option.some.inj found
  exact ⟨(HashMap.mem_iff_exists _ _).mpr ⟨verified, looked⟩, rfl, rfl⟩

omit [BloomHash] in
theorem projectReserves_paired {state : Kernel.State} {chain : ChainKey}
    (own : RegistryOf chain state.poolRegistry) {entries : List (PoolRef × PoolState)}
    (distinct : (entries.map Prod.fst).Nodup) {reserves : List Reserves}
    (ready : projectReserves state chain entries = .ok (some reserves)) :
    ∃ projected, Paired reserves projected ∧ projected.map (·.poolId) = entries.map Prod.fst ∧
      ∀ reserve ∈ projected, reserve.poolId.chain = chain := by
  induction entries generalizing reserves with
  | nil =>
    obtain rfl := Option.some.inj (Except.ok.inj ready)
    exact ⟨[], ⟨rfl, List.nodup_nil, by simp⟩, rfl, by simp⟩
  | cons entry entries inductionHypothesis =>
    obtain ⟨pool, poolState⟩ := entry
    rw [List.map_cons, List.nodup_cons] at distinct
    cases found : projectionMetadata state chain pool with
    | none =>
      rw [projectReserves_blocked found] at ready
      cases ready
    | some metadata =>
      obtain ⟨verified, token0, token1⟩ := projectionMetadata_own found
      have chained : pool.chain = chain := own pool verified
      rw [projectReserves_cons found] at ready
      cases values : projectedValues pool poolState metadata with
      | error failure =>
        rw [values] at ready
        cases ready
      | ok value =>
        cases rest : projectReserves state chain entries with
        | error failure =>
          rw [values, rest] at ready
          cases ready
        | ok projection =>
          cases projection with
          | none =>
            rw [values, rest] at ready
            cases ready
          | some later =>
            rw [values, rest] at ready
            obtain rfl := Option.some.inj (Except.ok.inj ready)
            obtain ⟨projected, paired, pools, chains⟩ := inductionHypothesis distinct.2 rest
            have single : Paired [reserveOf pool metadata value,
                (reserveOf pool metadata value).inverse] [reserveOf pool metadata value] :=
              ⟨rfl, List.nodup_singleton _, by simp [reserveOf, token0, token1, chained]⟩
            refine ⟨reserveOf pool metadata value :: projected, single.append paired ?_, ?_, ?_⟩
            · intro reserve listed reserve' listed' same
              obtain rfl := List.mem_singleton.mp listed
              apply distinct.1
              rw [← pools]
              exact List.mem_map.mpr ⟨reserve', listed', same.symm⟩
            · rw [List.map_cons, List.map_cons, pools]
              rfl
            · intro reserve listed
              rcases List.mem_cons.mp listed with rfl | member
              · exact chained
              · exact chains reserve member

theorem contribution_paired {state : State} {entry : ChainKey × ChainLifecycle}
    (own : ∀ chainState, entry.2 = .active chainState → RegistryOf entry.1 chainState.poolRegistry)
    (found : state.chains[entry.1]? = some entry.2)
    {added : ChainKey × ChainPoolReserves} (contributes : contribution state entry = some added) :
    ∃ projected, Paired added.2.reserves projected ∧
      ∀ reserve ∈ projected, reserve.poolId.chain = entry.1 := by
  obtain ⟨chain, lifecycle⟩ := entry
  cases lifecycle with
  | bootstrapping bootstrapState buffered => cases contributes
  | active chainState =>
    simp only [contribution, poolReservesForOptimization, found] at contributes
    split at contributes
    · rename_i chainReserves ready
      obtain rfl := Option.some.inj contributes
      obtain ⟨projection, projects, ready⟩ := Except.bind_eq_ok_iff.mp ready
      obtain ⟨reserves, rfl, rfl⟩ := Option.map_eq_some_iff.mp (Except.ok.inj ready)
      have distinct : ((sortedPoolStatesForProjection chainState.blocks.finalizedSnapshot
          (optimizationUpdate chainState chain).poolStates).map Prod.fst).Nodup := by
        rw [sortedPoolStatesForProjection, Std.ExtTreeMap.map_fst_toList_eq_keys]
        exact HashMap.keys_nodup _
      obtain ⟨projected, paired, -, chains⟩ :=
        projectReserves_paired (own chainState rfl) distinct projects
      exact ⟨projected, paired, chains⟩
    · cases contributes

theorem contributions_paired {state : State} {entries : List (ChainKey × ChainLifecycle)}
    (own : ∀ entry ∈ entries, ∀ chainState, entry.2 = .active chainState →
      RegistryOf entry.1 chainState.poolRegistry)
    (found : ∀ entry ∈ entries, state.chains[entry.1]? = some entry.2)
    (distinct : (entries.map Prod.fst).Nodup) :
    ∃ projected,
      Paired ((entries.filterMap (contribution state)).flatMap (fun added => added.2.reserves))
        projected ∧
      ∀ reserve ∈ projected, ∃ entry ∈ entries, entry.1 = reserve.poolId.chain ∧
        (contribution state entry).isSome := by
  induction entries with
  | nil => exact ⟨[], ⟨rfl, List.nodup_nil, by simp⟩, by simp⟩
  | cons entry entries inductionHypothesis =>
    rw [List.map_cons, List.nodup_cons] at distinct
    obtain ⟨later, paired, contribute⟩ := inductionHypothesis
      (fun other listed => own other (List.mem_cons_of_mem _ listed))
      (fun other listed => found other (List.mem_cons_of_mem _ listed)) distinct.2
    have rest : ∀ reserve ∈ later, ∃ other ∈ entry :: entries, other.1 = reserve.poolId.chain ∧
        (contribution state other).isSome := by
      intro reserve listed
      obtain ⟨other, member, contributed⟩ := contribute reserve listed
      exact ⟨other, List.mem_cons_of_mem _ member, contributed⟩
    rw [List.filterMap_cons]
    cases contributes : contribution state entry with
    | none => exact ⟨later, paired, rest⟩
    | some added =>
      obtain ⟨first, paired', chains⟩ := contribution_paired (own entry List.mem_cons_self)
        (found entry List.mem_cons_self) contributes
      refine ⟨first ++ later, ?_, ?_⟩
      · rw [List.flatMap_cons]
        apply paired'.append paired
        intro reserve listed reserve' listed' same
        obtain ⟨other, member, chain, -⟩ := contribute reserve' listed'
        apply distinct.1
        rw [← chains reserve listed, same, ← chain]
        exact List.mem_map_of_mem member
      · intro reserve listed
        rcases List.mem_append.mp listed with member | member
        · exact ⟨entry, List.mem_cons_self, (chains reserve member).symm, by simp [contributes]⟩
        · exact rest reserve member

/-- In every run, a dispatched snapshot holds the ready projections of one state, and lists
each of its pools once in both directions. -/
theorem dispatched_snapshot [FillerHash] {state : State} (reached : Reached state) {event : Event}
    {input : OptimizationPoolReserves}
    (dispatched : .runOptimization input ∈ (transition state event).2) :
    SnapshotOf (transition state event).1 input ∧ input.reserves ≠ [] ∧
      Optimization.PoolPairs input.reserves ∧
      ∃ projected, Paired input.reserves projected ∧
        ∀ reserve ∈ projected, reserve.poolId.chain ∈ input.blockHashes := by
  obtain ⟨snapshot, some⟩ := snapshot_of_dispatch dispatched
  have next : Reached (transition state event).1 := reached.step trivial
  generalize (transition state event).1 = state' at snapshot next
  have entries : ∀ entry ∈ state'.chains.toList, state'.chains[entry.1]? = Option.some entry.2 :=
    fun entry listed => (HashMap.mem_toList_iff _ _).mp listed
  have distinct : (state'.chains.toList.map Prod.fst).Nodup := by
    rw [Std.ExtTreeMap.map_fst_toList_eq_keys]
    exact HashMap.keys_nodup state'.chains
  obtain ⟨projected, paired, contributes⟩ := contributions_paired
    (fun entry listed chainState active =>
      reached_registryOf next ((entries entry listed).trans (congrArg Option.some active)))
    entries distinct
  rw [← snapshot.reserves] at paired
  refine ⟨snapshot, some, paired.poolPairs, projected, paired, fun reserve listed => ?_⟩
  obtain ⟨entry, listed', same, contributed⟩ := contributes reserve listed
  rw [Std.ExtTreeMap.mem_iff_isSome_getElem?, snapshot.blockHashes, ← same, entries entry listed']
  simpa using contributed

def tradedPool : HashMap ProtocolPoolKey PoolMetadataResult :=
  (∅ : HashMap ProtocolPoolKey PoolMetadataResult).insert sampleKey
    (.ok { token0 := 1, token1 := 2, fee := .tiered .fee500 })

def tradedTokens : HashMap TokenAddress TokenMetadataResult :=
  ((∅ : HashMap TokenAddress TokenMetadataResult).insert ⟨1, .ethereum⟩
    (.ok ⟨⟨8, by decide⟩⟩)).insert ⟨2, .ethereum⟩ (.ok nativeTokenMetadata)

/-- A bootstrap that verifies one pool and its tokens. -/
def tradedBootstrap : List Event :=
  [.bootstrapEvent .ethereum (.finalizedHeaderReceived 1 ⟨0x10, 100⟩),
    .bootstrapEvent .ethereum (.poolCandidatesReceived 2 [] 100 none),
    .bootstrapEvent .ethereum (.poolMetadataReceived 3 tradedPool),
    .bootstrapEvent .ethereum (.tokenMetadataReceived 4 tradedTokens)]

def tradedOutcome : BootstrapOutcome where
  anchor := ⟨0x10, 100⟩
  poolSnapshots := ∅
  poolRegistry := (Bootstrap.VerifiedPools.mk tradedPool).intoRegistry .ethereum
  tokenRegistry := TokenRegistry.new.withMetadataResults tradedTokens
  seedBlocks := []

omit [BloomHash] [ReserveProjection] in
theorem fromWindow_nil [FillerHash] (anchor : Bootstrap.FinalizedAnchor) (tipTrim : UInt64) :
    (Bootstrap.GraphSeed.fromWindow [] anchor tipTrim).blocks = [] := by
  simp [Bootstrap.GraphSeed.fromWindow, Bootstrap.recentBlocks]

theorem tradedBootstrap_activates [FillerHash] :
    (run transition (State.init [.ethereum]).1 tradedBootstrap).1 =
      activeAlone .ethereum (activateBootstrapOutcome tradedOutcome).1 := by
  simp [tradedBootstrap, run, transition, bootstrapEvent, withChainLifecycle, State.init,
    activeAlone, advanceBootstrap, Bootstrap.transition, Bootstrap.init, Bootstrap.State.advance,
    Bootstrap.State.take, Bootstrap.finalizedHeaderReceived, Bootstrap.poolCandidatesReceived,
    Bootstrap.poolMetadataReceived, Bootstrap.tokenMetadataReceived, RequestStore.issueRequest,
    RequestStore.takeRequest, RequestStore.withCollection, RequestStore.new, Bootstrap.completion,
    replayBufferedSubscriptionData, tradedOutcome, fromWindow_nil]
  apply HashMap.ext_getElem?
  intro chain
  simp only [HashMap.getElem?_insert, HashMap.getElem?_erase]
  split <;> simp

/-- A head, and the state of the pool at the anchor. -/
def tradedEvents : List Event :=
  [.chainEvent .ethereum (.headObserved 0x11 0x10 0 101),
    .chainEvent .ethereum (.poolDataReceived 1
      ((∅ : HashMap PoolRef PoolDataResult).insert samplePool (.ok sampleState)))]

omit [BloomHash] [ReserveProjection] in
/-- The next head moves the frontier, and the pool is dispatched. -/
theorem dispatched_snapshot_traded :
    letI : BloomHash := BloomHash.tabulated
    letI : ReserveProjection := ReserveProjection.convertible
    letI : FillerHash := ⟨fun _ _ => 0⟩
    let state := (run transition (State.init [.ethereum]).1 (tradedBootstrap ++ tradedEvents)).1
    ∃ input, .runOptimization input ∈
        (transition state (.chainEvent .ethereum (.headObserved 0x12 0x11 0 102))).2 ∧
      input.reserves ≠ [] ∧ Optimization.PoolPairs input.reserves := by
  let _ : BloomHash := BloomHash.tabulated
  let _ : ReserveProjection := ReserveProjection.convertible
  let _ : FillerHash := ⟨fun _ _ => 0⟩
  intro state
  have reached : Reached state :=
    Reachable.run (.init ⟨_, rfl⟩) (tradedBootstrap ++ tradedEvents)
      (.of_events (fun _ _ _ => trivial) _)
  have activated : state = (run transition
      (activeAlone .ethereum (activateBootstrapOutcome tradedOutcome).1) tradedEvents).1 := by
    rw [← tradedBootstrap_activates]
    simp only [state, run_append]
  have dispatches : ((transition state
      (.chainEvent .ethereum (.headObserved 0x12 0x11 0 102))).2.any isDispatch) = true := by
    rw [activated]
    decide +kernel
  obtain ⟨effect, listed, dispatch⟩ := List.any_eq_true.mp dispatches
  cases effect with
  | runOptimization input =>
    obtain ⟨-, some, pairs, -⟩ := dispatched_snapshot reached listed
    exact ⟨input, listed, some, pairs⟩
  | fetchFinalizedHeader chain => cases dispatch
  | chainEffect chain effect => cases dispatch
  | bootstrapEffect chain effect => cases dispatch

end ArmchairAnalyst.MultiChain

import ArmchairAnalyst.Kernel.BlocksUpdates

/-!
# The tracked pools over a run

Only metadata answers change the registries, and they never withdraw a verification.
Seeds are only asked for verified pools.
-/

namespace ArmchairAnalyst.Kernel

variable [BloomHash] {chain : ChainKey}

/-! ### The registries -/

def State.registries (state : State) : TrustedPoolRegistry × TokenRegistry :=
  (state.poolRegistry, state.tokenRegistry)

omit [BloomHash] in
theorem withStreamedLogsDrained_registries (state : State) (hash : BlockHash) :
    (state.withStreamedLogsDrained hash).registries = state.registries := by
  unfold State.withStreamedLogsDrained
  split
  · rfl
  · split <;> rfl

omit [BloomHash] in
theorem foldl_withLogComplete_registries {Item : Type} (target : Item → BlockHash)
    (logs : Item → List PoolLog) (items : List Item) (state : State) :
    (items.foldl (fun state item => state.withLogComplete (target item) (logs item))
      state).registries = state.registries := by
  induction items generalizing state with
  | nil => rfl
  | cons item items inductionHypothesis =>
    rw [List.foldl_cons, inductionHypothesis]
    rfl

omit [BloomHash] in
theorem withLogsRange_registries (state : State) (covered : HashSet BlockHash)
    (blocks : List (BlockHash × List PoolLog)) :
    (state.withLogsRange covered blocks).registries = state.registries :=
  (foldl_withLogComplete_registries (fun hash => hash) (fun _ => []) _ _).trans
    (foldl_withLogComplete_registries Prod.fst Prod.snd _ _)

section Registries

variable (holds : TrustedPoolRegistry × TokenRegistry → Prop)

omit [BloomHash] in
theorem applied_registries {state : State} {kind : RequestKind} {id : UInt64}
    {apply_ : State → kind.Payload → State}
    (each : ∀ state' payload, state.pendingRequests.InFlight ⟨kind, id, payload⟩ →
      holds state'.registries → holds (apply_ state' payload).registries)
    (before : holds state.registries) : holds (applied state kind id apply_).registries := by
  unfold applied
  have same : (state.take kind id).1.registries = state.registries := rfl
  have waiting : ∀ request, (state.take kind id).2 = some request →
      state.pendingRequests.InFlight ⟨kind, id, request.payload⟩ :=
    fun request found => ⟨request.dispatchedAt, found⟩
  generalize state.take kind id = result at same waiting
  obtain ⟨state', _ | request⟩ := result
  · rw [same]
    exact before
  · exact each state' request.payload (waiting request rfl) (same ▸ before)

/-- What the answers to metadata requests keep, absorbing any event keeps. -/
theorem absorb_registries (state : State) (event : Event)
    (pools : ∀ id metadata, event = .poolMetadataReceived id metadata → ∀ registries results,
      holds registries → holds (registries.1.withMetadataResults chain results, registries.2))
    (tokens : ∀ id metadata, event = .tokenMetadataReceived id metadata →
      ∀ payload, state.pendingRequests.InFlight ⟨.tokenMetadata, id, payload⟩ → ∀ registries,
      holds registries → holds (registries.1, registries.2.withMetadataResults
        (metadata.filter (fun token _ => payload.tokens.contains token))))
    (before : holds state.registries) : holds (absorb chain state event).registries := by
  cases event with
  | headObserved hash parent bloom number =>
    simp only [absorb, State.withLogHeadObserved, withStreamedLogsDrained_registries]
    exact before
  | finalizedBlockObserved hash number =>
    simp only [absorb, State.withFinalizedBlockObserved]
    split <;> exact before
  | blockHeaderReceived id hash parent bloom number =>
    have same : (absorb chain state
        (.blockHeaderReceived id hash parent bloom number)).registries =
        (state.withLogHeaderReceived hash parent number bloom
          (maxPendingBlocks chain)).registries := rfl
    rw [same, State.withLogHeaderReceived, withStreamedLogsDrained_registries]
    exact before
  | blockLogsReceived id logs => exact applied_registries holds (fun _ _ _ earlier => earlier) before
  | blockLogsRangeReceived id blocks =>
    refine applied_registries holds (fun state payload _ earlier => ?_) before
    rw [withLogsRange_registries]
    exact earlier
  | logObserved hash logs =>
    simp only [absorb]
    split
    · exact before
    · unfold State.withStreamedLogsBuffered
      split <;> exact before
  | poolMetadataReceived id metadata =>
    exact applied_registries holds (fun state _ _ earlier =>
      pools id metadata rfl state.registries _ earlier) before
  | tokenMetadataReceived id metadata =>
    exact applied_registries holds (fun state payload waiting earlier =>
      tokens id metadata rfl payload waiting state.registries earlier) before
  | poolDataReceived id pools =>
    exact applied_registries holds (fun _ _ _ earlier => earlier) before
  | blockHeaderNotFound id => exact before
  | canonicalHeaderAtHeightReceived id hash number => exact before
  | requestFailed id => exact before
  | tick order => exact before

/-- What the answers to metadata requests keep, every transition keeps, a
re-initialisation included. -/
theorem transition_registries (state : State) (event : Event)
    (pools : ∀ id metadata, event = .poolMetadataReceived id metadata → ∀ registries results,
      holds registries → holds (registries.1.withMetadataResults chain results, registries.2))
    (tokens : ∀ id metadata, event = .tokenMetadataReceived id metadata →
      ∀ payload, state.pendingRequests.InFlight ⟨.tokenMetadata, id, payload⟩ → ∀ registries,
      holds registries → holds (registries.1, registries.2.withMetadataResults
        (metadata.filter (fun token _ => payload.tokens.contains token))))
    (before : holds state.registries) : holds (transition chain state event).1.registries := by
  by_cases restarts : Reinitialises state event
  · cases event with
    | canonicalHeaderAtHeightReceived id hash number =>
      rw [transition_reinitialises chain state id restarts]
      exact before
    | _ => exact absurd restarts id
  · rw [(transition_continues chain state event restarts).core]
    exact absorb_registries holds state event pools tokens before

end Registries

/-- What metadata results keep of the pool registry, every transition keeps. -/
theorem transition_poolRegistry (holds : TrustedPoolRegistry → Prop) (state : State)
    (event : Event)
    (kept : ∀ id metadata, event = .poolMetadataReceived id metadata → ∀ registry results,
      holds registry → holds (registry.withMetadataResults chain results))
    (before : holds state.poolRegistry) :
    holds (transition chain state event).1.poolRegistry :=
  transition_registries (holds ·.1) state event
    (fun id metadata answer registries results => kept id metadata answer registries.1 results)
    (fun _ _ _ _ _ _ earlier => earlier) before

/-- A transition never withdraws a verification. -/
theorem transition_verified_mono (chain : ChainKey) (state : State) (event : Event) :
    ∀ pool ∈ state.poolRegistry.verifiedPools chain,
      pool ∈ (transition chain state event).1.poolRegistry.verifiedPools chain := by
  intro pool tracked
  rw [TrustedPoolRegistry.mem_verifiedPools] at tracked ⊢
  refine ⟨?_, tracked.2⟩
  exact transition_poolRegistry (pool ∈ ·.verified) state event
    (fun _ _ _ _ _ verified => TrustedPoolRegistry.verified_withMetadataResults_mono chain _ verified)
    tracked.1

/-! ### Requested seeds -/

omit [BloomHash] in
/-- Seeding adds the pools that were read. -/
theorem mem_seedPools {entries : List (PoolRef × PoolDataResult)}
    {snapshot : HashMap PoolRef PoolState} {pool : PoolRef} :
    pool ∈ entries.foldl Blocks.seedPool snapshot ↔
      pool ∈ snapshot ∨ ∃ poolState, (pool, .ok poolState) ∈ entries := by
  induction entries generalizing snapshot with
  | nil => simp
  | cons entry entries inductionHypothesis =>
    rw [List.foldl_cons, inductionHypothesis]
    obtain ⟨seeded, result⟩ := entry
    cases result with
    | error failure => simp [Blocks.seedPool]
    | ok seed =>
      by_cases same : seeded = pool
      · subst same
        simp [Blocks.seedPool]
      · simp [Blocks.seedPool, same, Ne.symm same]

/-- A request for pool data names verified pools only. -/
def SeedsTracked (chain : ChainKey) (registry : TrustedPoolRegistry) :
    (kind : RequestKind) → kind.Payload → Prop
  | .poolData, payload => ∀ pool ∈ payload.pools, pool ∈ registry.verifiedPools chain
  | _, _ => True

omit [BloomHash] in
theorem SeedsTracked.mono {registry registry' : TrustedPoolRegistry} {kind : RequestKind}
    {payload : kind.Payload} (tracked : SeedsTracked chain registry kind payload)
    (grows : ∀ pool ∈ registry.verifiedPools chain, pool ∈ registry'.verifiedPools chain) :
    SeedsTracked chain registry' kind payload := by
  cases kind with
  | poolData => exact fun pool requested => grows pool (tracked pool requested)
  | _ => trivial

omit [BloomHash] in
theorem Asked.seedsTracked {absorbed : State} {kind : RequestKind} {payload : kind.Payload}
    (asked : Asked chain absorbed kind payload) :
    SeedsTracked chain absorbed.poolRegistry kind payload := by
  cases kind with
  | poolData =>
    rcases asked with other | scheduled
    · simp at other
    · exact fun pool requested => (scheduled.2.2 pool requested).1
  | _ => trivial

theorem transition_seedsTracked (chain : ChainKey) {state : State}
    (seeds : RequestStore.AllPayloads (SeedsTracked chain state.poolRegistry)
      state.pendingRequests) (event : Event) :
    RequestStore.AllPayloads (SeedsTracked chain (transition chain state event).1.poolRegistry)
      (transition chain state event).1.pendingRequests := by
  have grows := transition_verified_mono chain state event
  have seeds' : RequestStore.AllPayloads
      (SeedsTracked chain (transition chain state event).1.poolRegistry)
      state.pendingRequests := fun request inFlight => (seeds request inFlight).mono grows
  by_cases restarts : Reinitialises state event
  · cases event with
    | canonicalHeaderAtHeightReceived id hash number =>
      rw [transition_reinitialises chain state id restarts]
      exact fun request inFlight => absurd inFlight (RequestStore.not_inFlight_new request)
    | _ => exact absurd restarts id
  · have continues := transition_continues chain state event restarts
    have same : (transition chain state event).1.poolRegistry =
        (absorb chain state event).poolRegistry := by rw [continues.core]
    refine seeds'.evolves continues.evolves (fun request issued => ?_)
    rcases continues.reasons request issued with asked | ⟨id, retried⟩
    · rw [same]
      exact asked.seedsTracked
    · exact seeds' ⟨request.kind, id, request.requestPayload⟩ retried

end ArmchairAnalyst.Kernel

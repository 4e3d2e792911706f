import ArmchairAnalyst.Kernel.IdleSchedule
import ArmchairAnalyst.Kernel.TrackedPools
import ArmchairAnalyst.Kernel.BackfillFinality

/-!
# Requests for anchor states

A request for anchor states in flight reads a chunk of pools at the present anchor. An
answer seeds the pools that were read, and its own transition asks for the first pools
that are left over, those whose read has just failed among them.
-/

namespace ArmchairAnalyst.Kernel

open RequestStore (Covers Evolves AllPayloads Sequenced)

variable [BloomHash] {chain : ChainKey}

/-! ### Seed requests in flight -/

/-- A seed request reads at most a chunk of pools, at the anchor. -/
def SeedsChunked (anchor : BlockHash) : (kind : RequestKind) → kind.Payload → Prop
  | .poolData, payload =>
    payload.at_ = anchor ∧ payload.pools.toList.length ≤ finalizedPoolSeedChunk
  | _, _ => True

omit [BloomHash] in
theorem Asked.seedsChunked {absorbed : State} {kind : RequestKind} {payload : kind.Payload}
    (asked : Asked chain absorbed kind payload) :
    SeedsChunked absorbed.blocks.graph.anchor.hash kind payload := by
  cases kind with
  | poolData =>
    rcases asked with other | scheduled
    · simp at other
    · exact ⟨scheduled.1, scheduled.2.1⟩
  | _ => trivial

/-- No seed request survives a new anchor. -/
theorem finalized_seedsChunked (chain : ChainKey) {state : State} (wellFormed : state.blocks.graph.WellFormed)
    (chunked : AllPayloads (SeedsChunked state.blocks.graph.anchor.hash) state.pendingRequests)
    (hash : BlockHash) (number : UInt64) :
    AllPayloads (SeedsChunked (absorb chain state
        (.finalizedBlockObserved hash number)).blocks.graph.anchor.hash)
      (absorb chain state (.finalizedBlockObserved hash number)).pendingRequests := by
  simp only [absorb, State.withFinalizedBlockObserved]
  have cases_ := BlocksGraph.finalizedTo_cases wellFormed hash state.blocks.finalizedSnapshot
    (state.poolRegistry.verifiedPools chain) (poolManagerAddress chain)
  generalize state.blocks.graph.finalizedTo hash state.blocks.finalizedSnapshot
    (state.poolRegistry.verifiedPools chain) (poolManagerAddress chain) = result at cases_ ⊢
  obtain ⟨graph, snapshot⟩ := result
  by_cases moved : graph.anchor.hash ≠ state.blocks.graph.anchor.hash
  · simp only [if_pos moved]
    rintro ⟨kind, id, payload⟩ inFlight
    cases kind with
    | poolData =>
      have retained := retainingBlockTargets_poolData inFlight
      have earlier := ((PendingRequests.evolves_retainingBlockTargets _ _).inFlight _
        inFlight).resolve_left List.not_mem_nil
      have old : payload.at_ = state.blocks.graph.anchor.hash := (chunked _ earlier).1
      have present : state.blocks.graph.anchor.hash ∈ graph.nodes := by
        rw [← old]
        exact (HashMap.mem_keySet graph.nodes payload.at_).mp retained
      rcases cases_ with idle | ⟨newAnchor, node, _, _, _, reached⟩
      · obtain rfl : graph = state.blocks.graph := congrArg Prod.fst idle
        exact absurd rfl moved
      · obtain rfl : graph = _ := congrArg Prod.fst reached
        obtain ⟨node', found⟩ := (HashMap.mem_iff_exists _ _).mp present
        obtain ⟨original, connected, -⟩ :=
          (BlocksGraph.mem_rerooted wellFormed node).mp found
        exact absurd ((HashMap.mem_iff_exists _ _).mpr ⟨_, connected⟩) wellFormed.anchorAbsent
    | _ => trivial
  · simp only [if_neg moved]
    rw [not_not.mp moved]
    exact chunked

theorem transition_seedsChunked (chain : ChainKey) {state : State}
    (wellFormed : state.blocks.graph.WellFormed)
    (chunked : AllPayloads (SeedsChunked state.blocks.graph.anchor.hash) state.pendingRequests)
    (event : Event) :
    AllPayloads (SeedsChunked (transition chain state event).1.blocks.graph.anchor.hash)
      (transition chain state event).1.pendingRequests := by
  by_cases finality : ∃ hash number, event = .finalizedBlockObserved hash number
  · obtain ⟨hash, number, rfl⟩ := finality
    have absorbed := finalized_seedsChunked chain wellFormed chunked hash number
    have issues := issues_logRanges chain hash
      (state.withFinalizedBlockObserved chain hash, [])
    rw [transition_of_output rfl, issues.blocks]
    obtain ⟨issued, -, evolves, ranges⟩ := issues.issued
    refine absorbed.evolves evolves (fun request membership => ?_)
    obtain ⟨kind, id, payload⟩ := request
    obtain rfl : kind = .logsRange := ranges _ membership
    trivial
  · by_cases restarts : Reinitialises state event
    · cases event with
      | canonicalHeaderAtHeightReceived id hash number =>
        rw [transition_reinitialises chain state id restarts]
        exact fun request inFlight => absurd inFlight (RequestStore.not_inFlight_new request)
      | _ => exact absurd restarts id
    · have continues := transition_continues chain state event restarts
      have anchor : (transition chain state event).1.blocks.graph.anchor =
          state.blocks.graph.anchor := by
        rw [continues.core]
        exact absorb_anchor chain state (fun hash number same => finality ⟨hash, number, same⟩)
      rw [anchor]
      refine chunked.evolves continues.evolves (fun request issued => ?_)
      rcases continues.reasons request issued with asked | ⟨id, retried⟩
      · have asks := asked.seedsChunked
        rw [absorb_anchor chain state
          (fun hash number same => finality ⟨hash, number, same⟩)] at asks
        exact asks
      · exact chunked ⟨request.kind, id, request.requestPayload⟩ retried

theorem Reached.seedsChunked {state : State} (reached : Reached chain state) :
    AllPayloads (SeedsChunked state.blocks.graph.anchor.hash) state.pendingRequests := by
  refine reached.invariant
    (fun state => AllPayloads (SeedsChunked state.blocks.graph.anchor.hash) state.pendingRequests)
    ?_ (fun state event earlier chunked _ =>
      transition_seedsChunked chain (Reached.built earlier).wellFormed chunked event)
  rintro state ⟨effects, starts⟩
  generalize output : (state, effects) = start at starts
  cases starts with
  | init hash number =>
    obtain ⟨rfl, -⟩ := Prod.mk.inj output
    exact fun request inFlight => absurd inFlight (RequestStore.not_inFlight_new request)
  | activateFromSeed hash number snapshots pools tokens blocks =>
    obtain rfl : state = _ := congrArg Prod.fst output
    have headers : Issues (fun kind _ => kind = .blockHeader)
        (activated hash number snapshots pools tokens blocks, [])
        (State.activateFromSeed hash number snapshots pools tokens blocks) :=
      Issues.foldl (fun _ _ output => Issues.request output .blockHeader _ rfl) _
    obtain ⟨issued, -, evolves, kinds⟩ := headers.issued
    rintro ⟨kind, id, payload⟩ inFlight
    rcases evolves.inFlight _ inFlight with membership | earlier
    · obtain rfl : kind = .blockHeader := kinds _ membership
      trivial
    · exact absurd earlier (RequestStore.not_inFlight_new _)

/-! ### The seed stage is let through -/

/-- No block is being fetched, and the scheduling chain has none to fetch. -/
def SeedsOpen (chain : ChainKey) (state : State) : Prop :=
  PendingRequests.hasPendingBlockBackfill state.pendingRequests = false ∧
    state.blocks.graph.missingParents = [] ∧ logHoles chain state = []

instance (state : State) : Decidable (SeedsOpen chain state) :=
  inferInstanceAs (Decidable (_ ∧ _ ∧ _))

/-- The kinds of requests that fetch blocks. -/
def backfillKinds : List RequestKind := [.blockHeader, .blockLogs, .logsRange]

omit [BloomHash] in
theorem noBackfill_iff (requests : PendingRequests) :
    PendingRequests.hasPendingBlockBackfill requests = false ↔
      ∀ kind ∈ backfillKinds, (requests.collection kind).isEmpty = true := by
  simp [PendingRequests.hasPendingBlockBackfill, backfillKinds, and_assoc]

omit [BloomHash] in
theorem noBackfill_congr {requests requests' : PendingRequests}
    (same : ∀ kind ∈ backfillKinds, requests'.collection kind = requests.collection kind) :
    PendingRequests.hasPendingBlockBackfill requests' =
      PendingRequests.hasPendingBlockBackfill requests := by
  simp only [PendingRequests.hasPendingBlockBackfill, same .blockHeader (by decide),
    same .blockLogs (by decide), same .logsRange (by decide)]

omit [BloomHash] in
/-- Issuing leaves a store without backfill when nothing issued fetches a block. -/
theorem noBackfill_issueAll {tick : Tick} {payloads : List ((kind : RequestKind) × kind.Payload)}
    {requests : PendingRequests}
    (idle : PendingRequests.hasPendingBlockBackfill (requests.issueAll tick payloads) = false) :
    PendingRequests.hasPendingBlockBackfill requests = false ∧
      ∀ entry ∈ payloads, entry.1 ∉ backfillKinds := by
  induction payloads generalizing requests with
  | nil => exact ⟨idle, by simp⟩
  | cons first payloads inductionHypothesis =>
    obtain ⟨kind, payload⟩ := first
    obtain ⟨early, later⟩ := inductionHypothesis idle
    have other : kind ∉ backfillKinds := by
      intro fetches
      have empty := (noBackfill_iff _).mp early kind fetches
      rw [RequestStore.issueRequest, RequestStore.withCollection_self] at empty
      exact absurd empty (by simp)
    refine ⟨?_, ?_⟩
    · rw [← early, eq_comm]
      apply noBackfill_congr
      intro fetching fetches
      have distinct : fetching ≠ kind := fun same => other (same ▸ fetches)
      simp [RequestStore.issueRequest, distinct]
    · intro entry membership
      rcases List.mem_cons.mp membership with rfl | rest
      · exact other
      · exact later entry rest

/-- The stages before the seed stage ask for no anchor states. -/
theorem issues_beforeSeeds (chain : ChainKey) (output : State × List Effect) :
    Issues (fun kind _ => kind ≠ .poolData) output (scheduleBeforeSeeds chain output) := by
  have headers : Issues (fun kind _ => kind ≠ .poolData) output
      (scheduleMissingHeaderRequests output) :=
    Issues.foldl (fun hash _ output' => issues_requestMissingHeader output' hash (by decide)) output
  have logs (output : State × List Effect) : Issues (fun kind _ => kind ≠ .poolData) output
      (scheduleUnknownCanonicalLogRequests chain output) :=
    Issues.foldl (fun _ _ output' => Issues.request output' .blockLogs _ (by decide)) output
  have metadata (blocks : List (BlockHash × HashSet ProtocolPoolKey))
      (output : State × List Effect) : Issues (fun kind _ => kind ≠ .poolData) output
        (scheduleUnknownCanonicalPoolMetadataRequests chain blocks output) := by
    apply (issues_poolMetadataKind chain blocks output).weaken
    rintro kind payload rfl
    decide
  have tokens (blocks : List (BlockHash × HashSet ProtocolPoolKey))
      (output : State × List Effect) : Issues (fun kind _ => kind ≠ .poolData) output
        (scheduleUnknownCanonicalTokenMetadataRequests chain blocks output) := by
    apply (issues_tokenMetadataKind chain blocks output).weaken
    rintro kind payload rfl
    decide
  exact headers.trans ((logs _).trans ((metadata _ _).trans (tokens _ _)))

/-- The stages before the seed stage leave no backfill pending exactly when there is
nothing to fetch. -/
theorem noBackfill_beforeSeeds (chain : ChainKey) (state : State) :
    PendingRequests.hasPendingBlockBackfill
        (scheduleBeforeSeeds chain (state, [])).1.pendingRequests = false ↔
      SeedsOpen chain state := by
  constructor
  · intro idle
    obtain ⟨-, payloads, store, -, named⟩ := asks_beforeSeeds chain (state, [])
    rw [store] at idle
    obtain ⟨before, others⟩ := noBackfill_issueAll idle
    have unwanted : ∀ target, target.kind ∈ backfillKinds → ¬ WantedWork chain state target := by
      intro target fetches wants
      rcases named target wants with covered | ⟨entry, membership, names⟩
      · obtain ⟨id, payload, ⟨tick, found⟩, -⟩ := inFlight_of_covers covered
        have empty := (noBackfill_iff _).mp before target.kind fetches
        rw [Std.ExtTreeMap.isEmpty_iff.mp empty] at found
        simp at found
      · rw [← names.kind] at fetches
        exact others entry membership fetches
    refine ⟨before, ?_, ?_⟩
    · rw [List.eq_nil_iff_forall_not_mem]
      exact fun hash missing => unwanted (.header hash) List.mem_cons_self missing
    · rw [List.eq_nil_iff_forall_not_mem]
      exact fun hash hole => unwanted (.logs hash) (by simp [backfillKinds, Target.kind]) hole
  · rintro ⟨before, headers, logs⟩
    have early : scheduleMissingHeaderRequests (state, []) = (state, []) := by
      apply missingHeaders_idle
      simp [headers]
    have early' : scheduleUnknownCanonicalLogRequests chain (state, []) = (state, []) := by
      apply unknownLogs_idle
      simp [logs]
    have metadata : Issues (fun kind _ => kind ∉ backfillKinds) (state, [])
        (scheduleBeforeSeeds chain (state, [])) := by
      simp only [scheduleBeforeSeeds, early, early']
      apply ((issues_poolMetadataKind chain _ (state, [])).weaken ?_).trans
        ((issues_tokenMetadataKind chain _ _).weaken ?_)
      · rintro kind payload rfl
        decide
      · rintro kind payload rfl
        decide
    rw [← before]
    apply noBackfill_congr
    intro kind fetches
    exact metadata.untouched kind (fun _ other => other fetches)

/-! ### What the scheduling chain does to the seed requests -/

omit [BloomHash] in
theorem uncoveredPools_congr (chain : ChainKey) {state state' : State} (same : SameCore state state')
    (untouched : state'.pendingRequests.collection .poolData =
      state.pendingRequests.collection .poolData) :
    uncoveredPools chain state' = uncoveredPools chain state := by
  have pending : PendingRequests.pendingPoolDataPools state'.pendingRequests =
      PendingRequests.pendingPoolDataPools state.pendingRequests := by
    simp only [PendingRequests.pendingPoolDataPools, PendingRequests.payloads, untouched]
  unfold uncoveredPools
  rw [pending, same]

/-- The request for the first uncovered pools. -/
def seedRequest (chain : ChainKey) (state : State) : GetPoolData where
  at_ := state.blocks.graph.anchor.hash
  pools := HashSet.collect (uncoveredPools chain state)

/-- The scheduling chain ends with a request for the uncovered pools when the seed stage
is let through. -/
theorem schedule_seeds_asked {state : State} (opened : SeedsOpen chain state)
    (uncovered : uncoveredPools chain state ≠ []) :
    ∃ earlier id, (scheduleUnknownCanonicalRequests chain (state, [])).2 =
        earlier ++ [⟨.poolData, id, seedRequest chain state⟩] ∧
      (∀ request ∈ earlier, request.kind ≠ .poolData) ∧
      (scheduleUnknownCanonicalRequests chain (state, [])).1.pendingRequests.collection .poolData =
        (state.pendingRequests.collection .poolData).insert id
          ⟨seedRequest chain state, state.tick⟩ := by
  have idle := (noBackfill_beforeSeeds chain state).mpr opened
  have issues := issues_beforeSeeds chain (state, [])
  rw [schedule_eq_seeds]
  generalize scheduleBeforeSeeds chain (state, []) = output at idle issues
  have untouched : output.1.pendingRequests.collection .poolData =
      state.pendingRequests.collection .poolData :=
    issues.untouched .poolData (fun _ other => other rfl)
  have same := uncoveredPools_congr chain issues.core untouched
  have asked : scheduleFinalizedPoolSeedRequests chain output =
      issueRequest output .poolData (seedRequest chain state) := by
    unfold scheduleFinalizedPoolSeedRequests
    rw [if_neg (by rw [idle]; exact Bool.false_ne_true), same, issues.blocks]
    exact if_neg (by rw [List.isEmpty_iff]; exact uncovered)
  obtain ⟨issued, effects, -, others⟩ := issues.issued
  have tick : output.1.tick = state.tick := by rw [issues.core]
  refine ⟨issued, output.1.pendingRequests.lastRequestId + 1, ?_, others, ?_⟩
  · rw [asked]
    simp only [issueRequest, effects, List.nil_append]
    rfl
  · rw [asked]
    simp only [issueRequest, RequestStore.issueRequest, RequestStore.withCollection_self, untouched,
      tick]

/-- Otherwise no anchor state is asked for. -/
theorem schedule_seeds_idle {state : State}
    (closed : ¬ (SeedsOpen chain state ∧ uncoveredPools chain state ≠ [])) :
    (∀ request ∈ (scheduleUnknownCanonicalRequests chain (state, [])).2,
        request.kind ≠ .poolData) ∧
      (scheduleUnknownCanonicalRequests chain (state, [])).1.pendingRequests.collection .poolData =
        state.pendingRequests.collection .poolData := by
  have idle := noBackfill_beforeSeeds chain state
  have issues := issues_beforeSeeds chain (state, [])
  rw [schedule_eq_seeds]
  generalize scheduleBeforeSeeds chain (state, []) = output at idle issues
  have untouched : output.1.pendingRequests.collection .poolData =
      state.pendingRequests.collection .poolData :=
    issues.untouched .poolData (fun _ other => other rfl)
  have same := uncoveredPools_congr chain issues.core untouched
  have skipped : scheduleFinalizedPoolSeedRequests chain output = output := by
    unfold scheduleFinalizedPoolSeedRequests
    cases backfilling : PendingRequests.hasPendingBlockBackfill output.1.pendingRequests with
    | true => exact if_pos rfl
    | false =>
      have covered : uncoveredPools chain state = [] :=
        not_not.mp (fun uncovered => closed ⟨idle.mp backfilling, uncovered⟩)
      rw [if_neg Bool.false_ne_true, same, covered]
      exact if_pos rfl
  rw [skipped]
  obtain ⟨issued, effects, -, others⟩ := issues.issued
  rw [effects]
  exact ⟨others, untouched⟩

/-! ### An answer -/

/-- Whether an answer carries a state of the pool. -/
def reads (results : HashMap PoolRef PoolDataResult) (pool : PoolRef) : Bool :=
  match results[pool]? with
  | some (.ok _) => true
  | _ => false

omit [BloomHash] in
theorem reads_iff (results : HashMap PoolRef PoolDataResult) (pool : PoolRef) :
    reads results pool = true ↔ ∃ poolState, results[pool]? = some (.ok poolState) := by
  unfold reads
  split <;> simp_all

/-- The pools an answer leaves uncovered and no other request in flight asks for, in order. -/
def leftUncovered (chain : ChainKey) (state : State) (id : UInt64)
    (results : HashMap PoolRef PoolDataResult) : List PoolRef :=
  (state.poolRegistry.verifiedPools chain).toList.filter (fun pool =>
    !(state.blocks.finalizedSnapshot.contains pool || reads results pool) &&
      !(PendingRequests.pendingPoolDataPools
        (state.pendingRequests.takeRequest .poolData id).1).contains pool)

/-- The state in which an answered seed request leaves the schedulers. -/
def seedsApplied (state : State) (id : UInt64) (payload : GetPoolData)
    (results : HashMap PoolRef PoolDataResult) : State :=
  (state.take .poolData id).1.withFinalizedPoolSeeds payload.at_ results

theorem transition_poolDataReceived (chain : ChainKey) {state : State} {id : UInt64} {payload : GetPoolData}
    (inFlight : state.pendingRequests.InFlight ⟨.poolData, id, payload⟩)
    (results : HashMap PoolRef PoolDataResult) :
    transition chain state (.poolDataReceived id results) =
      scheduleUnknownCanonicalRequests chain (seedsApplied state id payload results, []) := by
  rw [transition_of_output rfl]
  exact answered_inFlight chain inFlight _

omit [BloomHash] in
theorem mem_seedsApplied {state : State} {payload : GetPoolData}
    (current : payload.at_ = state.blocks.graph.anchor.hash) (id : UInt64)
    (results : HashMap PoolRef PoolDataResult) (pool : PoolRef) :
    pool ∈ (seedsApplied state id payload results).blocks.finalizedSnapshot ↔
      pool ∈ state.blocks.finalizedSnapshot ∨ reads results pool = true := by
  have seeded : (seedsApplied state id payload results).blocks.finalizedSnapshot =
      results.toList.foldl Blocks.seedPool state.blocks.finalizedSnapshot := by
    have applies : ¬ payload.at_ ≠ (state.take .poolData id).1.blocks.graph.anchor.hash :=
      not_not.mpr current
    simp only [seedsApplied, State.withFinalizedPoolSeeds, Blocks.withFinalizedPoolSeeds,
      if_neg applies]
    rfl
  rw [seeded, mem_seedPools, reads_iff]
  simp only [HashMap.mem_toList_iff]

omit [BloomHash] in
theorem seedsApplied_graph (state : State) (id : UInt64) (payload : GetPoolData)
    (results : HashMap PoolRef PoolDataResult) :
    (seedsApplied state id payload results).blocks.graph = state.blocks.graph := by
  simp only [seedsApplied, State.withFinalizedPoolSeeds, Blocks.withFinalizedPoolSeeds]
  split <;> rfl

theorem seedsOpen_seedsApplied (chain : ChainKey) (state : State) (id : UInt64) (payload : GetPoolData)
    (results : HashMap PoolRef PoolDataResult) :
    SeedsOpen chain (seedsApplied state id payload results) ↔ SeedsOpen chain state := by
  have idle : PendingRequests.hasPendingBlockBackfill
      (seedsApplied state id payload results).pendingRequests =
      PendingRequests.hasPendingBlockBackfill state.pendingRequests := by
    apply noBackfill_congr
    intro kind fetches
    have distinct : kind ≠ .poolData := by
      rintro rfl
      exact absurd fetches (by decide)
    simp [seedsApplied, State.withFinalizedPoolSeeds, State.take, RequestStore.takeRequest, distinct]
  have holes : logHoles chain (seedsApplied state id payload results) = logHoles chain state := by
    unfold logHoles
    rw [seedsApplied_graph]
    rfl
  unfold SeedsOpen
  rw [idle, holes, seedsApplied_graph]

omit [BloomHash] in
theorem uncoveredPools_seedsApplied {state : State} {payload : GetPoolData}
    (current : payload.at_ = state.blocks.graph.anchor.hash) (id : UInt64)
    (results : HashMap PoolRef PoolDataResult) :
    uncoveredPools chain (seedsApplied state id payload results) =
      (leftUncovered chain state id results).take finalizedPoolSeedChunk := by
  unfold uncoveredPools leftUncovered
  congr 1
  apply List.filter_congr
  intro pool _
  have covered : (seedsApplied state id payload results).blocks.finalizedSnapshot.contains pool =
      (state.blocks.finalizedSnapshot.contains pool || reads results pool) := by
    rw [Bool.eq_iff_iff, Bool.or_eq_true, Std.ExtTreeMap.contains_iff_mem,
      Std.ExtTreeMap.contains_iff_mem]
    exact mem_seedsApplied current id results pool
  rw [covered]
  rfl

/-- A seed answer asks for a pool again exactly when the seed stage is let through and the
pool is among the first ones the answer leaves over. -/
theorem requested_again_iff {state : State} (reached : Reached chain state) {id : UInt64}
    {payload : GetPoolData}
    (inFlight : state.pendingRequests.InFlight ⟨.poolData, id, payload⟩)
    (results : HashMap PoolRef PoolDataResult) (pool : PoolRef) :
    (∃ request ∈ (transition chain state (.poolDataReceived id results)).2,
        Names request.kind request.requestPayload (.pool pool)) ↔
      SeedsOpen chain state ∧
        pool ∈ (leftUncovered chain state id results).take finalizedPoolSeedChunk := by
  have current := (reached.seedsChunked _ inFlight).1
  rw [transition_poolDataReceived chain inFlight, ← seedsOpen_seedsApplied chain state id payload results,
    ← uncoveredPools_seedsApplied current id results]
  by_cases asked : SeedsOpen chain (seedsApplied state id payload results) ∧
      uncoveredPools chain (seedsApplied state id payload results) ≠ []
  · obtain ⟨earlier, id', effects, others, -⟩ := schedule_seeds_asked asked.1 asked.2
    rw [effects, and_iff_right asked.1]
    constructor
    · rintro ⟨request, membership, named⟩
      rcases List.mem_append.mp membership with before | last
      · exact absurd named.kind (others request before)
      · obtain rfl := List.mem_singleton.mp last
        exact (HashSet.mem_collect _ _).mp named
    · intro uncovered
      refine ⟨_, List.mem_append_right _ List.mem_cons_self, ?_⟩
      exact (HashSet.mem_collect _ _).mpr uncovered
  · obtain ⟨others, -⟩ := schedule_seeds_idle asked
    constructor
    · rintro ⟨request, membership, named⟩
      exact absurd named.kind (others request membership)
    · rintro ⟨opened, uncovered⟩
      exact absurd ⟨opened, List.ne_nil_of_mem uncovered⟩ asked

end ArmchairAnalyst.Kernel

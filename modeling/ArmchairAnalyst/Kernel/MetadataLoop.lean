import ArmchairAnalyst.Kernel.MetadataRequests
import ArmchairAnalyst.Client.MetadataResolvers

/-!
# Metadata discovery settles

The kernel asks for the metadata of unknown candidates and a runtime resolves them.
Where every candidate of a request is served, its answer makes each of them known, and
the loop of questions and answers runs dry.
-/

namespace ArmchairAnalyst.Kernel

open RequestStore (Covers Exclusive Evolves AllPayloads)
open Client (Runtime Surroundings Resolution Served MetadataAbi mem_poolMetadata)

section Counting

variable [BloomHash] {chain : ChainKey}

/-- The number of metadata requests among some effects. -/
def metadataRequests (effects : List Effect) : Nat :=
  effects.countP (fun request => request.kind = .poolMetadata)

omit [BloomHash] in
theorem metadataRequests_append (first second : List Effect) :
    metadataRequests (first ++ second) = metadataRequests first + metadataRequests second :=
  List.countP_append

omit [BloomHash] in
/-- A stage that issues requests of other kinds leaves their number alone. -/
theorem metadataRequests_of_issues {output output' : State × List Effect}
    (issues : Issues (fun kind _ => kind ≠ .poolMetadata) output output') :
    metadataRequests output'.2 = metadataRequests output.2 := by
  obtain ⟨issued, appended, -, others⟩ := issues.issued
  have none : metadataRequests issued = 0 := by
    simpa [metadataRequests, List.countP_eq_zero] using others
  rw [appended, metadataRequests_append, none, Nat.add_zero]

omit [BloomHash] in
variable (chain) in
/-- Each block is asked about in at most one request. -/
theorem metadataRequests_sweep (blocks : List (BlockHash × HashSet ProtocolPoolKey))
    (pass : (State × List Effect) × HashSet ProtocolPoolKey) :
    metadataRequests (blocks.foldl (requestPoolCandidates chain) pass).1.2 ≤
      metadataRequests pass.1.2 + blocks.length := by
  induction blocks generalizing pass with
  | nil => exact Nat.le_refl _
  | cons block blocks inductionHypothesis =>
    have first : metadataRequests (requestPoolCandidates chain pass block).1.2 ≤
        metadataRequests pass.1.2 + 1 := by
      unfold requestPoolCandidates
      simp only
      split
      · exact Nat.le_succ _
      · simp [issueRequest, metadataRequests, List.countP_append]
    have rest := inductionHypothesis (requestPoolCandidates chain pass block)
    rw [List.foldl_cons, List.length_cons]
    omega

omit [BloomHash] in
theorem issues_tokens_other (blocks : List (BlockHash × HashSet ProtocolPoolKey))
    (output : State × List Effect) :
    Issues (fun kind _ => kind ≠ .poolMetadata) output
      (scheduleUnknownCanonicalTokenMetadataRequests chain blocks output) := by
  apply (issues_tokenMetadataKind chain blocks output).weaken
  rintro kind payload rfl
  decide

omit [BloomHash] in
theorem issues_seeds_other (output : State × List Effect) :
    Issues (fun kind _ => kind ≠ .poolMetadata) output
      (scheduleFinalizedPoolSeedRequests chain output) := by
  unfold scheduleFinalizedPoolSeedRequests
  split
  · exact Issues.refl output
  · simp only
    split
    · exact Issues.refl output
    · exact Issues.request output .poolData _ (by decide)

variable (chain) in
/-- One pass of the schedulers asks at most once about each block of the present chain. -/
theorem metadataRequests_schedule (output : State × List Effect) :
    metadataRequests (scheduleUnknownCanonicalRequests chain output).2 ≤
      metadataRequests output.2 + output.1.blocks.graph.poolLogCandidatesFromHead.length := by
  have headers : Issues (fun kind _ => kind ≠ .poolMetadata) output
      (scheduleMissingHeaderRequests output) :=
    Issues.foldl (fun hash _ output' => issues_requestMissingHeader output' hash (by decide)) output
  have logs : Issues (fun kind _ => kind ≠ .poolMetadata) (scheduleMissingHeaderRequests output)
      (scheduleUnknownCanonicalLogRequests chain (scheduleMissingHeaderRequests output)) :=
    Issues.foldl (fun hash _ output' => Issues.request output' .blockLogs _ (by decide)) _
  have early := headers.trans logs
  have staged : scheduleUnknownCanonicalRequests chain output =
      scheduleFinalizedPoolSeedRequests chain (scheduleUnknownCanonicalTokenMetadataRequests chain
        (scheduleUnknownCanonicalLogRequests chain
          (scheduleMissingHeaderRequests output)).1.blocks.graph.poolLogCandidatesFromHead
        (scheduleUnknownCanonicalPoolMetadataRequests chain
          (scheduleUnknownCanonicalLogRequests chain
            (scheduleMissingHeaderRequests output)).1.blocks.graph.poolLogCandidatesFromHead
          (scheduleUnknownCanonicalLogRequests chain (scheduleMissingHeaderRequests output)))) :=
    rfl
  rw [staged, early.blocks, metadataRequests_of_issues (issues_seeds_other _),
    metadataRequests_of_issues (issues_tokens_other _ _), ← metadataRequests_of_issues early]
  exact metadataRequests_sweep chain _ (_, _)

end Counting

section Open

variable [BloomHash] {chain : ChainKey}

/-- The unknown candidates that are in flight or named by the present chain. -/
def openCandidates (chain : ChainKey) (state : State) : List ProtocolPoolKey :=
  ((PendingRequests.pendingPoolMetadataCandidates state.pendingRequests ∪
      HashSet.collect (state.blocks.graph.poolLogCandidatesFromHead.flatMap
        (fun block => block.2.toList))).toList).filter
    (fun candidate => !state.poolRegistry.isKnown chain candidate)

omit [BloomHash] in
theorem mem_openCandidates (state : State) (candidate : ProtocolPoolKey) :
    candidate ∈ openCandidates chain state ↔
      (Covers Names state.pendingRequests (.candidate candidate) ∨
        ∃ block ∈ state.blocks.graph.poolLogCandidatesFromHead, candidate ∈ block.2) ∧
      state.poolRegistry.isKnown chain candidate = false := by
  rw [covers_candidate]
  simp [openCandidates, List.mem_filter, Std.ExtTreeSet.mem_union_iff, List.mem_flatMap]

omit [BloomHash] in
theorem openCandidates_nodup (state : State) : (openCandidates chain state).Nodup :=
  (HashSet.nodup_toList _).sublist List.filter_sublist

/-- A schedule asks for open candidates only. -/
theorem openCandidates_schedule (state : State) {candidate : ProtocolPoolKey}
    (still : candidate ∈ openCandidates chain
      (scheduleUnknownCanonicalRequests chain (state, [])).1) :
    candidate ∈ openCandidates chain state := by
  have issues := issues_schedule chain (state, [])
  rw [mem_openCandidates] at still ⊢
  rw [issues.blocks, issues.poolRegistry] at still
  refine ⟨?_, still.2⟩
  rcases still.1 with ⟨⟨kind, id, payload⟩, inFlight, named⟩ | present
  · obtain rfl := named.kind
    obtain ⟨issued, -, evolves, sort⟩ := issues.issued
    rcases evolves.inFlight _ inFlight with membership | earlier
    · exact .inr ((sort _ membership).2 candidate named).2
    · exact .inl ⟨_, earlier, named⟩
  · exact .inr present

variable (chain) in
/-- An answered token or state request leaves the open candidates open at most. -/
theorem answered_open {state : State} {kind : RequestKind} (id : UInt64)
    {apply_ : State → kind.Payload → State}
    (pending : ∀ state payload, (apply_ state payload).pendingRequests = state.pendingRequests)
    (graph : ∀ state payload, (apply_ state payload).blocks.graph = state.blocks.graph)
    (registry : ∀ state payload, (apply_ state payload).poolRegistry = state.poolRegistry) :
    (∀ candidate ∈ openCandidates chain (answered chain state kind id apply_).1,
        candidate ∈ openCandidates chain state) ∧
      (answered chain state kind id apply_).1.blocks.graph = state.blocks.graph ∧
      metadataRequests (answered chain state kind id apply_).2 ≤
        state.blocks.graph.poolLogCandidatesFromHead.length := by
  have taken : ∀ candidate ∈ openCandidates chain (state.take kind id).1,
      candidate ∈ openCandidates chain state := by
    intro candidate still
    rw [mem_openCandidates] at still ⊢
    exact ⟨still.1.imp_left (fun covers => covers.of_evolves (evolves_take state kind id)), still.2⟩
  by_cases waiting : ∃ payload, state.pendingRequests.InFlight ⟨kind, id, payload⟩
  · obtain ⟨payload, inFlight⟩ := waiting
    rw [answered_inFlight chain inFlight]
    have kept := graph (state.take kind id).1 payload
    refine ⟨fun candidate still => taken candidate ?_, ?_, ?_⟩
    · have opened := openCandidates_schedule _ still
      rw [mem_openCandidates] at opened ⊢
      rwa [pending, registry, kept] at opened
    · rw [(issues_schedule chain _).blocks]
      exact kept
    · have asked := metadataRequests_schedule chain
        (apply_ (state.take kind id).1 payload, [])
      rw [kept] at asked
      simpa [metadataRequests, State.take] using asked
  · rw [answered_stale chain (fun payload inFlight => waiting ⟨payload, inFlight⟩)]
    exact ⟨taken, rfl, Nat.zero_le _⟩

omit [BloomHash] in
variable (chain) in
theorem length_open_le {state state' : State}
    (fewer : ∀ candidate ∈ openCandidates chain state', candidate ∈ openCandidates chain state) :
    (openCandidates chain state').length ≤ (openCandidates chain state).length :=
  ((openCandidates_nodup state').subperm fewer).length_le

/-- A completely answered metadata request leaves fewer candidates open. -/
theorem metadataReceived_open {state : State} (awaited : MetadataAwaited chain state) {id : UInt64}
    {payload : GetPoolMetadata}
    (inFlight : state.pendingRequests.InFlight ⟨.poolMetadata, id, payload⟩)
    {metadata : HashMap ProtocolPoolKey PoolMetadataResult}
    (complete : ∀ candidate ∈ payload.candidates, candidate ∈ metadata) :
    (openCandidates chain (transition chain state (.poolMetadataReceived id metadata)).1).length <
        (openCandidates chain state).length ∧
      (transition chain state (.poolMetadataReceived id metadata)).1.blocks = state.blocks ∧
      metadataRequests (transition chain state (.poolMetadataReceived id metadata)).2 ≤
        state.blocks.graph.poolLogCandidatesFromHead.length := by
  obtain ⟨⟨answered, requested⟩, unknown⟩ := awaited.awaits _ inFlight
  have opened : answered ∈ openCandidates chain state :=
    (mem_openCandidates state answered).mpr ⟨.inl ⟨_, inFlight, requested⟩, unknown answered requested⟩
  have closed : answered ∉
      openCandidates chain (transition chain state (.poolMetadataReceived id metadata)).1 := by
    intro still
    have known := (isKnown_metadataReceived chain inFlight metadata answered).mpr
      (.inl ⟨complete answered requested, requested⟩)
    rw [((mem_openCandidates _ answered).mp still).2] at known
    exact Bool.false_ne_true known
  refine ⟨?_, ?_, ?_⟩
  · have distinct := List.nodup_cons.mpr ⟨closed, openCandidates_nodup _⟩
    have fewer : (answered :: openCandidates chain
        (transition chain state (.poolMetadataReceived id metadata)).1) ⊆
        openCandidates chain state := by
      apply List.cons_subset.mpr ⟨opened, fun candidate still => ?_⟩
      rw [transition_metadataReceived inFlight] at still
      have applied := openCandidates_schedule _ still
      rw [mem_openCandidates] at applied ⊢
      refine ⟨applied.1.imp_left (fun covers => covers.of_evolves (evolves_take state _ id)), ?_⟩
      rw [← Bool.not_eq_true] at applied ⊢
      exact fun known => applied.2 ((isKnown_metadataApplied state id payload metadata candidate).mpr
        (.inr known))
    exact (distinct.subperm fewer).length_le
  · rw [transition_metadataReceived inFlight, (issues_schedule chain _).blocks]
    rfl
  · rw [transition_metadataReceived inFlight]
    have asked := metadataRequests_schedule chain
      (metadataApplied chain state id payload metadata, [])
    have kept : (metadataApplied chain state id payload metadata).blocks = state.blocks := rfl
    simpa [metadataRequests, kept] using asked

end Open

section Loop

variable [BloomHash] [MetadataAbi] [PoolKeyHash] {runtime : Runtime} {chain : ChainKey}

/-- The answers the loop of kernel and runtime is driven by: a metadata request in flight
is answered by a resolution that serves its candidates, tokens and pool states are
answered in any way, and nothing else happens. -/
def LoopAnswer (runtime : Runtime) (chain : ChainKey) (state : State) : Event → Prop
  | .poolMetadataReceived id metadata =>
    ∀ payload, state.pendingRequests.InFlight ⟨.poolMetadata, id, payload⟩ →
      ∃ outside resolution, runtime.poolMetadata outside chain payload.candidates = .ok resolution ∧
        metadata = resolution.results ∧
        ∀ candidate ∈ payload.candidates,
          Served runtime outside chain payload.candidates candidate
  | .tokenMetadataReceived _ _ => True
  | .poolDataReceived _ _ => True
  | _ => False

/-- The number of answers to other requests than those for pool metadata. -/
def otherAnswers (events : List Event) : Nat :=
  events.countP (fun event =>
    match event with
    | .poolMetadataReceived _ _ => false
    | _ => true)

omit [BloomHash] [MetadataAbi] [PoolKeyHash] in
theorem otherAnswers_append (first second : List Event) :
    otherAnswers (first ++ second) = otherAnswers first + otherAnswers second :=
  List.countP_append

omit [MetadataAbi] [PoolKeyHash] in
/-- An answer to a token or state request asks at most once about each block. -/
theorem otherAnswer_open {state : State} {event : Event} {kind : RequestKind} {id : UInt64}
    {apply_ : State → kind.Payload → State}
    (handled : transition chain state event = answered chain state kind id apply_)
    (pending : ∀ state payload, (apply_ state payload).pendingRequests = state.pendingRequests)
    (graph : ∀ state payload, (apply_ state payload).blocks.graph = state.blocks.graph)
    (registry : ∀ state payload, (apply_ state payload).poolRegistry = state.poolRegistry) :
    (transition chain state event).1.blocks.graph = state.blocks.graph ∧
      metadataRequests (transition chain state event).2 +
          state.blocks.graph.poolLogCandidatesFromHead.length *
            (openCandidates chain (transition chain state event).1).length ≤
        state.blocks.graph.poolLogCandidatesFromHead.length *
          ((openCandidates chain state).length + 1) := by
  obtain ⟨fewer, kept, asked⟩ := answered_open chain id pending graph registry
  rw [handled]
  refine ⟨kept, ?_⟩
  have shrinks := Nat.mul_le_mul_left state.blocks.graph.poolLogCandidatesFromHead.length
    (length_open_le chain fewer)
  rw [Nat.mul_succ]
  omega

/-- Each answer opens nothing, and each complete answer to a metadata request closes something. -/
theorem loopAnswer_open {state : State} (awaited : MetadataAwaited chain state) {event : Event}
    (allowed : LoopAnswer runtime chain state event) :
    (transition chain state event).1.blocks.graph = state.blocks.graph ∧
      metadataRequests (transition chain state event).2 +
          state.blocks.graph.poolLogCandidatesFromHead.length *
            (openCandidates chain (transition chain state event).1).length ≤
        state.blocks.graph.poolLogCandidatesFromHead.length *
          ((openCandidates chain state).length + otherAnswers [event]) := by
  cases event with
  | poolMetadataReceived id metadata =>
    have counted : otherAnswers [.poolMetadataReceived id metadata] = 0 := rfl
    rw [counted, Nat.add_zero]
    by_cases waiting : ∃ payload, state.pendingRequests.InFlight ⟨.poolMetadata, id, payload⟩
    · obtain ⟨payload, inFlight⟩ := waiting
      obtain ⟨outside, resolution, resolved, rfl, served⟩ := allowed payload inFlight
      have complete : ∀ candidate ∈ payload.candidates, candidate ∈ resolution.results :=
        fun candidate requested =>
          (mem_poolMetadata resolved requested).mpr (served candidate requested)
      obtain ⟨closes, kept, asked⟩ := metadataReceived_open awaited inFlight complete
      refine ⟨congrArg Blocks.graph kept, ?_⟩
      have shrinks := Nat.mul_le_mul_left state.blocks.graph.poolLogCandidatesFromHead.length
        (Nat.succ_le_of_lt closes)
      rw [Nat.mul_succ] at shrinks
      omega
    · have stale : transition chain state (.poolMetadataReceived id metadata) =
          ((state.take .poolMetadata id).1, []) := by
        rw [transition_of_output rfl]
        exact answered_stale chain (fun payload inFlight => waiting ⟨payload, inFlight⟩) _
      rw [stale]
      refine ⟨rfl, ?_⟩
      have fewer : ∀ candidate ∈ openCandidates chain (state.take .poolMetadata id).1,
          candidate ∈ openCandidates chain state := by
        intro candidate still
        rw [mem_openCandidates] at still ⊢
        exact ⟨still.1.imp_left (fun covers => covers.of_evolves (evolves_take state _ id)), still.2⟩
      simpa [metadataRequests] using Nat.mul_le_mul_left _ (length_open_le chain fewer)
  | tokenMetadataReceived id metadata =>
    exact otherAnswer_open (transition_of_output rfl) (fun _ _ => rfl) (fun _ _ => rfl)
      (fun _ _ => rfl)
  | poolDataReceived id pools =>
    refine otherAnswer_open (transition_of_output rfl) (fun _ _ => rfl) (fun state payload => ?_)
      (fun _ _ => rfl)
    unfold State.withFinalizedPoolSeeds Blocks.withFinalizedPoolSeeds
    split <;> rfl
  | _ => exact absurd allowed id

/-- A run of the loop asks at most once about each block for every open candidate and for
every answer to another request. -/
theorem loop_requests {state : State} (awaited : MetadataAwaited chain state) {events : List Event}
    (permitted : AllowedAlong (transition chain) (LoopAnswer runtime chain) state events) :
    metadataRequests (run (transition chain) state events).2 ≤
      state.blocks.graph.poolLogCandidatesFromHead.length *
        ((openCandidates chain state).length + otherAnswers events) := by
  induction events generalizing state with
  | nil => exact Nat.zero_le _
  | cons event events inductionHypothesis =>
    obtain ⟨kept, first⟩ := loopAnswer_open awaited permitted.1
    have rest := inductionHypothesis (transition_metadataAwaited awaited event) permitted.2
    have counted : otherAnswers (event :: events) = otherAnswers [event] + otherAnswers events :=
      otherAnswers_append [event] events
    have joined : metadataRequests (run (transition chain) state (event :: events)).2 =
        metadataRequests (transition chain state event).2 +
          metadataRequests (run (transition chain) (transition chain state event).1 events).2 :=
      metadataRequests_append _ _
    rw [kept, Nat.mul_add] at rest
    rw [joined, counted, ← Nat.add_assoc, Nat.mul_add]
    omega

/-- The answer to a metadata request makes its served candidates known and no other, and
what is known is never asked for again, from the answering transition on. Where every
candidate is served, the loop asks at most once about each block of the present chain
for every candidate open at its start, and for every answer to another request. -/
theorem metadata_discovery_settles (runtime : Runtime) {state : State}
    (reached : Reached chain state) :
    (∀ id payload, state.pendingRequests.InFlight ⟨.poolMetadata, id, payload⟩ →
      ∀ outside resolution, runtime.poolMetadata outside chain payload.candidates = .ok resolution →
        ∀ candidate ∈ payload.candidates,
          ((transition chain state
              (.poolMetadataReceived id resolution.results)).1.poolRegistry.isKnown chain
                candidate = true ↔
            Served runtime outside chain payload.candidates candidate) ∧
          (Served runtime outside chain payload.candidates candidate → ∀ events,
            NeverRequested candidate (run (transition chain) state
              (.poolMetadataReceived id resolution.results :: events)).2)) ∧
      ∀ events, AllowedAlong (transition chain) (LoopAnswer runtime chain) state events →
        metadataRequests (run (transition chain) state events).2 ≤
          state.blocks.graph.poolLogCandidatesFromHead.length *
            ((openCandidates chain state).length + otherAnswers events) := by
  have awaited := reached.metadataAwaited
  refine ⟨?_, fun events permitted => loop_requests awaited permitted⟩
  intro id payload inFlight outside resolution resolved candidate requested
  have known : (transition chain state
      (.poolMetadataReceived id resolution.results)).1.poolRegistry.isKnown chain
        candidate = true ↔ Served runtime outside chain payload.candidates candidate := by
    rw [isKnown_metadataReceived chain inFlight, mem_poolMetadata resolved requested]
    have unknown := (awaited.awaits _ inFlight).2 candidate requested
    simp [unknown, requested]
  exact ⟨known, fun served events => known_never_requested awaited (known.mpr served) events⟩

end Loop

/-! ### A pool of each protocol, resolved -/

/-- A block with a swap of a pool asks for the pool's metadata under identifier 1. -/
def discoveryEvents (key : ProtocolPoolKey) : List Event :=
  [.headObserved 0x11 0x10 0 101, .logObserved 0x11 [{ sampleSwap with pool := key }]]

def discovered (key : ProtocolPoolKey) : State :=
  letI : BloomHash := BloomHash.tabulated
  (run (transition .ethereum) (State.init 0x10 100) (discoveryEvents key)).1

theorem discovered_reached (key : ProtocolPoolKey) :
    letI : BloomHash := BloomHash.tabulated
    Reached .ethereum (discovered key) := by
  let _ : BloomHash := BloomHash.tabulated
  have permitted (state : State) (events : List Event) :
      AllowedAlong (transition .ethereum) (fun _ _ => True) state events := by
    induction events generalizing state with
    | nil => exact trivial
    | cons event events inductionHypothesis => exact ⟨trivial, inductionHypothesis _⟩
  exact Reachable.run (.init ⟨[], .init 0x10 100⟩) _ (permitted _ _)

/-- One endpoint for each kind of request, an empty cache, and a pool the chain knows. -/
def outsideOf (pools : List Client.SubgraphPool) : Surroundings where
  loadCache _ := .ok ∅
  endpoints := ⟨(∅ : HashMap ChainKey Client.EndpointPool).insert .ethereum [⟨"rpc", "rpc"⟩]⟩
  candidateRound _ calls := .ok (if calls.isEmpty then [] else
    [⟨true, Client.wordBytes 1⟩, ⟨true, Client.wordBytes 2⟩, ⟨true, Client.wordBytes 500⟩])
  factoryRound _ _ :=
    .ok [⟨true, Client.wordBytes 0x88e6a0c2ddd26feeb64f039a2c41296fcb3f5640⟩]
  graphEndpoints := ⟨(∅ : HashMap ChainKey Client.EndpointPool).insert .ethereum [⟨"graph", "graph"⟩]⟩
  sendGraphqlRequest _ _ := .ok (.ok ⟨some ⟨pools⟩, none⟩)
  tokenWhitelist := none

/-- The request both discoveries put in flight. -/
def discoveryRequest (key : ProtocolPoolKey) : GetPoolMetadata where
  at_ := 0x11
  candidates := HashSet.collect [key]

def rpcResolution : Resolution :=
  letI : MetadataAbi := MetadataAbi.words
  letI : PoolKeyHash := ⟨fun _ => 0⟩
  match Runtime.aaServer.poolMetadata (outsideOf []) .ethereum (discoveryRequest sampleKey).candidates with
  | .ok resolution => resolution
  | .error _ => ⟨∅, ∅⟩

/-- A v3 pool read over RPC is known after its answer, is never asked for again, and the
loop that answers it asks about one block at most once. -/
theorem metadata_discovery_settles_rpc :
    letI : BloomHash := BloomHash.tabulated
    let answer : Event := .poolMetadataReceived 1 rpcResolution.results
    (transition .ethereum (discovered sampleKey) answer).1.poolRegistry.isKnown .ethereum
        sampleKey = true ∧
      NeverRequested sampleKey (run (transition .ethereum) (discovered sampleKey) [answer]).2 ∧
      metadataRequests (run (transition .ethereum) (discovered sampleKey) [answer]).2 ≤ 1 := by
  let _ : BloomHash := BloomHash.tabulated
  let _ : MetadataAbi := MetadataAbi.words
  let _ : PoolKeyHash := ⟨fun _ => 0⟩
  intro answer
  have settles := @metadata_discovery_settles BloomHash.tabulated MetadataAbi.words ⟨fun _ => 0⟩
    .ethereum .aaServer _ (discovered_reached sampleKey)
  have inFlight : (discovered sampleKey).pendingRequests.InFlight
      ⟨.poolMetadata, 1, discoveryRequest sampleKey⟩ := ⟨Tick.initial, by rfl⟩
  have resolved : Runtime.aaServer.poolMetadata (outsideOf []) .ethereum
      (discoveryRequest sampleKey).candidates = .ok rpcResolution := by
    rfl
  have requested : sampleKey ∈ (discoveryRequest sampleKey).candidates := by decide +kernel
  have served : Served .aaServer (outsideOf []) .ethereum (discoveryRequest sampleKey).candidates
      sampleKey := .inr (.inl rfl)
  obtain ⟨known, never⟩ := settles.1 1 _ inFlight _ _ resolved sampleKey requested
  have allowed : LoopAnswer .aaServer .ethereum (discovered sampleKey) answer := by
    intro payload waiting
    obtain rfl := RequestStore.inFlight_functional waiting inFlight
    refine ⟨outsideOf [], rpcResolution, resolved, rfl, fun candidate requested => ?_⟩
    obtain rfl : candidate = sampleKey := by simpa [discoveryRequest] using requested
    exact served
  have bounded := settles.2 [answer] ⟨allowed, trivial⟩
  have single : (discovered sampleKey).blocks.graph.poolLogCandidatesFromHead.length *
      ((openCandidates .ethereum (discovered sampleKey)).length + otherAnswers [answer]) = 1 := by
    decide +kernel
  rw [single] at bounded
  exact ⟨known.mpr served, never served [], bounded⟩

def asksFor (key : ProtocolPoolKey) : Effect → Bool
  | ⟨.poolMetadata, _, payload⟩ => payload.candidates.contains key
  | _ => false

theorem names_of_asksFor {key : ProtocolPoolKey} {request : Effect}
    (asks : asksFor key request = true) :
    Names request.kind request.requestPayload (.candidate key) := by
  obtain ⟨kind, id, payload⟩ := request
  cases kind with
  | poolMetadata => exact Std.ExtTreeSet.contains_iff_mem.mp asks
  | _ => exact absurd asks Bool.false_ne_true

def unindexedKey : ProtocolPoolKey :=
  .uniswapV4 0x21c67e77068de97969ba93d4aab21826d33ca12bb9f565d8496e8fda8a82ca27

/-- A v4 pool the subgraph does not return stays unknown, and the transition that takes
the answer asks for it again. -/
theorem unindexed_pool_is_requested_again :
    letI : BloomHash := BloomHash.tabulated
    letI : MetadataAbi := MetadataAbi.words
    letI : PoolKeyHash := ⟨fun _ => 0⟩
    let resolution : Resolution := ⟨∅, ∅⟩
    let result := transition .ethereum (discovered unindexedKey)
      (.poolMetadataReceived 1 resolution.results)
    Reached .ethereum (discovered unindexedKey) ∧
      (discovered unindexedKey).pendingRequests.InFlight
        ⟨.poolMetadata, 1, discoveryRequest unindexedKey⟩ ∧
      Runtime.aaCli.poolMetadata (outsideOf []) .ethereum
        (discoveryRequest unindexedKey).candidates = .ok resolution ∧
      result.1.poolRegistry.isKnown .ethereum unindexedKey = false ∧
      ∃ request ∈ result.2,
        Names request.kind request.requestPayload (.candidate unindexedKey) := by
  let _ : BloomHash := BloomHash.tabulated
  let _ : MetadataAbi := MetadataAbi.words
  let _ : PoolKeyHash := ⟨fun _ => 0⟩
  intro resolution result
  have again : result.2.any (asksFor unindexedKey) = true := by decide +kernel
  obtain ⟨request, issued, asks⟩ := List.any_eq_true.mp again
  exact ⟨discovered_reached unindexedKey, ⟨Tick.initial, rfl⟩, rfl, by decide +kernel, request,
    issued, names_of_asksFor asks⟩

end ArmchairAnalyst.Kernel

import ArmchairAnalyst.Bootstrap.Paging
import ArmchairAnalyst.Client.MetadataCache
import ArmchairAnalyst.Kernel.Execution
import ArmchairAnalyst.Library.EffectLoop
import ArmchairAnalyst.MultiChain.Isolation

/-!
# The client and its workers

The requests of all chains share one pool of workers and one channel. In every order of
their steps each request in flight is being executed or its answer is on the way, so that
no chain waits in vain and a bootstrap always goes on.
-/

namespace ArmchairAnalyst

/-! ### Answers to a bootstrap -/

namespace Bootstrap

open RequestStore (Evolves Expects)

/-- The request that an event answers, or reports as failed. -/
def Event.answered? : Event → Option RequestId
  | .finalizedHeaderReceived requestId _ => some ⟨.finalizedHeader, requestId⟩
  | .poolCandidatesReceived requestId _ _ _ => some ⟨.poolCandidates, requestId⟩
  | .poolMetadataReceived requestId _ => some ⟨.poolMetadata, requestId⟩
  | .tokenMetadataReceived requestId _ => some ⟨.tokenMetadata, requestId⟩
  | .requestFailed requestId => some requestId
  | .tick _ => none

variable [FillerHash] {chain : ChainKey} {state : State}

omit [FillerHash] in
theorem answered_of_answer {event : Event} {requestId : UInt64} {kind : RequestKind}
    {answer : kind.Answer} (answers : event.answer? = some ⟨requestId, kind, answer⟩) :
    event.answered? = some ⟨kind, requestId⟩ := by
  cases event with
  | requestFailed _ | tick _ => cases answers
  | finalizedHeaderReceived _ _ | poolCandidatesReceived _ _ _ _ | poolMetadataReceived _ _
  | tokenMetadataReceived _ _ =>
    obtain ⟨rfl, same⟩ := Prod.mk.inj (Option.some.inj answers)
    obtain ⟨rfl, -⟩ := Sigma.mk.inj same
    rfl

/-- Whatever is in flight after a step was issued by it, or was in flight before and is not
what the event names. -/
theorem transition_settles (event : Event) {request : IssuedRequest}
    (inFlight : (transition chain state event).1.pending.InFlight request) :
    (state.pending.InFlight request ∧
      event.answered? ≠ some ⟨request.kind, request.requestId⟩) ∨
      request ∈ (transition chain state event).2 := by
  cases answers : event.answer? with
  | some answer =>
    obtain ⟨requestId, kind, answer⟩ := answer
    rcases (answer_evolves answers).inFlight request inFlight with issued | earlier
    · exact .inr issued
    · rw [answered_of_answer answers]
      have settled := state.pending.take_settles earlier
      exact .inl ⟨settled.1, fun same => settled.2 (Option.some.inj same)⟩
  | none =>
    cases event with
    | requestFailed failed =>
      refine (RequestStore.retry_settles state.pending failed state.tick inFlight).imp_left ?_
      exact fun before => ⟨before.1, fun same => before.2 (Option.some.inj same)⟩
    | tick order =>
      rcases (transition_evolves (.tick order)).inFlight request inFlight with issued | before
      · exact .inr issued
      · exact .inl ⟨before, by simp [Event.answered?]⟩
    | finalizedHeaderReceived _ _ | poolCandidatesReceived _ _ _ _ | poolMetadataReceived _ _
    | tokenMetadataReceived _ _ => cases answers

end Bootstrap

namespace MultiChain

open Bootstrap (FillerHash RangeLogBlock)
open Client (ClientEvmError MetadataCacheError)

/-! ### Execution -/

/-- What the effects of the client are executed with. -/
structure ClientReads where
  fetchers : ChainKey → Kernel.Fetchers
  fetchFinalizedBlockHeader : ChainKey → Except ClientEvmError (Option ClientHead)
  fetchPoolCandidatesWindow : ChainKey → UInt64 → Option UInt64 →
    Except ClientEvmError (List RangeLogBlock × UInt64 × Option UInt64)
  loadPoolCandidates : ChainKey → Except MetadataCacheError (HashSet ProtocolPoolKey)

/-- The candidates of a scan with all pools that the cache knows. -/
def ClientReads.widened (reads : ClientReads) (chain : ChainKey)
    (candidates : HashSet ProtocolPoolKey) : HashSet ProtocolPoolKey :=
  match reads.loadPoolCandidates chain with
  | .ok known => candidates ∪ known
  | .error _ => candidates

def executeBootstrapEffect (reads : ClientReads) (chain : ChainKey) :
    Bootstrap.Effect → Bootstrap.Event
  | ⟨.finalizedHeader, requestId, _⟩ =>
    match reads.fetchFinalizedBlockHeader chain with
    | .ok (some header) =>
      .finalizedHeaderReceived requestId { hash := header.hash, number := header.number }
    | .ok none => .requestFailed ⟨.finalizedHeader, requestId⟩
    | .error _ => .requestFailed ⟨.finalizedHeader, requestId⟩
  | ⟨.poolCandidates, requestId, payload⟩ =>
    match reads.fetchPoolCandidatesWindow chain payload.fromBlock payload.scanTip with
    | .ok (blocks, scanTip, nextFrom) => .poolCandidatesReceived requestId blocks scanTip nextFrom
    | .error _ => .requestFailed ⟨.poolCandidates, requestId⟩
  | ⟨.poolMetadata, requestId, payload⟩ =>
    match (reads.fetchers chain).fetchPoolMetadata payload.at_
        (reads.widened chain payload.candidates) with
    | .ok metadata => .poolMetadataReceived requestId metadata
    | .error _ => .requestFailed ⟨.poolMetadata, requestId⟩
  | ⟨.tokenMetadata, requestId, payload⟩ =>
    match (reads.fetchers chain).fetchTokenMetadata payload.at_ payload.tokens with
    | .ok metadata => .tokenMetadataReceived requestId metadata
    | .error _ => .requestFailed ⟨.tokenMetadata, requestId⟩

theorem executeBootstrapEffect_answered (reads : ClientReads) (chain : ChainKey)
    (request : Bootstrap.IssuedRequest) :
    (executeBootstrapEffect reads chain request).answered? =
      some ⟨request.kind, request.requestId⟩ := by
  obtain ⟨kind, requestId, payload⟩ := request
  cases kind <;> simp only [executeBootstrapEffect] <;> split <;> rfl

def executeChainEffect (reads : ClientReads) (chain : ChainKey) (effect : Kernel.Effect) : Event :=
  .chainEvent chain (Kernel.executeRequestWith (reads.fetchers chain) effect)

section

variable [ReserveProjection]

/-- A snapshot is handed to the optimizer, which answers on a feed of its own. -/
def executeEffect (reads : ClientReads) : Effect → List Event
  | .fetchFinalizedHeader chain =>
    match reads.fetchFinalizedBlockHeader chain with
    | .ok (some header) => [.finalizedHeaderReceived chain header.hash header.number]
    | .ok none => [.finalizedHeaderUnavailable chain]
    | .error _ => [.finalizedHeaderUnavailable chain]
  | .chainEffect chain effect => [executeChainEffect reads chain effect]
  | .bootstrapEffect chain effect =>
    [.bootstrapEvent chain (executeBootstrapEffect reads chain effect)]
  | .runOptimization _ => []

def Executes (effect : Effect) (events : List Event) : Prop :=
  ∃ reads, events = executeEffect reads effect

end

/-- The events of the subscriptions. -/
inductive Feeds : Event → Prop
  | subscriptionData (chain : ChainKey) (data : SubscriptionData) :
    Feeds (.subscriptionData chain data)
  | optimizationStepCompleted : Feeds .optimizationStepCompleted
  | tick (orders : ChainKey → IterationOrder) : Feeds (.tick orders)

variable [BloomHash] [ReserveProjection] [FillerHash]

/-- The loops that the client reaches over some chains, with the events it has taken. -/
def LoopReached (chains : List ChainKey) : List Event → EffectLoop State Event Effect → Prop :=
  EffectLoop.Reached transition Executes Feeds (State.init chains)

/-! ### A sample start -/

/-- A head arrives before the finalized header, and no pool is found. -/
def startEvents : List Event :=
  [.subscriptionData .ethereum (.newHead 0x12 0x11 0 102),
    .bootstrapEvent .ethereum (.finalizedHeaderReceived 1 ⟨0x10, 100⟩),
    .bootstrapEvent .ethereum (.poolCandidatesReceived 2 [] 100 none),
    .bootstrapEvent .ethereum (.poolMetadataReceived 3 ∅),
    .bootstrapEvent .ethereum (.tokenMetadataReceived 4 ∅)]

def startReads : ClientReads where
  fetchers _ :=
    { fetchBlockHeader := fun _ => .ok none
      fetchBlockLogs := fun _ => .ok []
      fetchPoolMetadata := fun _ _ => .ok ∅
      fetchTokenMetadata := fun _ _ => .ok ∅
      fetchPoolData := fun _ _ => .ok ∅
      fetchLogsRange := fun _ _ => .ok []
      fetchCanonicalHeader := fun _ => .ok none }
  fetchFinalizedBlockHeader _ := .ok (some ⟨0x10, 0x0F, 0, 100⟩)
  fetchPoolCandidatesWindow _ _ _ := .ok ([], 100, none)
  loadPoolCandidates _ := .ok ∅

/-- The state after some of the events. -/
def startState (count : Nat) : State :=
  (run transition (State.init [.ethereum]).1 (startEvents.take count)).1

/-- The only effect is executed, and the client takes its answer. -/
theorem LoopReached.answered {chains : List ChainKey} {taken : List Event} {state : State}
    {effect : Effect} {sending : List (List Event)}
    (reached : LoopReached chains taken ⟨state, [effect], sending, []⟩) {event : Event}
    (executed : executeEffect startReads effect = [event]) :
    LoopReached chains (taken ++ [event])
      ⟨(transition state event).1, (transition state event).2, [] :: sending, []⟩ :=
  EffectLoop.Reached.step (EffectLoop.Reached.deliver reached ⟨startReads, executed.symm⟩) .receive

theorem anchoring : LoopReached [.ethereum] (startEvents.take 1)
    ⟨startState 1, [.bootstrapEffect .ethereum ⟨.finalizedHeader, 1, {}⟩], [], []⟩ :=
  .step (.step .start (.feed (.subscriptionData .ethereum (.newHead 0x12 0x11 0 102)))) .receive

theorem discovering : LoopReached [.ethereum] (startEvents.take 2)
    ⟨startState 2, [.bootstrapEffect .ethereum ⟨.poolCandidates, 2, ⟨100, none⟩⟩], [[]], []⟩ :=
  anchoring.answered rfl

theorem validating : LoopReached [.ethereum] (startEvents.take 3)
    ⟨startState 3, [.bootstrapEffect .ethereum ⟨.poolMetadata, 3, ⟨0x10, ∅⟩⟩], [[], []], []⟩ :=
  discovering.answered rfl

theorem started : ∃ loop, LoopReached [.ethereum] startEvents loop := by
  have resolving : LoopReached [.ethereum] (startEvents.take 4)
      ⟨startState 4, [.bootstrapEffect .ethereum ⟨.tokenMetadata, 4, ⟨0x10, ∅⟩⟩], [[], [], []], []⟩ :=
    validating.answered rfl
  exact ⟨_, resolving.answered rfl⟩

/-! ### What a chain waits for -/

inductive ChainRequest
  | bootstrap (request : Bootstrap.IssuedRequest)
  | kernel (request : Kernel.IssuedRequest)

def ChainRequest.effect (chain : ChainKey) : ChainRequest → Effect
  | bootstrap request => .bootstrapEffect chain request
  | kernel request => .chainEffect chain request

/-- The request is in flight in the chain's current lifecycle. -/
def Waits : Option ChainLifecycle → ChainRequest → Prop
  | some (.bootstrapping state _), .bootstrap request => state.pending.InFlight request
  | some (.active state), .kernel request => state.pendingRequests.InFlight request
  | _, _ => False

/-- The input names the request. -/
def Answers : ChainInput → ChainRequest → Prop
  | .bootstrap event, .bootstrap request =>
    event.answered? = some ⟨request.kind, request.requestId⟩
  | .kernel event, .kernel request => event.answered? = some ⟨request.kind, request.requestId⟩
  | _, _ => False

/-! ### One step of a chain -/

variable {chain : ChainKey} {request : ChainRequest}

omit [FillerHash] in
theorem kernelStep_settles {state : Kernel.State} {event : Kernel.Event}
    (waits : Waits (kernelStep chain state event).1 request) :
    (Waits (some (.active state)) request ∧ ¬ Answers (.kernel event) request) ∨
      request.effect chain ∈ (kernelStep chain state event).2 := by
  cases request with
  | bootstrap request => exact waits.elim
  | kernel request =>
    exact (Kernel.transition_settles chain state event waits).imp_right
      (fun issued => List.mem_map_of_mem issued)

omit [FillerHash] in
theorem refreshingStep_settles {state : Kernel.State} {event : Kernel.Event}
    (waits : Waits (refreshingStep chain state event).1 request) :
    (Waits (some (.active state)) request ∧ ¬ Answers (.kernel event) request) ∨
      request.effect chain ∈ (refreshingStep chain state event).2 := by
  rw [refreshingStep_active] at waits
  refine (kernelStep_settles waits).imp_right (fun issued => ?_)
  unfold kernelStep at issued
  unfold refreshingStep
  cases outcome : Kernel.transitionOutcome chain state event with
  | inert next =>
    rw [transition_inert outcome] at issued
    cases issued
  | progressed next effects =>
    rw [transition_progressed outcome] at issued
    exact List.mem_append_left _ issued

omit [FillerHash] in
/-- What is in flight after a replay was asked for before it or by it. -/
theorem replay_asked {state : Kernel.State} (buffered : List SubscriptionData)
    {earlier : List Effect}
    (asked : ∀ issued, state.pendingRequests.InFlight issued →
      Effect.chainEffect chain issued ∈ earlier) {issued : Kernel.IssuedRequest}
    (inFlight :
      (replayBufferedSubscriptionData chain state buffered).1.pendingRequests.InFlight issued) :
    Effect.chainEffect chain issued ∈
      earlier ++ (replayBufferedSubscriptionData chain state buffered).2 := by
  have start : ∀ issued, state.pendingRequests.InFlight issued →
      Effect.chainEffect chain issued ∈ earlier ++ [] := by simpa using asked
  clear asked
  unfold replayBufferedSubscriptionData at inFlight ⊢
  generalize ([] : List Effect) = effects at start inFlight ⊢
  induction buffered generalizing state effects with
  | nil => exact start issued inFlight
  | cons data buffered inductionHypothesis =>
    refine inductionHypothesis _ ?_ inFlight
    intro issued after
    rw [← List.append_assoc]
    rcases Kernel.transition_settles chain state data.intoKernelEvent after with before | now
    · exact List.mem_append_left _ (start issued before.1)
    · exact List.mem_append_right _ (List.mem_map_of_mem now)

theorem advanceBootstrap_settles {state : Bootstrap.State} {buffered : List SubscriptionData}
    {event : Bootstrap.Event}
    (waits : Waits (advanceBootstrap chain state buffered event).1 request) :
    (Waits (some (.bootstrapping state buffered)) request ∧ ¬ Answers (.bootstrap event) request) ∨
      request.effect chain ∈ (advanceBootstrap chain state buffered event).2 := by
  unfold advanceBootstrap at waits ⊢
  simp only at waits ⊢
  cases completed : Bootstrap.completion (Bootstrap.transition chain state event).1 with
  | none =>
    rw [completed] at waits
    cases request with
    | bootstrap request =>
      exact (Bootstrap.transition_settles event waits).imp_right
        (fun issued => List.mem_map_of_mem issued)
    | kernel request => exact waits.elim
  | some completion =>
    rw [completed] at waits
    cases completion with
    | abandoned => exact waits.elim
    | ready outcome =>
      cases request with
      | bootstrap request => exact waits.elim
      | kernel request =>
        -- The kernel is new, so that whatever is in flight was asked for in this step.
        have starts := Kernel.Starts.activateFromSeed outcome.anchor.hash outcome.anchor.number
          outcome.poolSnapshots outcome.poolRegistry outcome.tokenRegistry outcome.seedBlocks
        refine .inr (replay_asked buffered (fun issued before => ?_) waits)
        refine List.mem_append_right _ (List.mem_map_of_mem ?_)
        exact (starts.evolves.inFlight issued before).resolve_right
          (RequestStore.not_inFlight_new issued)

/-- Whatever a chain waits for after a step was asked for in it, or was waited for before
and is not what the step brought. -/
theorem chainStep_settles (lifecycle : Option ChainLifecycle) (input : ChainInput)
    (waits : Waits (chainStep chain lifecycle input).1 request) :
    (Waits lifecycle request ∧ ¬ Answers input request) ∨
      request.effect chain ∈ (chainStep chain lifecycle input).2 := by
  cases lifecycle with
  | none => exact waits.elim
  | some lifecycle =>
    cases lifecycle with
    | bootstrapping state buffered =>
      cases input with
      | bootstrap event => exact advanceBootstrap_settles waits
      | tick order =>
        refine (advanceBootstrap_settles waits).imp_left (fun before => ⟨before.1, ?_⟩)
        cases request <;> exact id
      | data data | finalizedHeader hash number | kernel event =>
        cases request with
        | bootstrap request => exact .inl ⟨waits, id⟩
        | kernel request => exact waits.elim
    | active state =>
      cases input with
      | kernel event => exact refreshingStep_settles waits
      | data data =>
        refine (refreshingStep_settles waits).imp_left (fun before => ⟨before.1, ?_⟩)
        cases request <;> exact id
      | finalizedHeader hash number | tick order =>
        refine (kernelStep_settles waits).imp_left (fun before => ⟨before.1, ?_⟩)
        cases request <;> exact id
      | bootstrap event =>
        cases request with
        | bootstrap request => exact waits.elim
        | kernel request => exact .inl ⟨waits, id⟩

/-! ### A step of the client -/

/-- The event brings an answer to a request of a chain. -/
def Settles (event : Event) (chain : ChainKey) (request : ChainRequest) : Prop :=
  ∃ reads, executeEffect reads (request.effect chain) = [event]

omit [BloomHash] [FillerHash] in
theorem Settles.answers {event : Event} (settled : Settles event chain request) :
    ∃ input, event.concerns chain = some input ∧ Answers input request := by
  obtain ⟨reads, executed⟩ := settled
  cases request with
  | bootstrap request =>
    obtain ⟨rfl, -⟩ := List.cons.inj executed
    exact ⟨_, if_pos rfl, executeBootstrapEffect_answered reads chain request⟩
  | kernel request =>
    obtain ⟨rfl, -⟩ := List.cons.inj executed
    exact ⟨_, if_pos rfl, Kernel.executeRequestWith_answered (reads.fetchers chain) request⟩

theorem transition_settles (state : State) (event : Event)
    (waits : Waits (transition state event).1.chains[chain]? request) :
    (Waits state.chains[chain]? request ∧ ¬ Settles event chain request) ∨
      request.effect chain ∈ (transition state event).2 := by
  have seen := seenBy_transition state chain event
  have next := congrArg Prod.fst seen
  have own := congrArg Prod.snd seen
  simp only [seenBy] at next own
  rw [next] at waits
  cases concerned : event.concerns chain with
  | none =>
    rw [concerned] at waits
    refine .inl ⟨waits, fun settled => ?_⟩
    obtain ⟨input, concerns, -⟩ := settled.answers
    rw [concerned] at concerns
    cases concerns
  | some input =>
    rw [concerned] at waits own
    rcases chainStep_settles _ input waits with ⟨before, unanswered⟩ | issued
    · refine .inl ⟨before, fun settled => ?_⟩
      obtain ⟨input', concerns, answers⟩ := settled.answers
      obtain rfl := Option.some.inj (concerned.symm.trans concerns)
      exact unanswered answers
    · rw [Option.elim_some] at own
      rw [← own] at issued
      exact .inr (List.mem_filter.mp issued).1

omit [BloomHash] [FillerHash] in
/-- A client starts with one request for each of its chains. -/
theorem init_asked (chains : List ChainKey)
    (waits : Waits (State.init chains).1.chains[chain]? request) :
    request.effect chain ∈ (State.init chains).2 := by
  unfold State.init at waits ⊢
  generalize begin : (({ chains := ∅, lastOptimizedBlock := ∅ }, []) : State × List Effect) =
    result at waits ⊢
  have asked : ∀ chain request, Waits result.1.chains[chain]? request →
      request.effect chain ∈ result.2 := by
    rw [← begin]
    intro chain request waits
    rw [Std.ExtTreeMap.getElem?_empty] at waits
    exact waits.elim
  clear begin
  induction chains generalizing result with
  | nil => exact asked chain request waits
  | cons other chains inductionHypothesis =>
    refine inductionHypothesis _ waits ?_
    intro chain request waits
    simp only [HashMap.getElem?_insert] at waits
    split at waits
    · rename_i same
      subst same
      cases request with
      | kernel request => exact waits.elim
      | bootstrap request =>
        have first : RequestStore.Evolves RequestStore.new
            (Bootstrap.init (bootstrapPolicy chain)).2
            (Bootstrap.init (bootstrapPolicy chain)).1.pending := by
          apply Bootstrap.advance_evolves
          rfl
        have issued := (first.inFlight request waits).resolve_right
          (RequestStore.not_inFlight_new request)
        exact List.mem_append_right _ (List.mem_map_of_mem issued)
    · exact List.mem_append_left _ (asked chain request waits)

theorem client_accounted (chains : List ChainKey) :
    EffectLoop.Accounted
      (fun state (awaited : ChainKey × ChainRequest) =>
        Waits state.chains[awaited.1]? awaited.2)
      (fun effect awaited => effect = awaited.2.effect awaited.1)
      (fun event awaited => Settles event awaited.1 awaited.2) transition Executes
      (State.init chains) where
  start awaited waits := ⟨_, init_asked chains waits, rfl⟩
  step state event awaited waits :=
    (transition_settles state event waits).imp_right (fun issued => ⟨_, issued, rfl⟩)
  answer effect events awaited carried executed := by
    subst carried
    obtain ⟨reads, rfl⟩ := executed
    obtain ⟨chain, request⟩ := awaited
    cases request with
    | bootstrap request => exact ⟨_, List.mem_cons_self, reads, rfl⟩
    | kernel request => exact ⟨_, List.mem_cons_self, reads, rfl⟩

variable {chains : List ChainKey} {taken : List Event} {loop : EffectLoop State Event Effect}

/-- In every order of steps whatever a chain waits for is being executed, or an answer to
it is on its way. -/
theorem requests_outstanding (reached : LoopReached chains taken loop)
    (waits : Waits loop.state.chains[chain]? request) :
    request.effect chain ∈ loop.executing ∨ ∃ event ∈ loop.queued, Settles event chain request := by
  have outstanding {awaited : ChainKey × ChainRequest}
      (waits : Waits loop.state.chains[awaited.1]? awaited.2) :=
    reached.outstanding (client_accounted chains) waits
  rcases @outstanding (chain, request) waits with ⟨effect, executed, rfl⟩ | queued
  · exact .inl executed
  · exact .inr queued

/-- The request for the parent of the first head. -/
abbrev parentRequest : Kernel.IssuedRequest := ⟨.blockHeader, 1, ⟨0x11⟩⟩

omit [BloomHash] [ReserveProjection] [FillerHash] in
/-- The kernel takes the head that has been kept for it. -/
theorem parentRequest_waits :
    letI : BloomHash := BloomHash.tabulated
    letI : ReserveProjection := ReserveProjection.unavailable
    letI : FillerHash := ⟨fun _ _ => 0⟩
    Waits (run transition (State.init [.ethereum]).1 startEvents).1.chains[ChainKey.ethereum]?
      (.kernel parentRequest) := by
  let _ : BloomHash := BloomHash.tabulated
  let _ : ReserveProjection := ReserveProjection.unavailable
  let _ : FillerHash := ⟨fun _ _ => 0⟩
  have unseeded (tipTrim : UInt64) :
      Bootstrap.GraphSeed.fromWindow ([] ++ []) ⟨0x10, 100⟩ tipTrim = ⟨[]⟩ := by
    simp [Bootstrap.GraphSeed.fromWindow, Bootstrap.recentBlocks]
  refine ⟨⟨0⟩, ?_⟩
  rw [unseeded]
  decide +kernel

omit [BloomHash] [ReserveProjection] [FillerHash] in
theorem requests_outstanding_started :
    letI : BloomHash := BloomHash.tabulated
    letI : ReserveProjection := ReserveProjection.unavailable
    letI : FillerHash := ⟨fun _ _ => 0⟩
    ∃ loop, LoopReached [.ethereum] startEvents loop ∧
      Waits loop.state.chains[ChainKey.ethereum]? (.kernel parentRequest) ∧
      (.chainEffect .ethereum parentRequest ∈ loop.executing ∨
        ∃ event ∈ loop.queued, Settles event .ethereum (.kernel parentRequest)) := by
  let _ : BloomHash := BloomHash.tabulated
  let _ : ReserveProjection := ReserveProjection.unavailable
  let _ : FillerHash := ⟨fun _ _ => 0⟩
  obtain ⟨loop, reached⟩ := started
  have waits : Waits loop.state.chains[ChainKey.ethereum]? (.kernel parentRequest) := by
    rw [reached.run]
    exact parentRequest_waits
  exact ⟨loop, reached, waits, requests_outstanding reached waits⟩

/-! ### Every bootstrap goes on -/

omit [BloomHash] [ReserveProjection] in
theorem leadsTo_awaited {tipTrim : UInt64} {exchanges : List Bootstrap.Exchange}
    {phase : Bootstrap.Phase} {expected : Option ((kind : Bootstrap.RequestKind) × kind.Payload)}
    (leads : Bootstrap.LeadsTo chain tipTrim exchanges phase expected) :
    phase.awaited = expected.map Sigma.fst := by
  cases leads <;> rfl

/-- A bootstrap that goes on has reached its phase by its exchanges. -/
def Underway (chain : ChainKey) : Option ChainLifecycle → Prop
  | some (.bootstrapping state _) =>
    Bootstrap.completion state = none ∧
      ∃ exchanges, Bootstrap.Tracks chain (bootstrapPolicy chain) state exchanges
  | _ => True

omit [BloomHash] [ReserveProjection] in
/-- A step that completes nothing is one before the deadline. -/
theorem beforeDeadline_of_incomplete {state : Bootstrap.State} {event : Bootstrap.Event}
    (incomplete : Bootstrap.completion (Bootstrap.transition chain state event).1 = none) :
    Bootstrap.BeforeDeadline state event := by
  cases event with
  | tick order =>
    by_contra late
    rw [Bootstrap.tick_at_deadline late] at incomplete
    unfold Bootstrap.completion at incomplete
    cases phase : state.phase <;> simp [phase, Bootstrap.degraded] at incomplete
  | finalizedHeaderReceived _ _ | poolCandidatesReceived _ _ _ _ | poolMetadataReceived _ _
  | tokenMetadataReceived _ _ | requestFailed _ => exact trivial

theorem underway_advance {state : Bootstrap.State} {buffered : List SubscriptionData}
    (event : Bootstrap.Event) (underway : Underway chain (some (.bootstrapping state buffered))) :
    Underway chain (advanceBootstrap chain state buffered event).1 := by
  obtain ⟨-, exchanges, tracks⟩ := underway
  unfold advanceBootstrap
  simp only
  cases completed : Bootstrap.completion (Bootstrap.transition chain state event).1 with
  | none => exact ⟨completed, _, tracks.step event (beforeDeadline_of_incomplete completed)⟩
  | some completion => cases completion <;> exact trivial

theorem underway_chainStep (lifecycle : Option ChainLifecycle) (input : ChainInput)
    (underway : Underway chain lifecycle) : Underway chain (chainStep chain lifecycle input).1 := by
  cases lifecycle with
  | none => exact trivial
  | some lifecycle =>
    cases lifecycle with
    | bootstrapping state buffered =>
      cases input with
      | bootstrap event => exact underway_advance event underway
      | tick order => exact underway_advance (.tick order) underway
      | data data | finalizedHeader hash number | kernel event => exact underway
    | active state =>
      cases input with
      | kernel event => exact (congrArg (Underway chain) (refreshingStep_active _ _ _)).mpr trivial
      | data data => exact (congrArg (Underway chain) (refreshingStep_active _ _ _)).mpr trivial
      | finalizedHeader hash number | tick order | bootstrap event => exact trivial

theorem underway_transition (state : State) (event : Event)
    (underway : Underway chain state.chains[chain]?) :
    Underway chain (transition state event).1.chains[chain]? := by
  have next := congrArg Prod.fst (seenBy_transition state chain event)
  simp only [seenBy] at next
  rw [next]
  cases event.concerns chain with
  | none => exact underway
  | some input => exact underway_chainStep _ input underway

omit [BloomHash] in
theorem underway_init (chains : List ChainKey) :
    Underway chain (State.init chains).1.chains[chain]? := by
  unfold State.init
  generalize begin : (({ chains := ∅, lastOptimizedBlock := ∅ }, []) : State × List Effect) =
    result
  have underway : Underway chain result.1.chains[chain]? := by
    rw [← begin, Std.ExtTreeMap.getElem?_empty]
    exact trivial
  clear begin
  induction chains generalizing result with
  | nil => exact underway
  | cons other chains inductionHypothesis =>
    refine inductionHypothesis _ ?_
    simp only [HashMap.getElem?_insert]
    split
    · rename_i same
      subst same
      exact ⟨rfl, _, .init chain (bootstrapPolicy chain)⟩
    · exact underway

/-- In every order of steps a bootstrap that is not over has one request in flight, of the
kind that its phase acts on, and the request is being executed or an answer to it is on its
way. -/
theorem bootstrap_outstanding (reached : LoopReached chains taken loop) {state : Bootstrap.State}
    {buffered : List SubscriptionData}
    (found : loop.state.chains[chain]? = some (.bootstrapping state buffered)) :
    ∃ request, state.phase.awaited = some request.kind ∧
      (∀ other, state.pending.InFlight other ↔ other = request) ∧
      (.bootstrapEffect chain request ∈ loop.executing ∨
        ∃ event ∈ loop.queued, Settles event chain (.bootstrap request)) := by
  have underway : Underway chain loop.state.chains[chain]? := by
    have permitted : AllowedAlong transition (fun _ _ => True) (State.init chains).1 taken :=
      .of_events (fun _ _ _ => trivial) _
    rw [reached.run]
    refine (permitted.outputs (fun state => Underway chain state.chains[chain]?) (fun _ => True)
      ?_ (underway_init chains)).1
    exact fun state event underway _ =>
      ⟨underway_transition state event underway, fun _ _ => trivial⟩
  rw [found] at underway
  obtain ⟨incomplete, exchanges, -, expected, leads, id, only⟩ := underway
  have awaited := leadsTo_awaited leads
  cases expected with
  | none =>
    unfold Bootstrap.completion at incomplete
    cases phase : state.phase <;> simp [phase, Bootstrap.Phase.awaited] at awaited incomplete
  | some expected =>
    obtain ⟨kind, payload⟩ := expected
    have sole : ∀ other, state.pending.InFlight other ↔ other = ⟨kind, id, payload⟩ := by
      intro other
      rw [only other]
      constructor
      · rintro ⟨rfl, same⟩
        obtain ⟨rfl, payloads⟩ := Sigma.mk.inj (Option.some.inj same)
        obtain rfl := eq_of_heq payloads
        rfl
      · rintro rfl
        exact ⟨rfl, rfl⟩
    refine ⟨⟨kind, id, payload⟩, awaited, sole, ?_⟩
    have outstanding {awaited : ChainKey × ChainRequest}
        (waits : Waits loop.state.chains[awaited.1]? awaited.2) :=
      reached.outstanding (client_accounted chains) waits
    have waits : Waits loop.state.chains[chain]? (.bootstrap ⟨kind, id, payload⟩) := by
      rw [found]
      exact (sole _).mpr rfl
    rcases @outstanding (chain, .bootstrap ⟨kind, id, payload⟩) waits with
      ⟨effect, executed, rfl⟩ | queued
    · exact .inl executed
    · exact .inr queued

omit [BloomHash] [ReserveProjection] [FillerHash] in
theorem bootstrap_outstanding_validating :
    letI : BloomHash := BloomHash.tabulated
    letI : ReserveProjection := ReserveProjection.unavailable
    letI : FillerHash := ⟨fun _ _ => 0⟩
    ∃ loop, LoopReached [.ethereum] (startEvents.take 3) loop ∧
      ∃ request, request.kind = .poolMetadata ∧
        (.bootstrapEffect .ethereum request ∈ loop.executing ∨
          ∃ event ∈ loop.queued, Settles event .ethereum (.bootstrap request)) := by
  let _ : BloomHash := BloomHash.tabulated
  let _ : ReserveProjection := ReserveProjection.unavailable
  let _ : FillerHash := ⟨fun _ _ => 0⟩
  have found : (startState 3).chains[ChainKey.ethereum]? = some (.bootstrapping _ _) := rfl
  obtain ⟨request, awaited, -, outstanding⟩ := bootstrap_outstanding validating found
  exact ⟨_, validating, request, Option.some.inj awaited.symm, outstanding⟩

end MultiChain

end ArmchairAnalyst

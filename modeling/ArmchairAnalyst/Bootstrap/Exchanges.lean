import ArmchairAnalyst.Bootstrap
import ArmchairAnalyst.SoleRequest
import ArmchairAnalyst.Library.TransitionSystem

/-!
# The exchanges of a bootstrap

An exchange is a request with the answer that is accepted for it. Before the
deadline the phase of a bootstrap is what its exchanges have led to, whatever
failed, expired or was answered twice in between.
-/

namespace ArmchairAnalyst.Bootstrap

open RequestStore (Expects)

/-- One window of the paged scan, as it is answered. -/
structure Window where
  blocks : List RangeLogBlock
  scanTip : UInt64
  nextFrom : Option UInt64

@[reducible] def RequestKind.Answer : RequestKind → Type
  | .finalizedHeader => FinalizedAnchor
  | .poolCandidates => Window
  | .poolMetadata => HashMap ProtocolPoolKey PoolMetadataResult
  | .tokenMetadata => HashMap TokenAddress TokenMetadataResult

structure Exchange where
  kind : RequestKind
  requestId : UInt64
  requestPayload : kind.Payload
  answer : kind.Answer

def Exchange.request (exchange : Exchange) : IssuedRequest where
  kind := exchange.kind
  requestId := exchange.requestId
  requestPayload := exchange.requestPayload

/-- The answer that an event carries, under the identifier it is for. -/
def Event.answer? : Event → Option (UInt64 × (kind : RequestKind) × kind.Answer)
  | .finalizedHeaderReceived requestId anchor => some ⟨requestId, .finalizedHeader, anchor⟩
  | .poolCandidatesReceived requestId blocks scanTip nextFrom =>
    some ⟨requestId, .poolCandidates, ⟨blocks, scanTip, nextFrom⟩⟩
  | .poolMetadataReceived requestId metadata => some ⟨requestId, .poolMetadata, metadata⟩
  | .tokenMetadataReceived requestId metadata => some ⟨requestId, .tokenMetadata, metadata⟩
  | .requestFailed _ | .tick _ => none

/-- The kind of answer that a phase acts on. -/
def Phase.awaited : Phase → Option RequestKind
  | .anchoringChain => some .finalizedHeader
  | .discovering _ _ => some .poolCandidates
  | .validatingPools _ _ => some .poolMetadata
  | .resolvingTokens _ _ _ => some .tokenMetadata
  | .ready _ | .abandoned => none

/-- The exchange that an event completes: the answer is of the kind that the phase acts
on and for a request in flight. -/
def exchange? (state : State) (event : Event) : Option Exchange :=
  match event.answer? with
  | some ⟨requestId, kind, answer⟩ =>
    if state.phase.awaited = some kind then
      ((state.pending.collection kind)[requestId]?).map (fun pending =>
        { kind, requestId, requestPayload := pending.payload, answer })
    else none
  | none => none

/-- The exchanges of a run, in order. -/
def exchanges [FillerHash] (chain : ChainKey) (policy : BootstrapPolicy) (events : List Event) :
    List Exchange :=
  yieldsAlong (transition chain) (fun state event => (exchange? state event).toList)
    (init policy).1 events

/-! ### What the exchanges lead to -/

def Exchange.blocks : Exchange → List RangeLogBlock
  | ⟨.poolCandidates, _, _, window⟩ => window.blocks
  | _ => []

/-- The blocks of all windows, in the order in which they were accepted. -/
def scannedBlocks (exchanges : List Exchange) : List RangeLogBlock :=
  exchanges.flatMap Exchange.blocks

def Exchange.scanTip? : Exchange → Option UInt64
  | ⟨.poolCandidates, _, _, window⟩ => some window.scanTip
  | _ => none

/-- The tip that the first accepted window reports. -/
def frozenTip (exchanges : List Exchange) : Option UInt64 :=
  exchanges.findSome? Exchange.scanTip?

def candidates (blocks : List RangeLogBlock) : HashSet ProtocolPoolKey :=
  HashSet.collect (blocks.flatMap (fun block => block.logs.map (·.pool)))

/-- The windows of a scan, with the request for the next one as long as there is one. Each
is asked for from where the one before it stopped, up to the tip that it reported. -/
inductive Scan (anchor : FinalizedAnchor) :
    List Exchange → Option GetPoolCandidatesInRange → Prop
  | start : Scan anchor [] (some { fromBlock := anchor.number, scanTip := none })
  | window {windows request} (requestId : UInt64) (answer : Window) :
    Scan anchor windows (some request) →
    Scan anchor (windows ++ [⟨.poolCandidates, requestId, request, answer⟩])
      (answer.nextFrom.map (fun fromBlock => { fromBlock, scanTip := some answer.scanTip }))

def headerExchange (requestId : UInt64) (anchor : FinalizedAnchor) : Exchange :=
  ⟨.finalizedHeader, requestId, {}, anchor⟩

def poolsExchange (requestId : UInt64) (anchor : FinalizedAnchor) (blocks : List RangeLogBlock)
    (metadata : HashMap ProtocolPoolKey PoolMetadataResult) : Exchange :=
  ⟨.poolMetadata, requestId, { at_ := anchor.hash, candidates := candidates blocks }, metadata⟩

def tokensExchange (chain : ChainKey) (requestId : UInt64) (anchor : FinalizedAnchor)
    (verified : VerifiedPools) (metadata : HashMap TokenAddress TokenMetadataResult) : Exchange :=
  ⟨.tokenMetadata, requestId,
    { at_ := anchor.hash, tokens := verified.referencedTokens chain }, metadata⟩

/-- The exchanges that lead to a phase, with the request that the phase waits for. -/
inductive LeadsTo [FillerHash] (chain : ChainKey) (tipTrim : UInt64) :
    List Exchange → Phase → Option ((kind : RequestKind) × kind.Payload) → Prop
  | anchoringChain : LeadsTo chain tipTrim [] .anchoringChain (some ⟨.finalizedHeader, {}⟩)
  | discovering {headerId anchor windows request} :
    Scan anchor windows (some request) →
    LeadsTo chain tipTrim (headerExchange headerId anchor :: windows)
      (.discovering anchor (scannedBlocks windows)) (some ⟨.poolCandidates, request⟩)
  | validatingPools {headerId anchor windows} :
    Scan anchor windows none →
    LeadsTo chain tipTrim (headerExchange headerId anchor :: windows)
      (.validatingPools anchor (GraphSeed.fromWindow (scannedBlocks windows) anchor tipTrim))
      (some ⟨.poolMetadata,
        { at_ := anchor.hash, candidates := candidates (scannedBlocks windows) }⟩)
  | resolvingTokens {headerId anchor windows poolsId pools} :
    Scan anchor windows none →
    LeadsTo chain tipTrim
      (headerExchange headerId anchor :: windows ++
        [poolsExchange poolsId anchor (scannedBlocks windows) pools])
      (.resolvingTokens anchor (GraphSeed.fromWindow (scannedBlocks windows) anchor tipTrim) ⟨pools⟩)
      (some ⟨.tokenMetadata,
        { at_ := anchor.hash, tokens := (VerifiedPools.mk pools).referencedTokens chain }⟩)
  | ready {headerId anchor windows poolsId pools tokensId tokens} :
    Scan anchor windows none →
    LeadsTo chain tipTrim
      (headerExchange headerId anchor :: windows ++
        [poolsExchange poolsId anchor (scannedBlocks windows) pools,
          tokensExchange chain tokensId anchor ⟨pools⟩ tokens])
      (.ready
        { anchor
          poolSnapshots := ∅
          poolRegistry := (VerifiedPools.mk pools).intoRegistry chain
          tokenRegistry := TokenRegistry.new.withMetadataResults tokens
          seedBlocks := (GraphSeed.fromWindow (scannedBlocks windows) anchor tipTrim).blocks })
      none

/-- The phase is what the exchanges have led to, and what it waits for is in flight. -/
def Tracks [FillerHash] (chain : ChainKey) (policy : BootstrapPolicy) (state : State)
    (exchanges : List Exchange) : Prop :=
  state.policy = policy ∧ ∃ expected, LeadsTo chain policy.tipTrim exchanges state.phase expected ∧
    Expects state.pending expected

/-- A step that does not meet the deadline, or meets it when all is done. -/
def BeforeDeadline (state : State) : Event → Prop
  | .tick _ => (completion state).isNone →
      ¬ state.policy.deadlineTicks ≤ state.tick.next.elapsedSince state.startedAt
  | _ => True

section

variable [FillerHash] {chain : ChainKey} {policy : BootstrapPolicy} {state : State}
  {answered : List Exchange}

theorem Tracks.init (chain : ChainKey) (policy : BootstrapPolicy) :
    Tracks chain policy (init policy).1 [] := by
  have idle : Expects (RequestStore.new : PendingRequests) none := .new
  exact ⟨rfl, _, .anchoringChain, idle.issue RequestKind.finalizedHeader {} Tick.initial⟩

omit [FillerHash] in
theorem State.take_of_none {kind : RequestKind} {requestId : UInt64}
    (missing : (state.pending.collection kind)[requestId]? = none) :
    state.take kind requestId = (state, none) := by
  simp [State.take, RequestStore.takeRequest_of_none missing]

/-- An answer that finds no request changes nothing. -/
theorem transition_of_missing {event : Event} {requestId : UInt64} {kind : RequestKind}
    {answer : kind.Answer} (answers : event.answer? = some ⟨requestId, kind, answer⟩)
    (missing : (state.pending.collection kind)[requestId]? = none) :
    transition chain state event = (state, []) := by
  cases event with
  | finalizedHeaderReceived id anchor =>
    obtain ⟨rfl, same⟩ := Prod.mk.inj (Option.some.inj answers)
    obtain ⟨rfl, -⟩ := Sigma.mk.inj same
    simp [transition, finalizedHeaderReceived, State.take_of_none missing]
  | poolCandidatesReceived id blocks scanTip nextFrom =>
    obtain ⟨rfl, same⟩ := Prod.mk.inj (Option.some.inj answers)
    obtain ⟨rfl, -⟩ := Sigma.mk.inj same
    simp [transition, poolCandidatesReceived, State.take_of_none missing]
  | poolMetadataReceived id metadata =>
    obtain ⟨rfl, same⟩ := Prod.mk.inj (Option.some.inj answers)
    obtain ⟨rfl, -⟩ := Sigma.mk.inj same
    simp [transition, poolMetadataReceived, State.take_of_none missing]
  | tokenMetadataReceived id metadata =>
    obtain ⟨rfl, same⟩ := Prod.mk.inj (Option.some.inj answers)
    obtain ⟨rfl, -⟩ := Sigma.mk.inj same
    simp [transition, tokenMetadataReceived, State.take_of_none missing]
  | requestFailed id => cases answers
  | tick order => cases answers

/-! ### Answers to the request in flight -/

/-- A phase is entered with the request that it waits for. -/
theorem Tracks.advance {phase : Phase} {kind : RequestKind} {payload : kind.Payload}
    (configured : state.policy = policy) (idle : Expects state.pending none)
    (leads : LeadsTo chain policy.tipTrim answered phase (some ⟨kind, payload⟩)) :
    Tracks chain policy (state.advance phase kind payload).1 answered :=
  ⟨configured, _, leads, idle.issue kind payload state.tick⟩

omit [FillerHash] in
theorem scannedBlocks_concat (windows : List Exchange) (requestId : UInt64)
    (request : GetPoolCandidatesInRange) (answer : Window) :
    scannedBlocks (windows ++ [⟨.poolCandidates, requestId, request, answer⟩]) =
      scannedBlocks windows ++ answer.blocks := by
  simp [scannedBlocks, Exchange.blocks]

theorem Tracks.headerReceived (tracks : Tracks chain policy state answered) {requestId : UInt64}
    {pending : PendingPayload GetFinalizedHeader} (anchor : FinalizedAnchor)
    (found : (state.pending.collection .finalizedHeader)[requestId]? = some pending) :
    Tracks chain policy (finalizedHeaderReceived state requestId anchor).1
      (answered ++ (exchange? state (.finalizedHeaderReceived requestId anchor)).toList) := by
  obtain ⟨store, phase, settings, startedAt, tick⟩ := state
  obtain ⟨configured, expected, leads, expects⟩ := tracks
  obtain rfl := expects.of_found found
  have idle := expects.take found
  simp only at leads found idle
  cases leads with
  | anchoringChain =>
    have completes : exchange? ⟨store, .anchoringChain, settings, startedAt, tick⟩
        (.finalizedHeaderReceived requestId anchor) = some (headerExchange requestId anchor) := by
      simp [exchange?, Event.answer?, Phase.awaited, found, headerExchange]
    have taken : (store.takeRequest .finalizedHeader requestId).2 = some pending := found
    rw [completes]
    simp only [finalizedHeaderReceived, State.take, taken]
    exact Tracks.advance configured idle (.discovering .start)

theorem Tracks.candidatesReceived (tracks : Tracks chain policy state answered)
    {requestId : UInt64} {pending : PendingPayload GetPoolCandidatesInRange}
    (blocks : List RangeLogBlock) (scanTip : UInt64) (nextFrom : Option UInt64)
    (found : (state.pending.collection .poolCandidates)[requestId]? = some pending) :
    Tracks chain policy (poolCandidatesReceived state requestId blocks scanTip nextFrom).1
      (answered ++
        (exchange? state (.poolCandidatesReceived requestId blocks scanTip nextFrom)).toList) := by
  obtain ⟨store, phase, settings, startedAt, tick⟩ := state
  obtain ⟨configured, expected, leads, expects⟩ := tracks
  obtain rfl := expects.of_found found
  have idle := expects.take found
  simp only at configured leads found idle
  subst configured
  cases leads with
  | @discovering headerId anchor windows _ scan =>
    have completes : exchange? ⟨store, .discovering anchor (scannedBlocks windows), settings,
        startedAt, tick⟩ (.poolCandidatesReceived requestId blocks scanTip nextFrom) =
          some ⟨.poolCandidates, requestId, pending.payload, ⟨blocks, scanTip, nextFrom⟩⟩ := by
      simp [exchange?, Event.answer?, Phase.awaited, found]
    have taken : (store.takeRequest .poolCandidates requestId).2 = some pending := found
    have further := scan.window requestId ⟨blocks, scanTip, nextFrom⟩
    have blocks' := scannedBlocks_concat windows requestId pending.payload
      ⟨blocks, scanTip, nextFrom⟩
    simp only at blocks'
    rw [completes]
    simp only [poolCandidatesReceived, State.take, taken, ← blocks']
    cases nextFrom with
    | some fromBlock => exact Tracks.advance rfl idle (.discovering further)
    | none => exact Tracks.advance rfl idle (.validatingPools further)

theorem Tracks.poolsReceived (tracks : Tracks chain policy state answered) {requestId : UInt64}
    {pending : PendingPayload RequestKind.poolMetadata.Payload}
    (metadata : HashMap ProtocolPoolKey PoolMetadataResult)
    (found : (state.pending.collection .poolMetadata)[requestId]? = some pending) :
    Tracks chain policy (poolMetadataReceived chain state requestId metadata).1
      (answered ++ (exchange? state (.poolMetadataReceived requestId metadata)).toList) := by
  obtain ⟨store, phase, settings, startedAt, tick⟩ := state
  obtain ⟨configured, expected, leads, expects⟩ := tracks
  obtain rfl := expects.of_found found
  have idle := expects.take found
  have taken : (store.takeRequest .poolMetadata requestId).2 = some pending := found
  obtain ⟨payload, dispatchedAt⟩ := pending
  simp only at configured leads found idle
  subst configured
  cases leads with
  | @validatingPools headerId anchor windows scan =>
    have completes : exchange? ⟨store, .validatingPools anchor
        (GraphSeed.fromWindow (scannedBlocks windows) anchor settings.tipTrim), settings,
        startedAt, tick⟩ (.poolMetadataReceived requestId metadata) =
          some (poolsExchange requestId anchor (scannedBlocks windows) metadata) := by
      simp [exchange?, Event.answer?, Phase.awaited, found, poolsExchange]
    rw [completes]
    simp only [poolMetadataReceived, State.take, taken]
    exact Tracks.advance rfl idle (.resolvingTokens scan)

theorem Tracks.tokensReceived (tracks : Tracks chain policy state answered) {requestId : UInt64}
    {pending : PendingPayload RequestKind.tokenMetadata.Payload}
    (metadata : HashMap TokenAddress TokenMetadataResult)
    (found : (state.pending.collection .tokenMetadata)[requestId]? = some pending) :
    Tracks chain policy (tokenMetadataReceived chain state requestId metadata).1
      (answered ++ (exchange? state (.tokenMetadataReceived requestId metadata)).toList) := by
  obtain ⟨store, phase, settings, startedAt, tick⟩ := state
  obtain ⟨configured, expected, leads, expects⟩ := tracks
  obtain rfl := expects.of_found found
  have idle := expects.take found
  have taken : (store.takeRequest .tokenMetadata requestId).2 = some pending := found
  obtain ⟨payload, dispatchedAt⟩ := pending
  simp only at configured leads found idle
  subst configured
  cases leads with
  | @resolvingTokens headerId anchor windows poolsId pools scan =>
    have completes : exchange? ⟨store, .resolvingTokens anchor
        (GraphSeed.fromWindow (scannedBlocks windows) anchor settings.tipTrim) ⟨pools⟩, settings,
        startedAt, tick⟩ (.tokenMetadataReceived requestId metadata) =
          some (tokensExchange chain requestId anchor ⟨pools⟩ metadata) := by
      simp [exchange?, Event.answer?, Phase.awaited, found, tokensExchange]
    rw [completes]
    simp only [tokenMetadataReceived, State.take, taken]
    refine ⟨rfl, none, ?_, idle⟩
    rw [Option.toList_some, List.append_assoc]
    exact .ready scan

/-! ### Steps and runs -/

/-- One event before the deadline adds the exchange that it completes, if any. -/
theorem Tracks.step (tracks : Tracks chain policy state answered) (event : Event)
    (before : BeforeDeadline state event) :
    Tracks chain policy (transition chain state event).1
      (answered ++ (exchange? state event).toList) := by
  cases answers : event.answer? with
  | some answer =>
    obtain ⟨requestId, kind, answer⟩ := answer
    cases found : (state.pending.collection kind)[requestId]? with
    | none =>
      rw [transition_of_missing answers found]
      simpa [exchange?, answers, found] using tracks
    | some pending =>
      cases event with
      | finalizedHeaderReceived id anchor =>
        obtain ⟨rfl, same⟩ := Prod.mk.inj (Option.some.inj answers)
        obtain ⟨rfl, -⟩ := Sigma.mk.inj same
        exact tracks.headerReceived anchor found
      | poolCandidatesReceived id blocks scanTip nextFrom =>
        obtain ⟨rfl, same⟩ := Prod.mk.inj (Option.some.inj answers)
        obtain ⟨rfl, -⟩ := Sigma.mk.inj same
        exact tracks.candidatesReceived blocks scanTip nextFrom found
      | poolMetadataReceived id metadata =>
        obtain ⟨rfl, same⟩ := Prod.mk.inj (Option.some.inj answers)
        obtain ⟨rfl, -⟩ := Sigma.mk.inj same
        exact tracks.poolsReceived metadata found
      | tokenMetadataReceived id metadata =>
        obtain ⟨rfl, same⟩ := Prod.mk.inj (Option.some.inj answers)
        obtain ⟨rfl, -⟩ := Sigma.mk.inj same
        exact tracks.tokensReceived metadata found
      | requestFailed id => cases answers
      | tick order => cases answers
  | none =>
    have completes : exchange? state event = none := by simp [exchange?, answers]
    rw [completes, Option.toList_none, List.append_nil]
    obtain ⟨configured, expected, leads, expects⟩ := tracks
    cases event with
    | requestFailed id =>
      exact ⟨configured, expected, leads, expects.retry id state.tick⟩
    | tick order =>
      simp only [transition, ticked]
      split
      · exact ⟨configured, expected, leads, expects⟩
      · exact ⟨configured, expected, leads, expects⟩
      · rename_i unready unabandoned
        have early : ¬ state.policy.deadlineTicks ≤ state.tick.next.elapsedSince state.startedAt := by
          apply before
          simp [completion]
        rw [if_neg early]
        exact ⟨configured, expected, leads, expects.retryAll _ _⟩
    | finalizedHeaderReceived id anchor => cases answers
    | poolCandidatesReceived id blocks scanTip nextFrom => cases answers
    | poolMetadataReceived id metadata => cases answers
    | tokenMetadataReceived id metadata => cases answers

/-- Before the deadline the exchanges of a run tell the phase it has come to. -/
theorem run_tracks {events : List Event}
    (before : AllowedAlong (transition chain) BeforeDeadline (init policy).1 events) :
    Tracks chain policy (run (transition chain) (init policy).1 events).1
      (exchanges chain policy events) := by
  have tracked := before.yields (Tracks chain policy)
    (fun state event answered tracks early => tracks.step event early) (Tracks.init chain policy)
  simpa [exchanges] using tracked

end

end ArmchairAnalyst.Bootstrap

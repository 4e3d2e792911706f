import ArmchairAnalyst.Bootstrap
import ArmchairAnalyst.Client.Endpoints
import ArmchairAnalyst.Kernel.StepProofs
import ArmchairAnalyst.RequestTargets

/-!
# Executed requests

Every request of the kernel is executed by one read, whose result or failure comes back as
one event that names the request. An event that names a request ends the wait for it.
-/

namespace ArmchairAnalyst

/-- A block header as a provider returns it. -/
structure ClientHead where
  hash : BlockHash
  parentHash : BlockHash
  logsBloom : Bloom
  number : UInt64

namespace RequestStore

variable {Kind : Type} {Payload : Kind → Type} [DecidableEq Kind]

theorem take_settles (store : RequestStore Payload) {kind : Kind} {id : UInt64}
    {request : AnyIssuedRequest Payload}
    (inFlight : (store.takeRequest kind id).1.InFlight request) :
    store.InFlight request ∧ (⟨kind, id⟩ : AnyRequestId Kind) ≠ ⟨request.kind, request.requestId⟩ := by
  refine ⟨inFlight_of_take inFlight, fun same => ?_⟩
  obtain ⟨rfl, rfl⟩ := AnyRequestId.mk.inj same
  exact not_inFlight_take store _ _ request.requestPayload inFlight

/-- A retried request is issued anew and no longer awaited under its old identifier. -/
theorem retry_settles (store : RequestStore Payload) (id : AnyRequestId Kind) (tick : Tick)
    {request : AnyIssuedRequest Payload} (inFlight : (store.retry id tick).1.InFlight request) :
    (store.InFlight request ∧ id ≠ ⟨request.kind, request.requestId⟩) ∨
      request ∈ (store.retry id tick).2.toList := by
  cases found : (store.takeRequest id.kind id.requestId).2 with
  | none =>
    simp only [retry, found] at inFlight
    exact .inl (store.take_settles inFlight)
  | some pending =>
    simp only [retry, found] at inFlight ⊢
    rcases inFlight_of_issue inFlight with rfl | earlier
    · exact .inr List.mem_cons_self
    · exact .inl (store.take_settles earlier)

end RequestStore

namespace Kernel

open Bootstrap (RangeLogBlock)
open Client (ClientEvmError)
open RequestStore (Evolves)

/-! ### Execution -/

/-- The reads that the requests are executed with. -/
structure Fetchers where
  fetchBlockHeader : BlockHash → Except ClientEvmError (Option ClientHead)
  fetchBlockLogs : BlockHash → Except ClientEvmError (List PoolLog)
  fetchPoolMetadata : BlockHash → HashSet ProtocolPoolKey →
    Except ClientEvmError (HashMap ProtocolPoolKey PoolMetadataResult)
  fetchTokenMetadata : BlockHash → HashSet TokenAddress →
    Except ClientEvmError (HashMap TokenAddress TokenMetadataResult)
  fetchPoolData : BlockHash → HashSet PoolRef →
    Except ClientEvmError (HashMap PoolRef PoolDataResult)
  fetchLogsRange : UInt64 → UInt64 → Except ClientEvmError (List RangeLogBlock)
  fetchCanonicalHeader : UInt64 → Except ClientEvmError (Option ClientHead)

def executeRequestWith (fetchers : Fetchers) : IssuedRequest → Event
  | ⟨.blockHeader, requestId, payload⟩ =>
    match fetchers.fetchBlockHeader payload.blockHash with
    | .ok (some header) =>
      .blockHeaderReceived requestId header.hash header.parentHash header.logsBloom header.number
    | .ok none => .blockHeaderNotFound requestId
    | .error _ => .requestFailed ⟨.blockHeader, requestId⟩
  | ⟨.blockLogs, requestId, payload⟩ =>
    match fetchers.fetchBlockLogs payload.blockHash with
    | .ok logs => .blockLogsReceived requestId logs
    | .error _ => .requestFailed ⟨.blockLogs, requestId⟩
  | ⟨.poolMetadata, requestId, payload⟩ =>
    match fetchers.fetchPoolMetadata payload.at_ payload.candidates with
    | .ok metadata => .poolMetadataReceived requestId metadata
    | .error _ => .requestFailed ⟨.poolMetadata, requestId⟩
  | ⟨.tokenMetadata, requestId, payload⟩ =>
    match fetchers.fetchTokenMetadata payload.at_ payload.tokens with
    | .ok metadata => .tokenMetadataReceived requestId metadata
    | .error _ => .requestFailed ⟨.tokenMetadata, requestId⟩
  | ⟨.poolData, requestId, payload⟩ =>
    match fetchers.fetchPoolData payload.at_ payload.pools with
    | .ok pools => .poolDataReceived requestId pools
    | .error _ => .requestFailed ⟨.poolData, requestId⟩
  | ⟨.logsRange, requestId, payload⟩ =>
    match fetchers.fetchLogsRange payload.fromBlock payload.toBlock with
    | .ok blocks =>
      .blockLogsRangeReceived requestId (blocks.map (fun block => (block.hash, block.logs)))
    | .error _ => .requestFailed ⟨.logsRange, requestId⟩
  | ⟨.canonicalHeader, requestId, payload⟩ =>
    match fetchers.fetchCanonicalHeader payload.number with
    | .ok (some header) => .canonicalHeaderAtHeightReceived requestId header.hash header.number
    -- The provider lags behind the height, which is not that the height has no block.
    | .ok none => .requestFailed ⟨.canonicalHeader, requestId⟩
    | .error _ => .requestFailed ⟨.canonicalHeader, requestId⟩

/-- The request that an event answers, or reports as failed. -/
def Event.answered? : Event → Option RequestId
  | .headObserved _ _ _ _ | .finalizedBlockObserved _ _ | .logObserved _ _ | .tick _ => none
  | .blockHeaderReceived requestId _ _ _ _ => some ⟨.blockHeader, requestId⟩
  | .blockHeaderNotFound requestId => some ⟨.blockHeader, requestId⟩
  | .canonicalHeaderAtHeightReceived requestId _ _ => some ⟨.canonicalHeader, requestId⟩
  | .blockLogsReceived requestId _ => some ⟨.blockLogs, requestId⟩
  | .blockLogsRangeReceived requestId _ => some ⟨.logsRange, requestId⟩
  | .poolMetadataReceived requestId _ => some ⟨.poolMetadata, requestId⟩
  | .tokenMetadataReceived requestId _ => some ⟨.tokenMetadata, requestId⟩
  | .poolDataReceived requestId _ => some ⟨.poolData, requestId⟩
  | .requestFailed requestId => some requestId

theorem executeRequestWith_answered (fetchers : Fetchers) (request : IssuedRequest) :
    (executeRequestWith fetchers request).answered? = some ⟨request.kind, request.requestId⟩ := by
  obtain ⟨kind, requestId, payload⟩ := request
  cases kind <;> simp only [executeRequestWith] <;> split <;> rfl

/-! ### An answer ends the wait -/

variable [BloomHash]

omit [BloomHash] in
theorem not_inFlight_applied {state : State} {kind : RequestKind} {id : UInt64}
    {apply_ : State → kind.Payload → State}
    (quiet : ∀ state payload, (apply_ state payload).pendingRequests = state.pendingRequests)
    (payload : kind.Payload) :
    ¬ (applied state kind id apply_).pendingRequests.InFlight ⟨kind, id, payload⟩ := by
  have gone : ¬ (state.take kind id).1.pendingRequests.InFlight ⟨kind, id, payload⟩ :=
    RequestStore.not_inFlight_take state.pendingRequests kind id payload
  unfold applied
  generalize state.take kind id = result at gone
  obtain ⟨state', _ | pending⟩ := result
  · exact gone
  · rw [quiet]
    exact gone

/-- Only a failure leaves its request to what follows. -/
theorem absorb_forgets (chain : ChainKey) (state : State) {event : Event} {kind : RequestKind}
    {id : UInt64} (answers : event.answered? = some ⟨kind, id⟩)
    (succeeds : ∀ failed, event ≠ .requestFailed failed) (payload : kind.Payload) :
    ¬ (absorb chain state event).pendingRequests.InFlight ⟨kind, id, payload⟩ := by
  cases event with
  | headObserved hash parent bloom number => cases answers
  | finalizedBlockObserved hash number => cases answers
  | logObserved hash logs => cases answers
  | tick order => cases answers
  | requestFailed failed => exact absurd rfl (succeeds failed)
  | blockHeaderReceived id hash parent bloom number =>
    obtain ⟨rfl, rfl⟩ := AnyRequestId.mk.inj (Option.some.inj answers)
    exact RequestStore.not_inFlight_take _ _ _ payload
  | blockHeaderNotFound id =>
    obtain ⟨rfl, rfl⟩ := AnyRequestId.mk.inj (Option.some.inj answers)
    exact RequestStore.not_inFlight_take _ _ _ payload
  | canonicalHeaderAtHeightReceived id hash number =>
    obtain ⟨rfl, rfl⟩ := AnyRequestId.mk.inj (Option.some.inj answers)
    exact RequestStore.not_inFlight_take _ _ _ payload
  | blockLogsReceived id logs =>
    obtain ⟨rfl, rfl⟩ := AnyRequestId.mk.inj (Option.some.inj answers)
    exact not_inFlight_applied (fun _ _ => withLogComplete_pendingRequests _ _ _) payload
  | blockLogsRangeReceived id blocks =>
    obtain ⟨rfl, rfl⟩ := AnyRequestId.mk.inj (Option.some.inj answers)
    exact not_inFlight_applied (fun _ _ => withLogsRange_pendingRequests _ _ _) payload
  | poolMetadataReceived id metadata =>
    obtain ⟨rfl, rfl⟩ := AnyRequestId.mk.inj (Option.some.inj answers)
    refine not_inFlight_applied ?_ payload
    intro state payload
    rfl
  | tokenMetadataReceived id metadata =>
    obtain ⟨rfl, rfl⟩ := AnyRequestId.mk.inj (Option.some.inj answers)
    refine not_inFlight_applied ?_ payload
    intro state payload
    rfl
  | poolDataReceived id pools =>
    obtain ⟨rfl, rfl⟩ := AnyRequestId.mk.inj (Option.some.inj answers)
    refine not_inFlight_applied ?_ payload
    intro state payload
    rfl

omit [BloomHash] in
theorem Issues.evolves {holds : (kind : RequestKind) → kind.Payload → Prop} {absorbed : State}
    {result : State × List Effect} (issues : Issues holds (absorbed, []) result) :
    Evolves absorbed.pendingRequests result.2 result.1.pendingRequests := by
  obtain ⟨-, ⟨issued, effects, evolves, -⟩, -⟩ := issues
  rw [effects]
  exact evolves

/-- What follows the absorbed state is in flight in it or newly issued. -/
theorem Follows.evolves {chain : ChainKey} {state : State} {event : Event}
    {result : State × List Effect} (follows : Follows chain state event result) :
    Evolves (absorb chain state event).pendingRequests result.2 result.1.pendingRequests := by
  cases follows with
  | idle => exact Evolves.refl _
  | @selfParent hash bloom number _ =>
    have asked : Issues (Asked chain (absorb chain state event)) (absorb chain state event, [])
        (requestMissingHeader (absorb chain state event, []) hash) := asked_header _ _
    exact asked.evolves
  | scheduled => exact (issues_schedule chain _).evolves
  | probed hash number =>
    exact (asked_scheduleAndProbe chain hash number (SameCore.refl (absorb chain state event))).evolves
  | @reissued id hash parent bloom number payload _ _ _ =>
    have reissue : Issues (Asked chain (absorb chain state event)) (absorb chain state event, [])
        (issueRequest (absorb chain state event, []) .blockHeader payload) :=
      Issues.request _ .blockHeader _ (.inl (by simp))
    exact (reissue.trans (asked_scheduleAndProbe chain hash number reissue.core)).evolves
  | ranges target => exact (issues_logRanges chain target _).evolves
  | retried ids tick unchanged =>
    rw [unchanged]
    exact Evolves.retryAll _ _ _

/-- Whatever is in flight after a step was issued by it, or was in flight before and is not
what the event names. -/
theorem transition_settles (chain : ChainKey) (state : State) (event : Event)
    {request : IssuedRequest}
    (inFlight : (transition chain state event).1.pendingRequests.InFlight request) :
    (state.pendingRequests.InFlight request ∧
      event.answered? ≠ some ⟨request.kind, request.requestId⟩) ∨
      request ∈ (transition chain state event).2 := by
  by_cases restarts : Reinitialises state event
  · cases event with
    | canonicalHeaderAtHeightReceived id hash number =>
      rw [transition_reinitialises chain state id restarts] at inFlight
      exact absurd inFlight (RequestStore.not_inFlight_new request)
    | _ => exact absurd restarts id
  by_cases failure : ∃ failed, event = .requestFailed failed
  · obtain ⟨failed, rfl⟩ := failure
    have handled : transition chain state (.requestFailed failed) = requestFailed state failed :=
      transition_of_output rfl
    rw [handled] at inFlight ⊢
    exact (RequestStore.retry_settles state.pendingRequests failed state.tick inFlight).imp_left
      (fun before => ⟨before.1, fun same => before.2 (Option.some.inj same)⟩)
  · have follows := (transition_follows chain state event restarts).evolves
    rcases follows.inFlight request inFlight with issued | before
    · exact .inr issued
    · refine .inl ⟨?_, fun answers => ?_⟩
      · exact ((absorb_evolves chain state event).inFlight request before).resolve_left
          List.not_mem_nil
      · exact absorb_forgets chain state answers (fun failed same => failure ⟨failed, same⟩) _ before

end Kernel

end ArmchairAnalyst

import ArmchairAnalyst.Kernel.WorkInFlight
import ArmchairAnalyst.Kernel.TrackedPools

/-!
# Pool metadata in flight

A candidate is known once an answer has carried a result for it, and stays known. A
request for metadata names unknown candidates only, and at least one.
-/

namespace ArmchairAnalyst

namespace TrustedPoolRegistry

theorem isKnown_iff (registry : TrustedPoolRegistry) (chain : ChainKey)
    (candidate : ProtocolPoolKey) :
    registry.isKnown chain candidate = true ↔
      { key := candidate, chain } ∈ registry.verified ∨ candidate ∈ registry.rejected := by
  simp only [isKnown, verifiedPool, isRejected, Bool.or_eq_true]
  split <;> simp_all

theorem isKnown_withMetadataResult (registry : TrustedPoolRegistry) (chain : ChainKey)
    (entry : ProtocolPoolKey × PoolMetadataResult) (candidate : ProtocolPoolKey) :
    (withMetadataResult chain registry entry).isKnown chain candidate = true ↔
      candidate = entry.1 ∨ registry.isKnown chain candidate = true := by
  obtain ⟨key, result⟩ := entry
  rw [isKnown_iff, isKnown_iff]
  cases result with
  | ok metadata =>
    simp only [withMetadataResult, Std.ExtTreeMap.mem_insert, Std.ExtTreeSet.mem_erase,
      Std.LawfulEqOrd.compare_eq_iff_eq, PoolRef.mk.injEq, and_true, ne_eq]
    grind
  | error failure =>
    simp only [withMetadataResult]
    split
    · grind
    · simp only [Std.ExtTreeSet.mem_insert, Std.LawfulEqOrd.compare_eq_iff_eq]
      grind

/-- The results make their candidates known and no other. -/
theorem isKnown_withMetadataResults (registry : TrustedPoolRegistry) (chain : ChainKey)
    (results : HashMap ProtocolPoolKey PoolMetadataResult) (candidate : ProtocolPoolKey) :
    (registry.withMetadataResults chain results).isKnown chain candidate = true ↔
      candidate ∈ results ∨ registry.isKnown chain candidate = true := by
  have folded (entries : List (ProtocolPoolKey × PoolMetadataResult)) :
      (entries.foldl (withMetadataResult chain) registry).isKnown chain candidate = true ↔
        candidate ∈ entries.map Prod.fst ∨ registry.isKnown chain candidate = true := by
    induction entries generalizing registry with
    | nil => simp
    | cons entry entries inductionHypothesis =>
      rw [List.foldl_cons, inductionHypothesis, isKnown_withMetadataResult, List.map_cons,
        List.mem_cons]
      exact or_left_comm.trans or_assoc.symm
  rw [withMetadataResults, folded, Std.ExtTreeMap.map_fst_toList_eq_keys,
    Std.ExtTreeMap.mem_keys]

end TrustedPoolRegistry

namespace Kernel

open RequestStore (Covers Exclusive Evolves AllPayloads)

variable [BloomHash] {chain : ChainKey}

/-! ### What is asked for -/

/-- A metadata request names unknown candidates, and at least one. -/
def AwaitsMetadata (chain : ChainKey) (registry : TrustedPoolRegistry) :
    (kind : RequestKind) → kind.Payload → Prop
  | .poolMetadata, payload =>
    (∃ candidate, candidate ∈ payload.candidates) ∧
      ∀ candidate ∈ payload.candidates, registry.isKnown chain candidate = false
  | _, _ => True

omit [BloomHash] in
theorem Asked.awaitsMetadata {absorbed : State} {kind : RequestKind} {payload : kind.Payload}
    (asked : Asked chain absorbed kind payload) :
    AwaitsMetadata chain absorbed.poolRegistry kind payload := by
  cases kind with
  | poolMetadata =>
    rcases asked with other | scheduled
    · simp at other
    · exact ⟨scheduled.1, fun candidate requested => (scheduled.2 candidate requested).1⟩
  | _ => trivial

/-- Distinct metadata requests in flight wait for distinct unknown candidates. -/
structure MetadataAwaited (chain : ChainKey) (state : State) : Prop where
  exclusive : Exclusive Names state.pendingRequests
  awaits : AllPayloads (AwaitsMetadata chain state.poolRegistry) state.pendingRequests

/-- The state in which an answered metadata request leaves the schedulers. -/
def metadataApplied (chain : ChainKey) (state : State) (id : UInt64) (payload : GetPoolMetadata)
    (metadata : HashMap ProtocolPoolKey PoolMetadataResult) : State :=
  { (state.take .poolMetadata id).1 with
    poolRegistry := state.poolRegistry.withMetadataResults chain
      (metadata.filter (fun candidate _ => payload.candidates.contains candidate)) }

theorem transition_metadataReceived {state : State} {id : UInt64} {payload : GetPoolMetadata}
    (inFlight : state.pendingRequests.InFlight ⟨.poolMetadata, id, payload⟩)
    (metadata : HashMap ProtocolPoolKey PoolMetadataResult) :
    transition chain state (.poolMetadataReceived id metadata) =
      scheduleUnknownCanonicalRequests chain
        (metadataApplied chain state id payload metadata, []) := by
  rw [transition_of_output rfl]
  exact answered_inFlight chain inFlight _

omit [BloomHash] in
theorem isKnown_metadataApplied (state : State) (id : UInt64) (payload : GetPoolMetadata)
    (metadata : HashMap ProtocolPoolKey PoolMetadataResult) (candidate : ProtocolPoolKey) :
    (metadataApplied chain state id payload metadata).poolRegistry.isKnown chain candidate = true ↔
      candidate ∈ metadata ∧ candidate ∈ payload.candidates ∨
        state.poolRegistry.isKnown chain candidate = true := by
  rw [metadataApplied, TrustedPoolRegistry.isKnown_withMetadataResults]
  have filtered : candidate ∈ metadata.filter
      (fun candidate _ => payload.candidates.contains candidate) ↔
      candidate ∈ metadata ∧ candidate ∈ payload.candidates := by
    grind
  rw [filtered]

variable (chain) in
/-- An answer makes exactly its own requested candidates known. -/
theorem isKnown_metadataReceived {state : State} {id : UInt64} {payload : GetPoolMetadata}
    (inFlight : state.pendingRequests.InFlight ⟨.poolMetadata, id, payload⟩)
    (metadata : HashMap ProtocolPoolKey PoolMetadataResult) (candidate : ProtocolPoolKey) :
    (transition chain state (.poolMetadataReceived id metadata)).1.poolRegistry.isKnown chain
        candidate = true ↔
      candidate ∈ metadata ∧ candidate ∈ payload.candidates ∨
        state.poolRegistry.isKnown chain candidate = true := by
  rw [transition_metadataReceived inFlight, (issues_schedule chain _).poolRegistry]
  exact isKnown_metadataApplied state id payload metadata candidate

omit [BloomHash] in
/-- The requests in flight next to an answered one are not touched by its results. -/
theorem awaits_metadataApplied {state : State} (awaited : MetadataAwaited chain state)
    {id : UInt64} {payload : GetPoolMetadata}
    (inFlight : state.pendingRequests.InFlight ⟨.poolMetadata, id, payload⟩)
    (metadata : HashMap ProtocolPoolKey PoolMetadataResult) :
    AllPayloads (AwaitsMetadata chain (metadataApplied chain state id payload metadata).poolRegistry)
      (metadataApplied chain state id payload metadata).pendingRequests := by
  rintro ⟨kind, id', payload'⟩ waiting
  have earlier := awaited.awaits _ (RequestStore.inFlight_of_take waiting)
  cases kind with
  | poolMetadata =>
    refine ⟨earlier.1, fun candidate requested => ?_⟩
    rw [← Bool.not_eq_true, isKnown_metadataApplied]
    rintro (⟨-, answered⟩ | known)
    · have free : ¬ Covers Names (state.pendingRequests.takeRequest .poolMetadata id).1
          (.candidate candidate) := awaited.exclusive.taken_free inFlight answered
      exact free ⟨_, waiting, requested⟩
    · rw [earlier.2 candidate requested] at known
      exact Bool.false_ne_true known
  | _ => trivial

/-- Apart from an answer to a metadata request in flight, a transition keeps the registry. -/
theorem poolRegistry_unanswered {state : State} {event : Event}
    (unanswered : ∀ id metadata, event = .poolMetadataReceived id metadata →
      ∀ payload, ¬ state.pendingRequests.InFlight ⟨.poolMetadata, id, payload⟩) :
    (transition chain state event).1.poolRegistry = state.poolRegistry := by
  by_cases answer : ∃ id metadata, event = .poolMetadataReceived id metadata
  · obtain ⟨id, metadata, rfl⟩ := answer
    have idle : transition chain state (.poolMetadataReceived id metadata) =
        ((state.take .poolMetadata id).1, []) := by
      rw [transition_of_output rfl]
      exact answered_stale chain (unanswered id metadata rfl) _
    rw [idle]
    rfl
  · exact transition_poolRegistry (· = state.poolRegistry) state event
      (fun id metadata same => absurd ⟨id, metadata, same⟩ answer) rfl

/-- After a transition, what is in flight and what was just issued waits for unknown candidates. -/
theorem transition_awaits {state : State} (awaited : MetadataAwaited chain state) (event : Event) :
    AllPayloads (AwaitsMetadata chain (transition chain state event).1.poolRegistry)
        (transition chain state event).1.pendingRequests ∧
      ∀ request ∈ (transition chain state event).2,
        AwaitsMetadata chain (transition chain state event).1.poolRegistry request.kind
          request.requestPayload := by
  by_cases answer : ∃ id metadata payload, event = .poolMetadataReceived id metadata ∧
      state.pendingRequests.InFlight ⟨.poolMetadata, id, payload⟩
  · obtain ⟨id, metadata, payload, rfl, inFlight⟩ := answer
    rw [transition_metadataReceived inFlight]
    have issues := issues_schedule chain (metadataApplied chain state id payload metadata, [])
    rw [issues.poolRegistry]
    obtain ⟨issued, appended, evolves, sort⟩ := issues.issued
    have unknown : ∀ request ∈ issued, AwaitsMetadata chain
        (metadataApplied chain state id payload metadata).poolRegistry request.kind
        request.requestPayload :=
      fun request membership => Asked.awaitsMetadata (.inr (sort request membership))
    rw [appended]
    exact ⟨(awaits_metadataApplied awaited inFlight metadata).evolves evolves unknown, unknown⟩
  · have registry : (transition chain state event).1.poolRegistry = state.poolRegistry := by
      apply poolRegistry_unanswered
      exact fun id metadata same payload inFlight => answer ⟨id, metadata, payload, same, inFlight⟩
    rw [registry]
    by_cases restarts : Reinitialises state event
    · cases event with
      | canonicalHeaderAtHeightReceived id hash number =>
        rw [transition_reinitialises chain state id restarts]
        exact ⟨fun request inFlight => absurd inFlight (RequestStore.not_inFlight_new request),
          by simp⟩
      | _ => exact absurd restarts id
    · have continues := transition_continues chain state event restarts
      have absorbed : (absorb chain state event).poolRegistry = state.poolRegistry := by
        rw [← registry, continues.core]
      have unknown : ∀ request ∈ (transition chain state event).2,
          AwaitsMetadata chain state.poolRegistry request.kind request.requestPayload := by
        intro request issued
        rcases continues.reasons request issued with asked | ⟨id, retried⟩
        · rw [← absorbed]
          exact asked.awaitsMetadata
        · exact awaited.awaits ⟨request.kind, id, request.requestPayload⟩ retried
      exact ⟨awaited.awaits.evolves continues.evolves unknown, unknown⟩

theorem transition_metadataAwaited {state : State} (awaited : MetadataAwaited chain state)
    (event : Event) : MetadataAwaited chain (transition chain state event).1 where
  exclusive := transition_exclusive chain awaited.exclusive event
  awaits := (transition_awaits awaited event).1

omit [BloomHash] in
theorem Starts.metadataAwaited {start : State × List Effect} (starts : Starts start) :
    MetadataAwaited chain start.1 := by
  refine ⟨starts.exclusive, ?_⟩
  cases starts with
  | init hash number =>
    exact fun request inFlight => absurd inFlight (RequestStore.not_inFlight_new request)
  | activateFromSeed hash number snapshots pools tokens blocks =>
    have issues := activation_issues chain hash number snapshots pools tokens blocks
    rw [issues.poolRegistry]
    obtain ⟨issued, -, evolves, sort⟩ := issues.issued
    have nothing : AllPayloads (AwaitsMetadata chain pools)
        (RequestStore.new : PendingRequests) :=
      fun request inFlight => absurd inFlight (RequestStore.not_inFlight_new request)
    exact nothing.evolves evolves (fun request membership =>
      Asked.awaitsMetadata (.inr (sort request membership)))

theorem Reached.metadataAwaited {state : State} (reached : Reached chain state) :
    MetadataAwaited chain state := by
  refine reached.invariant (MetadataAwaited chain) ?_
    (fun state event _ awaited _ => transition_metadataAwaited awaited event)
  rintro state ⟨effects, starts⟩
  exact starts.metadataAwaited

/-! ### Known candidates -/

theorem transition_isKnown_mono {state : State} {candidate : ProtocolPoolKey}
    (known : state.poolRegistry.isKnown chain candidate = true) (event : Event) :
    (transition chain state event).1.poolRegistry.isKnown chain candidate = true :=
  transition_poolRegistry (fun registry => registry.isKnown chain candidate = true) state event
    (fun _ _ _ registry results earlier =>
      (registry.isKnown_withMetadataResults chain results candidate).mpr (.inr earlier)) known

/-- No metadata request of a run names a candidate. -/
def NeverRequested (candidate : ProtocolPoolKey) (effects : List Effect) : Prop :=
  ∀ request ∈ effects, ¬ Names request.kind request.requestPayload (.candidate candidate)

theorem known_not_requested {state : State} (awaited : MetadataAwaited chain state)
    {candidate : ProtocolPoolKey} {event : Event}
    (known : (transition chain state event).1.poolRegistry.isKnown chain candidate = true) :
    NeverRequested candidate (transition chain state event).2 := by
  intro request issued named
  have waits := (transition_awaits awaited event).2 request issued
  obtain ⟨kind, id, payload⟩ := request
  obtain rfl := named.kind
  have unknown := waits.2 candidate named
  rw [known] at unknown
  exact Bool.noConfusion unknown

/-- A candidate that an event makes known is not asked for by the event's own transition,
and never again, whatever happens. -/
theorem known_never_requested {state : State} (awaited : MetadataAwaited chain state)
    {candidate : ProtocolPoolKey} {event : Event}
    (known : (transition chain state event).1.poolRegistry.isKnown chain candidate = true)
    (events : List Event) :
    NeverRequested candidate (run (transition chain) state (event :: events)).2 := by
  induction events generalizing state event with
  | nil => simpa [run] using known_not_requested awaited known
  | cons next events inductionHypothesis =>
    have later := inductionHypothesis (transition_metadataAwaited awaited event)
      (transition_isKnown_mono known next)
    intro request issued
    rcases List.mem_append.mp issued with first | rest
    · exact known_not_requested awaited known request first
    · exact later request rest

end Kernel

end ArmchairAnalyst

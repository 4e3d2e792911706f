import ArmchairAnalyst.RequestTargets

/-!
# A single request in flight

A component that asks for one thing at a time keeps a single request in flight.
Retries change its identifier and nothing else, and an answer under any other
identifier finds no request.
-/

namespace ArmchairAnalyst.RequestStore

variable {Kind : Type} {Payload : Kind → Type}

/-- The expected request is in flight under one identifier, and nothing else is. -/
def Expects (store : RequestStore Payload) (expected : Option ((kind : Kind) × Payload kind)) :
    Prop :=
  ∃ id, ∀ request, store.InFlight request ↔
    request.requestId = id ∧ expected = some ⟨request.kind, request.requestPayload⟩

theorem Expects.new : Expects (new : RequestStore Payload) none := by
  refine ⟨0, fun request => iff_of_false (not_inFlight_new request) ?_⟩
  rintro ⟨-, impossible⟩
  cases impossible

theorem Expects.not_inFlight {store : RequestStore Payload} (expects : Expects store none)
    (request : AnyIssuedRequest Payload) : ¬ store.InFlight request := by
  obtain ⟨id, only⟩ := expects
  intro inFlight
  cases ((only request).mp inFlight).2

/-- What is found under an identifier is the expected request. -/
theorem Expects.of_found {store : RequestStore Payload}
    {expected : Option ((kind : Kind) × Payload kind)} (expects : Expects store expected)
    {kind : Kind} {id : UInt64} {pending : PendingPayload (Payload kind)}
    (found : (store.collection kind)[id]? = some pending) :
    expected = some ⟨kind, pending.payload⟩ := by
  obtain ⟨_, only⟩ := expects
  exact ((only _).mp (inFlight_of_taken found)).2

variable [DecidableEq Kind]

theorem takeRequest_of_none {store : RequestStore Payload} {kind : Kind} {id : UInt64}
    (missing : (store.collection kind)[id]? = none) :
    store.takeRequest kind id = (store, none) := by
  have unchanged : (store.collection kind).erase id = store.collection kind := by
    apply HashMap.ext_getElem?
    intro other
    rw [HashMap.getElem?_erase]
    split
    · simp_all
    · rfl
  simp [takeRequest, withCollection, unchanged, missing]

/-- Taking the expected request leaves nothing in flight. -/
theorem Expects.take {store : RequestStore Payload}
    {expected : Option ((kind : Kind) × Payload kind)} (expects : Expects store expected)
    {kind : Kind} {id : UInt64} {pending : PendingPayload (Payload kind)}
    (found : (store.collection kind)[id]? = some pending) :
    Expects (store.takeRequest kind id).1 none := by
  obtain ⟨sole, only⟩ := expects
  obtain ⟨ids, taken⟩ := (only _).mp (inFlight_of_taken found)
  simp only at ids taken
  refine ⟨sole, fun request => iff_of_false ?_ (by simp)⟩
  obtain ⟨kind', id', payload'⟩ := request
  intro inFlight
  obtain ⟨ids', same⟩ := (only _).mp (inFlight_of_take inFlight)
  simp only at ids' same
  obtain rfl : id' = id := ids'.trans ids.symm
  rw [taken] at same
  obtain ⟨rfl, payloads⟩ := Sigma.mk.inj (Option.some.inj same)
  exact not_inFlight_take store kind id' payload' inFlight

theorem Expects.issue {store : RequestStore Payload} (expects : Expects store none) (kind : Kind)
    (payload : Payload kind) (tick : Tick) :
    Expects (store.issueRequest kind payload tick).1 (some ⟨kind, payload⟩) := by
  refine ⟨store.lastRequestId + 1, fun request => ⟨fun inFlight => ?_, ?_⟩⟩
  · obtain rfl := (inFlight_of_issue inFlight).resolve_right (expects.not_inFlight request)
    exact ⟨rfl, rfl⟩
  · obtain ⟨kind', id', payload'⟩ := request
    rintro ⟨rfl, same⟩
    obtain ⟨rfl, payloads⟩ := Sigma.mk.inj (Option.some.inj same)
    obtain rfl := eq_of_heq payloads
    exact inFlight_issue store kind payload tick

theorem Expects.retry {store : RequestStore Payload}
    {expected : Option ((kind : Kind) × Payload kind)} (expects : Expects store expected)
    (id : AnyRequestId Kind) (tick : Tick) : Expects (store.retry id tick).1 expected := by
  cases found : (store.collection id.kind)[id.requestId]? with
  | none => simpa only [RequestStore.retry, takeRequest_of_none found] using expects
  | some pending =>
    have reissued := (expects.take found).issue id.kind pending.payload tick
    have taken : (store.takeRequest id.kind id.requestId).2 = some pending := found
    rw [expects.of_found found]
    simpa only [RequestStore.retry, taken] using reissued

theorem Expects.retryAll {store : RequestStore Payload}
    {expected : Option ((kind : Kind) × Payload kind)} (expects : Expects store expected)
    (ids : List (AnyRequestId Kind)) (tick : Tick) :
    Expects (store.retryAll tick ids).1 expected := by
  induction ids generalizing store with
  | nil => exact expects
  | cons id ids inductionHypothesis => exact inductionHypothesis (expects.retry id tick)

/-! ### Superseded identifiers -/

omit [DecidableEq Kind] in
/-- An identifier that was handed out and is no longer in flight stays out of flight
until the sequence comes round. -/
theorem Evolves.superseded {store store' : RequestStore Payload}
    {issued later : List (AnyIssuedRequest Payload)} (evolves : Evolves new issued store)
    (evolves' : Evolves store later store') (bounded : (issued ++ later).length < 2 ^ 64)
    {request : AnyIssuedRequest Payload} (handed : request ∈ issued)
    (superseded : ¬ store.InFlight request) {pending : AnyIssuedRequest Payload}
    (inFlight : store'.InFlight pending) : pending.requestId ≠ request.requestId := by
  have distinct : ((issued ++ later).map (·.requestId)).Nodup := by
    rw [(evolves.trans evolves').ids]
    exact idsAfter_nodup _ bounded
  intro same
  have known : pending ∈ issued ++ later :=
    ((evolves.trans evolves').inFlight pending inFlight).resolve_right (not_inFlight_new pending)
  obtain rfl := List.inj_on_of_nodup_map distinct known (List.mem_append_left _ handed) same
  rcases evolves'.inFlight pending inFlight with again | earlier
  · rw [List.map_append, List.nodup_append'] at distinct
    exact distinct.2.2 (List.mem_map_of_mem handed) (List.mem_map_of_mem again)
  · exact superseded earlier

end ArmchairAnalyst.RequestStore

import ArmchairAnalyst.RequestTracking

/-!
# Targets of the requests in flight

A request names what it asks for. A store is exclusive when no target is named by
two requests in flight. An issued request stays in flight until it is taken, as
long as the identifier sequence does not come round to an identifier in use.
-/

namespace ArmchairAnalyst.RequestStore

variable {Kind : Type} {Payload : Kind → Type} {Target : Type}
  {names : (kind : Kind) → Payload kind → Target → Prop}

/-- A request in flight names the target. -/
def Covers (names : (kind : Kind) → Payload kind → Target → Prop) (store : RequestStore Payload)
    (target : Target) : Prop :=
  ∃ request, store.InFlight request ∧ names request.kind request.requestPayload target

/-- No target is named by two requests in flight. -/
def Exclusive (names : (kind : Kind) → Payload kind → Target → Prop)
    (store : RequestStore Payload) : Prop :=
  ∀ first second target, store.InFlight first → store.InFlight second →
    names first.kind first.requestPayload target →
    names second.kind second.requestPayload target → first = second

/-- Every identifier in flight has been handed out since the sequence was started. -/
def Sequenced (store : RequestStore Payload) : Prop :=
  ∀ request, store.InFlight request → request.requestId.toNat ≤ store.lastRequestId.toNat

theorem Exclusive.new : Exclusive names (new : RequestStore Payload) :=
  fun first _ _ inFlight => absurd inFlight (not_inFlight_new first)

theorem Sequenced.new : Sequenced (new : RequestStore Payload) :=
  fun request inFlight => absurd inFlight (not_inFlight_new request)

theorem not_covers_new (target : Target) : ¬ Covers names (new : RequestStore Payload) target :=
  fun ⟨request, inFlight, _⟩ => not_inFlight_new request inFlight

/-- One identifier carries one payload of a kind. -/
theorem inFlight_functional {store : RequestStore Payload} {kind : Kind} {id : UInt64}
    {payload payload' : Payload kind} (inFlight : store.InFlight ⟨kind, id, payload⟩)
    (inFlight' : store.InFlight ⟨kind, id, payload'⟩) : payload = payload' := by
  obtain ⟨tick, found⟩ := inFlight
  obtain ⟨tick', found'⟩ := inFlight'
  have same := Option.some.inj (found.symm.trans found')
  exact congrArg PendingPayload.payload same

variable [DecidableEq Kind]

/-! ### Taking and issuing -/

omit [DecidableEq Kind] in
theorem Covers.of_evolves {store store' : RequestStore Payload} {target : Target}
    (covers : Covers names store' target) (evolves : Evolves store [] store') :
    Covers names store target := by
  obtain ⟨request, inFlight, named⟩ := covers
  exact ⟨request, (evolves.inFlight request inFlight).resolve_left List.not_mem_nil, named⟩

omit [DecidableEq Kind] in
theorem Exclusive.of_evolves {store store' : RequestStore Payload}
    (exclusive : Exclusive names store) (evolves : Evolves store [] store') :
    Exclusive names store' := by
  have earlier : ∀ request, store'.InFlight request → store.InFlight request :=
    fun request inFlight => (evolves.inFlight request inFlight).resolve_left List.not_mem_nil
  exact fun first second target inFlight inFlight' =>
    exclusive first second target (earlier first inFlight) (earlier second inFlight')

/-- What is covered after a request has been issued was covered or is named by it. -/
theorem covers_of_issue {store : RequestStore Payload} {kind : Kind} {payload : Payload kind}
    {tick : Tick} {target : Target}
    (covers : Covers names (store.issueRequest kind payload tick).1 target) :
    names kind payload target ∨ Covers names store target := by
  obtain ⟨request, inFlight, named⟩ := covers
  rcases inFlight_of_issue inFlight with rfl | earlier
  · exact .inl named
  · exact .inr ⟨request, earlier, named⟩

/-- A request for targets that nothing in flight names keeps a store exclusive. -/
theorem Exclusive.issue {store : RequestStore Payload} (exclusive : Exclusive names store)
    {kind : Kind} {payload : Payload kind}
    (fresh : ∀ target, names kind payload target → ¬ Covers names store target) (tick : Tick) :
    Exclusive names (store.issueRequest kind payload tick).1 := by
  intro first second target inFlight inFlight' named named'
  rcases inFlight_of_issue inFlight with rfl | earlier
  · rcases inFlight_of_issue inFlight' with rfl | earlier'
    · rfl
    · exact absurd ⟨second, earlier', named'⟩ (fresh target named)
  · rcases inFlight_of_issue inFlight' with rfl | earlier'
    · exact absurd ⟨first, earlier, named⟩ (fresh target named')
    · exact exclusive first second target earlier earlier' named named'

theorem not_inFlight_take (store : RequestStore Payload) (kind : Kind) (id : UInt64)
    (payload : Payload kind) : ¬ (store.takeRequest kind id).1.InFlight ⟨kind, id, payload⟩ := by
  rintro ⟨tick, found⟩
  simp [takeRequest] at found

/-- The targets of a taken request are free. -/
theorem Exclusive.taken_free {store : RequestStore Payload} (exclusive : Exclusive names store)
    {kind : Kind} {id : UInt64} {payload : Payload kind}
    (inFlight : store.InFlight ⟨kind, id, payload⟩) {target : Target}
    (named : names kind payload target) :
    ¬ Covers names (store.takeRequest kind id).1 target := by
  rintro ⟨request, inFlight', named'⟩
  obtain rfl := exclusive request ⟨kind, id, payload⟩ target (inFlight_of_take inFlight')
    inFlight named' named
  exact not_inFlight_take store kind id payload inFlight'

theorem Exclusive.reissue {store : RequestStore Payload} (exclusive : Exclusive names store)
    {kind : Kind} {id : UInt64} {payload : Payload kind}
    (inFlight : store.InFlight ⟨kind, id, payload⟩) (tick : Tick) :
    Exclusive names ((store.takeRequest kind id).1.issueRequest kind payload tick).1 := by
  apply (exclusive.of_evolves (Evolves.take store kind id)).issue
  exact fun target named => exclusive.taken_free inFlight named

theorem Exclusive.retry {store : RequestStore Payload} (exclusive : Exclusive names store)
    (id : AnyRequestId Kind) (tick : Tick) : Exclusive names (store.retry id tick).1 := by
  cases found : (store.takeRequest id.kind id.requestId).2 with
  | none =>
    simp only [RequestStore.retry, found]
    exact exclusive.of_evolves (Evolves.take store id.kind id.requestId)
  | some pending =>
    simp only [RequestStore.retry, found]
    exact exclusive.reissue (inFlight_of_taken found) tick

theorem Exclusive.retryAll {store : RequestStore Payload} (exclusive : Exclusive names store)
    (ids : List (AnyRequestId Kind)) (tick : Tick) :
    Exclusive names (store.retryAll tick ids).1 := by
  induction ids generalizing store with
  | nil => exact exclusive
  | cons id ids inductionHypothesis => exact inductionHypothesis (exclusive.retry id tick)

/-! ### Staying in flight -/

omit [DecidableEq Kind] in
theorem toNat_add_ofNat {last : UInt64} {count : Nat} (bounded : last.toNat + count < 2 ^ 64) :
    (last + UInt64.ofNat count).toNat = last.toNat + count := by
  rw [UInt64.toNat_add, UInt64.toNat_ofNat']
  omega

omit [DecidableEq Kind] in
theorem toNat_of_mem_idsAfter {last id : UInt64} {count : Nat}
    (bounded : last.toNat + count < 2 ^ 64) (membership : id ∈ idsAfter last count) :
    last.toNat < id.toNat ∧ id.toNat ≤ last.toNat + count := by
  obtain ⟨i, listed, rfl⟩ := List.mem_map.mp membership
  have small := List.mem_range.mp listed
  rw [toNat_add_ofNat (by omega)]
  omega

omit [DecidableEq Kind] in
/-- A step that does not come round keeps every identifier below the last one. -/
theorem Sequenced.evolves {store store' : RequestStore Payload}
    {issued : List (AnyIssuedRequest Payload)} (sequenced : Sequenced store)
    (evolves : Evolves store issued store')
    (bounded : store.lastRequestId.toNat + issued.length < 2 ^ 64) :
    Sequenced store' ∧
      store'.lastRequestId.toNat = store.lastRequestId.toNat + issued.length := by
  have last : store'.lastRequestId.toNat = store.lastRequestId.toNat + issued.length := by
    rw [evolves.counter, toNat_add_ofNat bounded]
  refine ⟨fun request inFlight => ?_, last⟩
  rw [last]
  rcases evolves.inFlight request inFlight with membership | earlier
  · have listed : request.requestId ∈ idsAfter store.lastRequestId issued.length := by
      rw [← evolves.ids]
      exact List.mem_map_of_mem membership
    exact (toNat_of_mem_idsAfter bounded listed).2
  · exact Nat.le_trans (sequenced request earlier) (Nat.le_add_right _ _)

/-- An unused identifier overwrites nothing. -/
theorem Sequenced.inFlight_issue {store : RequestStore Payload} (sequenced : Sequenced store)
    (bounded : store.lastRequestId.toNat + 1 < 2 ^ 64) {request : AnyIssuedRequest Payload}
    (inFlight : store.InFlight request) (kind : Kind) (payload : Payload kind) (tick : Tick) :
    (store.issueRequest kind payload tick).1.InFlight request := by
  have used := sequenced request inFlight
  obtain ⟨tick', found⟩ := inFlight
  obtain ⟨kind', id, payload'⟩ := request
  refine ⟨tick', ?_⟩
  by_cases same : kind' = kind
  · subst same
    have unused : store.lastRequestId + 1 ≠ id := by
      rintro rfl
      have next := toNat_add_ofNat bounded
      simp only at used
      have one : UInt64.ofNat 1 = 1 := rfl
      rw [one] at next
      omega
    simp only [issueRequest, withCollection_self]
    rw [Std.ExtTreeMap.getElem?_insert]
    simpa [unused] using found
  · simpa [issueRequest, same] using found

/-- Issues the payloads in turn. -/
def issueAll (store : RequestStore Payload) (tick : Tick) :
    List ((kind : Kind) × Payload kind) → RequestStore Payload
  | [] => store
  | ⟨kind, payload⟩ :: payloads => ((store.issueRequest kind payload tick).1).issueAll tick payloads

theorem issueAll_append (store : RequestStore Payload) (tick : Tick)
    (first second : List ((kind : Kind) × Payload kind)) :
    store.issueAll tick (first ++ second) = (store.issueAll tick first).issueAll tick second := by
  induction first generalizing store with
  | nil => rfl
  | cons entry first inductionHypothesis => exact inductionHypothesis _

/-- Without coming round, everything in flight stays so and every payload is put in flight. -/
theorem Sequenced.inFlight_issueAll {store : RequestStore Payload} (sequenced : Sequenced store)
    {payloads : List ((kind : Kind) × Payload kind)}
    (bounded : store.lastRequestId.toNat + payloads.length < 2 ^ 64) (tick : Tick) :
    (∀ request, store.InFlight request → (store.issueAll tick payloads).InFlight request) ∧
      ∀ entry ∈ payloads, ∃ id, (store.issueAll tick payloads).InFlight ⟨entry.1, id, entry.2⟩ := by
  induction payloads generalizing store with
  | nil => exact ⟨fun _ inFlight => inFlight, by simp⟩
  | cons first payloads inductionHypothesis =>
    rw [List.length_cons] at bounded
    obtain ⟨sequenced', last⟩ := sequenced.evolves
      (Evolves.issue store first.1 first.2 tick) (by simp only [List.length_singleton]; omega)
    rw [List.length_singleton] at last
    obtain ⟨kept, filed⟩ := inductionHypothesis sequenced' (by omega)
    constructor
    · intro request inFlight
      exact kept request (sequenced.inFlight_issue (by omega) inFlight _ _ _)
    · intro entry membership
      rcases List.mem_cons.mp membership with rfl | later
      · exact ⟨_, kept _ (RequestStore.inFlight_issue store entry.1 entry.2 tick)⟩
      · exact filed entry later

end ArmchairAnalyst.RequestStore

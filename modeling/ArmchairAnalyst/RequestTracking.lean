import ArmchairAnalyst.Library.Collections

/-!
# Request tracking

Requests of several kinds share one identifier sequence and are kept, per kind,
under the identifier they were issued with until an answer takes them. The
sequence wraps around at the end of the 64-bit range.
-/

namespace ArmchairAnalyst

structure Tick where
  value : UInt64
  deriving DecidableEq, Repr

namespace Tick

def requestTtl : UInt64 := 10

def initial : Tick := ⟨0⟩

def next (tick : Tick) : Tick := ⟨tick.value + 1⟩

def elapsedSince (tick earlier : Tick) : UInt64 := tick.value - earlier.value

def isExpiredSince (tick dispatchedAt : Tick) : Bool :=
  decide (requestTtl ≤ tick.elapsedSince dispatchedAt)

end Tick

structure PendingPayload (R : Type) where
  payload : R
  dispatchedAt : Tick
  deriving DecidableEq

/-- The order in which a hash map yields its entries, which the program leaves open. -/
structure IterationOrder where
  arrange : List UInt64 → List UInt64
  perm : ∀ ids, (arrange ids).Perm ids

def IterationOrder.ascending : IterationOrder := ⟨id, fun _ => .refl _⟩

structure AnyRequestId (Kind : Type) where
  kind : Kind
  requestId : UInt64

structure AnyIssuedRequest {Kind : Type} (Payload : Kind → Type) where
  kind : Kind
  requestId : UInt64
  requestPayload : Payload kind

/-- The identifier sequence with one collection of outstanding requests for each kind. -/
structure RequestStore {Kind : Type} (Payload : Kind → Type) where
  lastRequestId : UInt64
  collection : (kind : Kind) → HashMap UInt64 (PendingPayload (Payload kind))

namespace RequestStore

variable {Kind : Type} {Payload : Kind → Type}

def new : RequestStore Payload where
  lastRequestId := 0
  collection := fun _ => ∅

variable [DecidableEq Kind]

def withCollection (store : RequestStore Payload) (kind : Kind)
    (requests : HashMap UInt64 (PendingPayload (Payload kind))) : RequestStore Payload :=
  { store with collection := Function.update store.collection kind requests }

@[simp] theorem withCollection_lastRequestId (store : RequestStore Payload) (kind : Kind)
    (requests : HashMap UInt64 (PendingPayload (Payload kind))) :
    (store.withCollection kind requests).lastRequestId = store.lastRequestId := rfl

@[simp] theorem withCollection_self (store : RequestStore Payload) (kind : Kind)
    (requests : HashMap UInt64 (PendingPayload (Payload kind))) :
    (store.withCollection kind requests).collection kind = requests := by
  simp [withCollection]

@[simp] theorem withCollection_of_ne (store : RequestStore Payload) {kind other : Kind}
    (requests : HashMap UInt64 (PendingPayload (Payload kind))) (distinct : other ≠ kind) :
    (store.withCollection kind requests).collection other = store.collection other := by
  simp [withCollection, distinct]

/-- The next identifier is stored as the last one and filed with the payload. -/
def issueRequest (store : RequestStore Payload) (kind : Kind) (payload : Payload kind)
    (tick : Tick) : RequestStore Payload × UInt64 :=
  let requestId := store.lastRequestId + 1
  let store := { store with lastRequestId := requestId }
  (store.withCollection kind ((store.collection kind).insert requestId ⟨payload, tick⟩), requestId)

def takeRequest (store : RequestStore Payload) (kind : Kind) (requestId : UInt64) :
    RequestStore Payload × Option (PendingPayload (Payload kind)) :=
  (store.withCollection kind ((store.collection kind).erase requestId),
    (store.collection kind)[requestId]?)

/-- Keep only the requests of a kind whose payload passes a test. -/
def retain (store : RequestStore Payload) (kind : Kind) (keep : Payload kind → Bool) :
    RequestStore Payload :=
  store.withCollection kind ((store.collection kind).filter (fun _ request => keep request.payload))

omit [DecidableEq Kind] in
def expiredRequestIds (order : IterationOrder) (store : RequestStore Payload) (kind : Kind)
    (tick : Tick) : List UInt64 :=
  order.arrange (((store.collection kind).toList.filter
    (fun entry => tick.isExpiredSince entry.2.dispatchedAt)).map Prod.fst)

/-- Takes a request and issues its payload again under a new identifier. -/
def retry (store : RequestStore Payload) (id : AnyRequestId Kind) (tick : Tick) :
    RequestStore Payload × Option (AnyIssuedRequest Payload) :=
  let (store, pending) := store.takeRequest id.kind id.requestId
  match pending with
  | none => (store, none)
  | some ⟨payload, _⟩ =>
    let (store, requestId) := store.issueRequest id.kind payload tick
    (store, some ⟨id.kind, requestId, payload⟩)

/-- Retries a list of requests in turn, collecting what is issued. -/
def retryAll (store : RequestStore Payload) (tick : Tick) :
    List (AnyRequestId Kind) → RequestStore Payload × List (AnyIssuedRequest Payload)
  | [] => (store, [])
  | id :: ids =>
    let (store, issued) := store.retry id tick
    let (store, later) := store.retryAll tick ids
    (store, issued.toList ++ later)

/-! ### What is in flight -/

omit [DecidableEq Kind] in
/-- A request is outstanding under its own identifier and with its own payload. -/
def InFlight (store : RequestStore Payload) (request : AnyIssuedRequest Payload) : Prop :=
  ∃ tick, (store.collection request.kind)[request.requestId]? =
    some ⟨request.requestPayload, tick⟩

omit [DecidableEq Kind] in
theorem not_inFlight_new (request : AnyIssuedRequest Payload) :
    ¬ (new : RequestStore Payload).InFlight request := by
  rintro ⟨tick, found⟩
  simp [new] at found

theorem inFlight_withCollection {store : RequestStore Payload} {kind : Kind}
    {requests : HashMap UInt64 (PendingPayload (Payload kind))}
    {request : AnyIssuedRequest Payload}
    (inFlight : (store.withCollection kind requests).InFlight request)
    (submap : ∀ (id : UInt64) pending, requests[id]? = some pending →
      (store.collection kind)[id]? = some pending) :
    store.InFlight request := by
  obtain ⟨tick, found⟩ := inFlight
  obtain ⟨kind', id, payload⟩ := request
  by_cases same : kind' = kind
  · subst same
    exact ⟨tick, submap _ _ (by simpa using found)⟩
  · exact ⟨tick, by simpa [same] using found⟩

theorem inFlight_of_take {store : RequestStore Payload} {kind : Kind} {id : UInt64}
    {request : AnyIssuedRequest Payload}
    (inFlight : (store.takeRequest kind id).1.InFlight request) : store.InFlight request :=
  inFlight_withCollection inFlight (by grind)

theorem inFlight_of_retain {store : RequestStore Payload} {kind : Kind}
    {keep : Payload kind → Bool} {request : AnyIssuedRequest Payload}
    (inFlight : (store.retain kind keep).InFlight request) : store.InFlight request :=
  inFlight_withCollection inFlight (by grind)

theorem inFlight_of_issue {store : RequestStore Payload} {kind : Kind} {payload : Payload kind}
    {tick : Tick} {request : AnyIssuedRequest Payload}
    (inFlight : (store.issueRequest kind payload tick).1.InFlight request) :
    request = ⟨kind, store.lastRequestId + 1, payload⟩ ∨ store.InFlight request := by
  obtain ⟨tick', found⟩ := inFlight
  obtain ⟨kind', id, payload'⟩ := request
  by_cases same : kind' = kind
  · subst same
    by_cases sameId : id = store.lastRequestId + 1
    · left
      simp_all [issueRequest]
    · right
      refine ⟨tick', ?_⟩
      simp only [issueRequest, withCollection_self] at found
      grind
  · exact .inr ⟨tick', by simpa [issueRequest, same] using found⟩

theorem inFlight_issue (store : RequestStore Payload) (kind : Kind) (payload : Payload kind)
    (tick : Tick) :
    (store.issueRequest kind payload tick).1.InFlight ⟨kind, store.lastRequestId + 1, payload⟩ :=
  ⟨tick, by simp [issueRequest]⟩

omit [DecidableEq Kind] in
/-- What a retried identifier names is in flight. -/
theorem inFlight_of_taken {store : RequestStore Payload} {kind : Kind} {id : UInt64}
    {pending : PendingPayload (Payload kind)}
    (found : (store.collection kind)[id]? = some pending) :
    store.InFlight ⟨kind, id, pending.payload⟩ := ⟨pending.dispatchedAt, found⟩

/-! ### What the operations issue -/

/-- The identifiers that follow `last`, in the order in which they are handed out. -/
def idsAfter (last : UInt64) (count : Nat) : List UInt64 :=
  (List.range count).map (fun i => last + UInt64.ofNat (i + 1))

omit [DecidableEq Kind] in
theorem idsAfter_add (last : UInt64) (first second : Nat) :
    idsAfter last (first + second) =
      idsAfter last first ++ idsAfter (last + UInt64.ofNat first) second := by
  simp only [idsAfter, List.range_add, List.map_append, List.map_map]
  congr 1
  apply List.map_congr_left
  intro i _
  simp only [Function.comp_apply, UInt64.add_assoc, ← UInt64.ofNat_add, Nat.add_assoc]

omit [DecidableEq Kind] in
/-- Identifiers repeat only after the whole 64-bit range has been used. -/
theorem idsAfter_nodup (last : UInt64) {count : Nat} (bounded : count < 2 ^ 64) :
    (idsAfter last count).Nodup := by
  refine List.Nodup.map_on ?_ List.nodup_range
  intro i membership j membership' same
  have small := List.mem_range.mp membership
  have small' := List.mem_range.mp membership'
  have words : UInt64.ofNat (i + 1) = UInt64.ofNat (j + 1) := by
    have shifted := congrArg (· - last) same
    simpa [UInt64.add_comm last] using shifted
  have values := congrArg UInt64.toNat words
  rw [UInt64.toNat_ofNat', UInt64.toNat_ofNat', Nat.mod_eq_of_lt (by omega),
    Nat.mod_eq_of_lt (by omega)] at values
  omega

/-- How the operations change a store: the issued requests carry the next
identifiers, and whatever is in flight afterwards was issued or was in flight. -/
structure Evolves (store : RequestStore Payload) (issued : List (AnyIssuedRequest Payload))
    (store' : RequestStore Payload) : Prop where
  counter : store'.lastRequestId = store.lastRequestId + UInt64.ofNat issued.length
  ids : issued.map (·.requestId) = idsAfter store.lastRequestId issued.length
  inFlight : ∀ request, store'.InFlight request → request ∈ issued ∨ store.InFlight request

namespace Evolves

omit [DecidableEq Kind] in
theorem refl (store : RequestStore Payload) : Evolves store [] store where
  counter := by simp
  ids := rfl
  inFlight := fun _ inFlight => .inr inFlight

omit [DecidableEq Kind] in
theorem trans {store middle store' : RequestStore Payload}
    {first second : List (AnyIssuedRequest Payload)} (evolves : Evolves store first middle)
    (evolves' : Evolves middle second store') : Evolves store (first ++ second) store' where
  counter := by
    rw [evolves'.counter, evolves.counter, List.length_append, UInt64.ofNat_add,
      UInt64.add_assoc]
  ids := by
    rw [List.map_append, evolves.ids, evolves'.ids, evolves.counter, List.length_append,
      idsAfter_add]
  inFlight := by
    intro request inFlight
    rcases evolves'.inFlight request inFlight with membership | inFlight
    · exact .inl (List.mem_append_right _ membership)
    · rcases evolves.inFlight request inFlight with membership | inFlight
      · exact .inl (List.mem_append_left _ membership)
      · exact .inr inFlight

theorem issue (store : RequestStore Payload) (kind : Kind) (payload : Payload kind)
    (tick : Tick) :
    Evolves store [⟨kind, store.lastRequestId + 1, payload⟩]
      (store.issueRequest kind payload tick).1 where
  counter := rfl
  ids := rfl
  inFlight := by
    intro request inFlight
    rcases inFlight_of_issue inFlight with rfl | inFlight
    · exact .inl List.mem_cons_self
    · exact .inr inFlight

theorem take (store : RequestStore Payload) (kind : Kind) (id : UInt64) :
    Evolves store [] (store.takeRequest kind id).1 where
  counter := by simp [takeRequest]
  ids := rfl
  inFlight := fun _ inFlight => .inr (inFlight_of_take inFlight)

theorem retain (store : RequestStore Payload) (kind : Kind) (keep : Payload kind → Bool) :
    Evolves store [] (store.retain kind keep) where
  counter := by simp [RequestStore.retain]
  ids := rfl
  inFlight := fun _ inFlight => .inr (inFlight_of_retain inFlight)

theorem retry (store : RequestStore Payload) (id : AnyRequestId Kind) (tick : Tick) :
    Evolves store (store.retry id tick).2.toList (store.retry id tick).1 := by
  have taken := Evolves.take store id.kind id.requestId
  cases found : (store.takeRequest id.kind id.requestId).2 with
  | none => simpa [RequestStore.retry, found] using taken
  | some pending =>
    have issued := Evolves.issue (store.takeRequest id.kind id.requestId).1 id.kind
      pending.payload tick
    simpa [RequestStore.retry, found, issueRequest] using taken.trans issued

theorem retryAll (store : RequestStore Payload) (tick : Tick) (ids : List (AnyRequestId Kind)) :
    Evolves store (store.retryAll tick ids).2 (store.retryAll tick ids).1 := by
  induction ids generalizing store with
  | nil => exact Evolves.refl store
  | cons id ids inductionHypothesis =>
    exact (Evolves.retry store id tick).trans (inductionHypothesis _)

end Evolves

/-! ### Properties of the payloads in flight -/

omit [DecidableEq Kind] in
def AllPayloads (holds : (kind : Kind) → Payload kind → Prop) (store : RequestStore Payload) :
    Prop :=
  ∀ request, store.InFlight request → holds request.kind request.requestPayload

variable {holds : (kind : Kind) → Payload kind → Prop}

omit [DecidableEq Kind] in
theorem AllPayloads.evolves {store store' : RequestStore Payload}
    {issued : List (AnyIssuedRequest Payload)} (all : AllPayloads holds store)
    (evolves : Evolves store issued store')
    (allIssued : ∀ request ∈ issued, holds request.kind request.requestPayload) :
    AllPayloads holds store' := by
  intro request inFlight
  rcases evolves.inFlight request inFlight with membership | inFlight
  · exact allIssued request membership
  · exact all request inFlight

/-- A retry issues the payload of a request in flight. -/
theorem AllPayloads.retry_issued {store : RequestStore Payload} (all : AllPayloads holds store)
    (id : AnyRequestId Kind) (tick : Tick) {request : AnyIssuedRequest Payload}
    (issued : (store.retry id tick).2 = some request) :
    holds request.kind request.requestPayload := by
  cases found : (store.collection id.kind)[id.requestId]? with
  | none => simp [retry, takeRequest, found] at issued
  | some pending =>
    simp only [retry, takeRequest, found, Option.some.injEq] at issued
    subst issued
    exact all ⟨id.kind, id.requestId, pending.payload⟩ (inFlight_of_taken found)

theorem AllPayloads.retryAll_issued {store : RequestStore Payload} (all : AllPayloads holds store)
    (ids : List (AnyRequestId Kind)) (tick : Tick) :
    ∀ request ∈ (store.retryAll tick ids).2, holds request.kind request.requestPayload := by
  induction ids generalizing store with
  | nil => simp [retryAll]
  | cons id ids inductionHypothesis =>
    intro request membership
    have first : ∀ request ∈ (store.retry id tick).2.toList,
        holds request.kind request.requestPayload :=
      fun request membership => all.retry_issued id tick (Option.mem_toList.mp membership)
    rcases List.mem_append.mp membership with membership | membership
    · exact first request membership
    · exact inductionHypothesis (all.evolves (Evolves.retry store id tick) first) request membership

end RequestStore

end ArmchairAnalyst

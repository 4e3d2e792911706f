import ArmchairAnalyst.Client.Failover
import ArmchairAnalyst.Client.Multicall

/-!
# What a batched multicall returns

An endpoint answers each entry of a batch by running its calls at its block, and returns
the answers in any order. The batches together then return what a single `aggregate3`
over all the calls returns.
-/

namespace ArmchairAnalyst.Client

theorem requestId_injective {index index' : Nat} (bound : index < 2 ^ 64) (bound' : index' < 2 ^ 64)
    (same : requestId index = requestId index') : index = index' := by
  have numbers := congrArg UInt64.toNat (add_right_cancel same)
  rwa [UInt64.toNat_ofNat_of_lt' bound, UInt64.toNat_ofNat_of_lt' bound'] at numbers

section Answers

variable [JsonText] [Multicall3Abi]

/-- What is written is read back. -/
structure RoundTrips : Prop where
  bytes (data : Bytes) : JsonText.fromValue (JsonText.toValue data) = .ok data
  calls (calls : List Call3) :
    Multicall3Abi.decodeCalls (Multicall3Abi.encodeCalls calls) = some calls
  returns (results : List MulticallCallResult) :
    Multicall3Abi.decodeReturns (Multicall3Abi.encodeReturns results) = .ok results

/-- The block and the calls of an `eth_call` of the multicall contract. -/
def requestedCalls (request : Value) : Option (Value × List Call3) := do
  let method ← (request.get "method").bind Value.asStr
  let params ← (request.get "params").bind Value.asArray
  let call ← params[0]?
  let block ← params[1]?
  let target ← (call.get "to").bind Value.asStr
  let data ← (call.get "data").bind (fun data => (JsonText.fromValue data).toOption)
  let calls ← Multicall3Abi.decodeCalls data
  if method = "eth_call" ∧ target = Wire.addressLowerHex multicall3Address then
    some (block, calls)
  else none

/-- An entry that answers a request by running its calls at its block. -/
def Answers (evaluate : Value → Call3 → MulticallCallResult) (request entry : Value) : Prop :=
  ∃ block calls, requestedCalls request = some (block, calls) ∧
    entry.get "id" = request.get "id" ∧
    (entry.get "jsonrpc").bind Value.asStr = some "2.0" ∧ entry.get "error" = none ∧
    entry.get "result" = some (JsonText.toValue
      (Multicall3Abi.encodeReturns (calls.map (evaluate block))))

/-- A response that answers every entry of a batch, in any order. -/
def Reorders (evaluate : Value → Call3 → MulticallCallResult) (request response : Value) : Prop :=
  ∃ requests entries answers, request.asArray = some requests ∧
    response.asArray = some entries ∧ entries.Perm answers ∧
    List.Forall₂ (Answers evaluate) requests answers

/-- What a call returns at the block of a multicall. -/
def callResult (evaluate : Value → Call3 → MulticallCallResult) (block : MulticallBlock)
    (call : MulticallCall) : MulticallCallResult :=
  evaluate block.toParam call.call3

theorem requestedCalls_build (codec : RoundTrips) (id : UInt64) (block : MulticallBlock)
    (calls : List MulticallCall) :
    requestedCalls (buildMulticall3Request id block calls) =
      some (block.toParam, calls.map MulticallCall.call3) := by
  simp [requestedCalls, buildMulticall3Request, Value.get, Value.asStr, Value.asArray,
    List.lookup, codec.bytes, codec.calls, Except.toOption]

theorem id_buildMulticall3Request (id : UInt64)
    (block : MulticallBlock) (calls : List MulticallCall) :
    ((buildMulticall3Request id block calls).get "id").bind Value.asU64 = some id := by
  simp [buildMulticall3Request, Value.get, List.lookup, Value.asU64]

theorem Answers.carries (codec : RoundTrips) {evaluate : Value → Call3 → MulticallCallResult}
    {id : UInt64} {block : MulticallBlock} {calls : List MulticallCall} {entry : Value}
    (answered : Answers evaluate (buildMulticall3Request id block calls) entry) :
    (entry.get "id").bind Value.asU64 = some id ∧
      Carries entry calls.length (calls.map (callResult evaluate block)) := by
  obtain ⟨param, asked, requested, sameId, version, noError, result⟩ := answered
  rw [requestedCalls_build codec] at requested
  obtain ⟨rfl, rfl⟩ := Prod.mk.inj (Option.some.inj requested)
  refine ⟨?_, version, noError, _, _, result, codec.bytes _, ?_, ?_⟩
  · rw [sameId, id_buildMulticall3Request]
  · rw [codec.returns, List.map_map]
    rfl
  · rw [List.length_map]

/-- The result of a single `aggregate3`. -/
theorem Answers.parsed (codec : RoundTrips) {evaluate : Value → Call3 → MulticallCallResult}
    {id : UInt64} {block : MulticallBlock} {calls : List MulticallCall} {entry : Value}
    (answered : Answers evaluate (buildMulticall3Request id block calls) entry) :
    parseMulticall3Response entry id calls.length =
      .ok (calls.map (callResult evaluate block)) :=
  parseMulticall3Response_ok_iff.mpr (answered.carries codec)

/-- However the entries are ordered, each chunk finds its own. -/
theorem Reorders.complete (codec : RoundTrips) {evaluate : Value → Call3 → MulticallCallResult}
    {block : MulticallBlock} {batch : List (List MulticallCall)} (bounded : batch.length < 2 ^ 64)
    {response : Value}
    (reordered : Reorders evaluate (buildMulticall3BatchRequest block batch) response) :
    Complete (batch.map List.length) response (batch.flatten.map (callResult evaluate block)) := by
  obtain ⟨requests, entries, answers, listed, array, permuted, answered⟩ := reordered
  obtain rfl := Option.some.inj listed
  have count : answers.length = batch.length := by simpa using answered.length_eq.symm
  refine ⟨entries, batch.map (fun chunk => chunk.map (callResult evaluate block)), array, ?_, ?_, ?_⟩
  · rw [permuted.length_eq, count, List.length_map]
  · rw [List.forall₂_iff_get]
    refine ⟨by simp, fun i bound bound' => ?_⟩
    have inBatch : i < batch.length := by simpa using bound
    have answersAt (j : Nat) (inBatch : j < batch.length) (inAnswers : j < answers.length) :
        (answers[j].get "id").bind Value.asU64 = some (requestId j) ∧
          Carries answers[j] batch[j].length (batch[j].map (callResult evaluate block)) := by
      have pair := answered.get (by simpa using inBatch) inAnswers
      simp only [List.get_eq_getElem, List.getElem_map, List.getElem_zipIdx, zero_add] at pair
      exact pair.carries codec
    have inAnswers : i < answers.length := count ▸ inBatch
    refine ⟨answers[i], ?_, ?_⟩
    · refine find?_eq_some_of_unique (permuted.mem_iff.mpr (List.getElem_mem _)) ?_ ?_
      · simpa [hasId] using (answersAt i inBatch inAnswers).1
      · intro entry present matched
        obtain ⟨j, bound', rfl⟩ := List.getElem_of_mem (permuted.mem_iff.mp present)
        have other := (answersAt j (count ▸ bound') bound').1
        have matched : (answers[j].get "id").bind Value.asU64 = some (requestId i) := by
          simpa [hasId] using matched
        have same := requestId_injective (by omega) (by omega)
          (Option.some.inj (other.symm.trans matched))
        subst same
        rfl
    · simpa using (answersAt i inBatch inAnswers).2
  · rw [List.map_flatten]

/-- A response that leaves out an entry, or has one without results of the right number. -/
def Incomplete (counts : List Nat) (response : Value) : Prop :=
  ∀ entries, response.asArray = some entries → entries.length ≠ counts.length ∨
    ∃ expected ∈ counts.zipIdx, ∀ entry, entries.find? (hasId (requestId expected.2)) = some entry →
      ∀ results, ¬Carries entry expected.1 results

theorem Incomplete.not_complete {counts : List Nat} {response : Value}
    (incomplete : Incomplete counts response) (results : List MulticallCallResult) :
    ¬Complete counts response results := by
  rintro ⟨entries, parts, array, counted, carried, -⟩
  rcases incomplete entries array with miscounted | ⟨expected, listed, lost⟩
  · exact miscounted counted
  · obtain ⟨i, bound, rfl⟩ := List.getElem_of_mem listed
    obtain ⟨entry, found, carries⟩ := carried.get bound (carried.length_eq ▸ bound)
    exact lost entry found _ carries

/-! ### An endpoint that answers -/

def answerEntry (evaluate : Value → Call3 → MulticallCallResult) (request : Value) : Value :=
  match requestedCalls request with
  | none => .object [("jsonrpc", .string "2.0"), ("error", .null)]
  | some (block, calls) =>
    .object
      [("jsonrpc", .string "2.0"), ("id", (request.get "id").getD .null),
        ("result", JsonText.toValue (Multicall3Abi.encodeReturns (calls.map (evaluate block))))]

/-- The answers of a batch, last entry first. -/
def answerBatch (evaluate : Value → Call3 → MulticallCallResult) (request : Value) : Value :=
  .array ((request.asArray.getD []).map (answerEntry evaluate)).reverse

theorem answerEntry_answers (codec : RoundTrips)
    (evaluate : Value → Call3 → MulticallCallResult) (id : UInt64) (block : MulticallBlock)
    (calls : List MulticallCall) :
    Answers evaluate (buildMulticall3Request id block calls)
      (answerEntry evaluate (buildMulticall3Request id block calls)) := by
  have requested := requestedCalls_build codec id block calls
  refine ⟨_, _, requested, ?_⟩
  rw [answerEntry, requested]
  simp [buildMulticall3Request, Value.get, List.lookup, Value.asStr]

theorem answerBatch_reorders (codec : RoundTrips)
    (evaluate : Value → Call3 → MulticallCallResult) (block : MulticallBlock)
    (batch : List (List MulticallCall)) :
    Reorders evaluate (buildMulticall3BatchRequest block batch)
      (answerBatch evaluate (buildMulticall3BatchRequest block batch)) := by
  refine ⟨_, _, _, rfl, rfl, List.reverse_perm _, ?_⟩
  rw [List.forall₂_map_right_iff, buildMulticall3BatchRequest, Value.asArray, Option.getD_some,
    List.forall₂_same]
  intro request listed
  obtain ⟨chunk, -, rfl⟩ := List.mem_map.mp listed
  exact answerEntry_answers codec evaluate _ block chunk.1

/-! ### Batches on the shared rotation -/

/-- What an endpoint answers to a batch, once its response is read. -/
def batchAnswer (send : String → Value → Except ClientEvmError Value) (block : MulticallBlock)
    (batch : List (List MulticallCall)) (endpoint : String) :
    Except ClientEvmError (List MulticallCallResult) :=
  (send endpoint (buildMulticall3BatchRequest block batch)).bind
    (fun response => parseMulticall3BatchResponse response (batch.map List.length))

theorem runMulticallBatch_eq (exchange : Exchange) (pool : EndpointPool) (block : MulticallBlock)
    (batch : List (List MulticallCall)) (index : Nat) :
    runMulticallBatch exchange pool block batch index = (exchange.picks index pool).withFailover
      (batchAnswer (exchange.send index) block batch) := by
  apply congrArg (exchange.picks index pool).withFailover
  funext endpoint
  unfold batchAnswer
  cases exchange.send index endpoint (buildMulticall3BatchRequest block batch) <;> rfl

/-- The batches of a call that share the rotation of a pool, each among whatever the other
requests do, are an exchange. -/
theorem runMulticallBatch_of_rotation {pool : Failover.EndpointPool}
    (around : Nat → Failover.Surroundings) (shared : Nat → Failover.Shared pool.endpoints.length)
    (send : Nat → String → Value → Except ClientEvmError Value) (panics : Nat → Bool)
    (block : MulticallBlock) (batches : List (List (List MulticallCall)))
    (untried : ∀ batch ∈ batches.zipIdx, Failover.FindsUntried pool
      (Failover.withFailover pool (around batch.2)
        (fun _ => batchAnswer (send batch.2) block batch.1) (shared batch.2)).calls) :
    ∃ exchange : Exchange, exchange.send = send ∧ exchange.panics = panics ∧
      ∀ batch ∈ batches.zipIdx, runMulticallBatch exchange pool.endpoints block batch.1 batch.2 =
        (Failover.withFailover pool (around batch.2)
          (fun _ => batchAnswer (send batch.2) block batch.1) (shared batch.2)).result := by
  have walked (index : Nat) : ∃ walk : EndpointPool, walk.Perm pool.endpoints ∧
      ∀ batch, (batch, index) ∈ batches.zipIdx →
        (Failover.withFailover pool (around index)
          (fun _ => batchAnswer (send index) block batch) (shared index)).result =
          walk.withFailover (batchAnswer (send index) block batch) := by
    cases present : batches[index]? with
    | none =>
      refine ⟨pool.endpoints, .refl _, fun batch listed => ?_⟩
      rw [List.mk_mem_zipIdx_iff_getElem?, present] at listed
      cases listed
    | some batch =>
      have listed := List.mk_mem_zipIdx_iff_getElem?.mpr present
      obtain ⟨walk, perm, result⟩ := Failover.withFailover_eq_walk (untried _ listed)
      refine ⟨walk, perm, fun batch' listed' => ?_⟩
      rw [List.mk_mem_zipIdx_iff_getElem?, present] at listed'
      obtain rfl := Option.some.inj listed'
      exact result
  choose walk perm result using walked
  let exchange : Exchange :=
    { picks := fun index endpoints => if endpoints = pool.endpoints then walk index else endpoints
      perm := fun index endpoints => by
        split
        case isTrue same => exact same ▸ perm index
        case isFalse => exact .refl _
      send
      panics }
  refine ⟨exchange, rfl, rfl, fun batch listed => ?_⟩
  rw [result batch.2 batch.1 listed, runMulticallBatch_eq]
  exact congrArg (fun walk : EndpointPool =>
    walk.withFailover (batchAnswer (send batch.2) block batch.1)) (if_pos rfl)

/-! ### All batches together -/

/-- Among the endpoints of a pool, a response in which every entry carries results is one
that answers the batch. -/
def Faithful (evaluate : Value → Call3 → MulticallCallResult) (exchange : Exchange)
    (pool : EndpointPool) (block : MulticallBlock) (calls : List MulticallCall) : Prop :=
  ∀ batch ∈ (multicallBatches calls).zipIdx, ∀ endpoint ∈ pool, ∀ response results,
    exchange.send batch.2 endpoint.url (buildMulticall3BatchRequest block batch.1) = .ok response →
    Complete (batch.1.map List.length) response results →
    Reorders evaluate (buildMulticall3BatchRequest block batch.1) response

theorem Complete.unique {counts : List Nat} {response : Value}
    {results results' : List MulticallCallResult} (complete : Complete counts response results)
    (complete' : Complete counts response results') : results = results' := by
  rw [← parseMulticall3BatchResponse_ok_iff] at complete complete'
  exact Except.ok.inj (complete.symm.trans complete')

/-- What a batch returns, some endpoint has sent. -/
theorem joinBatch_ok {exchange : Exchange} {pool : EndpointPool} {block : MulticallBlock}
    {batch : List (List MulticallCall) × Nat} {results : List MulticallCallResult}
    (joined : joinBatch exchange pool block batch = .ok results) :
    exchange.panics batch.2 = false ∧ ∃ endpoint ∈ pool, ∃ response,
      exchange.send batch.2 endpoint.url (buildMulticall3BatchRequest block batch.1) =
        .ok response ∧
      Complete (batch.1.map List.length) response results := by
  unfold joinBatch at joined
  split at joined
  case isTrue => cases joined
  case isFalse calm =>
    refine ⟨Bool.eq_false_iff.mpr calm, ?_⟩
    obtain ⟨endpoint, picked, answered⟩ :=
      List.exists_of_findSome?_eq_some (EndpointPool.withFailover_ok joined)
    refine ⟨endpoint, (exchange.perm batch.2 pool).mem_iff.mp picked, ?_⟩
    cases sent : exchange.send batch.2 endpoint.url (buildMulticall3BatchRequest block batch.1) with
    | error error => simp [sent, Except.toOption] at answered
    | ok response =>
      refine ⟨response, rfl, parseMulticall3BatchResponse_ok_iff.mp ?_⟩
      cases parsed : parseMulticall3BatchResponse response (batch.1.map List.length) with
      | error error => simp [sent, parsed, Except.toOption] at answered
      | ok results' => simpa [sent, parsed, Except.toOption] using answered

/-- A batch fails when its worker panics, and when no endpoint sends every entry. -/
theorem joinBatch_error {exchange : Exchange} {pool : EndpointPool} {block : MulticallBlock}
    {batch : List (List MulticallCall) × Nat}
    (lost : exchange.panics batch.2 = true ∨ ∀ endpoint ∈ pool, ∀ response results,
      exchange.send batch.2 endpoint.url (buildMulticall3BatchRequest block batch.1) =
        .ok response → ¬Complete (batch.1.map List.length) response results) :
    ∃ failure, joinBatch exchange pool block batch = .error failure := by
  cases joined : joinBatch exchange pool block batch with
  | error failure => exact ⟨failure, rfl⟩
  | ok results =>
    obtain ⟨calm, endpoint, listed, response, sent, complete⟩ := joinBatch_ok joined
    rcases lost with panicked | lost
    · rw [calm] at panicked
      cases panicked
    · exact absurd complete (lost endpoint listed response results sent)

omit [JsonText] [Multicall3Abi] in
theorem length_batch_lt {calls : List MulticallCall} {batch : List (List MulticallCall) × Nat}
    (listed : batch ∈ (multicallBatches calls).zipIdx) : batch.1.length < 2 ^ 64 := by
  have small := length_le_of_mem_chunks (List.fst_mem_of_mem_zipIdx listed)
  exact lt_of_le_of_lt small (by decide)

theorem joinBatch_eq (codec : RoundTrips) {evaluate : Value → Call3 → MulticallCallResult}
    {exchange : Exchange} {pool : EndpointPool} {block : MulticallBlock} {calls : List MulticallCall}
    (faithful : Faithful evaluate exchange pool block calls)
    {batch : List (List MulticallCall) × Nat} (listed : batch ∈ (multicallBatches calls).zipIdx)
    {results : List MulticallCallResult}
    (joined : joinBatch exchange pool block batch = .ok results) :
    results = batch.1.flatten.map (callResult evaluate block) := by
  obtain ⟨-, endpoint, inPool, response, sent, complete⟩ := joinBatch_ok joined
  have reordered := faithful batch listed endpoint inPool response results sent complete
  exact complete.unique (reordered.complete codec (length_batch_lt listed))

/-- Where every endpoint answers the batch, in whatever order, the batch succeeds. -/
theorem joinBatch_answered (codec : RoundTrips) {evaluate : Value → Call3 → MulticallCallResult}
    {exchange : Exchange} {pool : EndpointPool} {block : MulticallBlock} {calls : List MulticallCall}
    {batch : List (List MulticallCall) × Nat} (listed : batch ∈ (multicallBatches calls).zipIdx)
    (nonempty : pool ≠ []) (calm : exchange.panics batch.2 = false)
    (answered : ∀ endpoint ∈ pool, ∃ response,
      exchange.send batch.2 endpoint.url (buildMulticall3BatchRequest block batch.1) =
        .ok response ∧
      Reorders evaluate (buildMulticall3BatchRequest block batch.1) response) :
    joinBatch exchange pool block batch =
      .ok (batch.1.flatten.map (callResult evaluate block)) := by
  have permuted := exchange.perm batch.2 pool
  unfold joinBatch runMulticallBatch
  rw [calm]
  cases picks : exchange.picks batch.2 pool with
  | nil => exact absurd (by simpa [picks] using permuted) nonempty
  | cons endpoint picks' =>
    obtain ⟨response, sent, reordered⟩ := answered endpoint
      (permuted.mem_iff.mp (picks ▸ List.mem_cons_self))
    have parsed := parseMulticall3BatchResponse_ok_iff.mpr
      (reordered.complete codec (length_batch_lt listed))
    simp [EndpointPool.withFailover, failoverRounds, sent, parsed]

omit [JsonText] [Multicall3Abi] in
theorem flatten_multicallBatches (calls : List MulticallCall) :
    (multicallBatches calls).flatten.flatten = calls := by
  rw [multicallBatches, flatten_chunks (by decide), flatten_chunks (by decide)]

theorem aggregate3Batched_eq (exchange : Exchange) (block : MulticallBlock) (pool : EndpointPool)
    (calls : List MulticallCall) :
    aggregate3Batched exchange block pool calls =
      ((multicallBatches calls).zipIdx.mapM (joinBatch exchange pool block)).map List.flatten := by
  unfold aggregate3Batched
  split
  case isTrue empty =>
    rw [List.isEmpty_iff.mp empty]
    rfl
  case isFalse some =>
    rw [runWindows_eq, flatten_chunks (by decide)]
    simp only [List.nil_append]

theorem aggregate3Batched_error {exchange : Exchange} {block : MulticallBlock} {pool : EndpointPool}
    {calls : List MulticallCall} {batch : List (List MulticallCall) × Nat}
    (listed : batch ∈ (multicallBatches calls).zipIdx)
    (failed : ∃ failure, joinBatch exchange pool block batch = .error failure) :
    ∃ failure, aggregate3Batched exchange block pool calls = .error failure := by
  obtain ⟨failure, failed⟩ := failed
  obtain ⟨failure', stopped⟩ := mapM_error listed failed
  exact ⟨failure', by rw [aggregate3Batched_eq, stopped]; rfl⟩

/-- A batched multicall succeeds when every batch does, and then returns the results of
the calls in their order. -/
theorem aggregate3Batched_ok_iff (codec : RoundTrips)
    {evaluate : Value → Call3 → MulticallCallResult} {exchange : Exchange} {pool : EndpointPool}
    {block : MulticallBlock} {calls : List MulticallCall}
    (faithful : Faithful evaluate exchange pool block calls) (results : List MulticallCallResult) :
    aggregate3Batched exchange block pool calls = .ok results ↔
      (∀ batch ∈ (multicallBatches calls).zipIdx, ∃ part,
        joinBatch exchange pool block batch = .ok part) ∧
      results = calls.map (callResult evaluate block) := by
  have each : ∀ batch ∈ (multicallBatches calls).zipIdx,
      (∃ part, joinBatch exchange pool block batch = .ok part) →
      joinBatch exchange pool block batch =
        .ok (batch.1.flatten.map (callResult evaluate block)) := by
    rintro batch listed ⟨part, joined⟩
    rw [joined, joinBatch_eq codec faithful listed joined]
  have joinedAll : ((multicallBatches calls).zipIdx.map (fun batch =>
      batch.1.flatten.map (callResult evaluate block))).flatten =
      calls.map (callResult evaluate block) := by
    have parts : (multicallBatches calls).zipIdx.map (fun batch =>
        batch.1.flatten.map (callResult evaluate block)) =
        ((multicallBatches calls).map List.flatten).map
          (fun part => part.map (callResult evaluate block)) := by
      conv_rhs => rw [← List.zipIdx_map_fst 0 (multicallBatches calls)]
      rw [List.map_map, List.map_map]
      rfl
    rw [parts, ← List.map_flatten, ← List.flatten_flatten, flatten_multicallBatches]
  rw [aggregate3Batched_eq]
  constructor
  · intro ran
    cases joined : (multicallBatches calls).zipIdx.mapM (joinBatch exchange pool block) with
    | error failure => simp [joined, Except.map] at ran
    | ok parts =>
      have all : ∀ batch ∈ (multicallBatches calls).zipIdx, ∃ part,
          joinBatch exchange pool block batch = .ok part := by
        intro batch listed
        obtain ⟨i, bound, rfl⟩ := List.getElem_of_mem listed
        have pairs := mapM_eq_ok_iff.mp joined
        exact ⟨_, pairs.get bound (pairs.length_eq ▸ bound)⟩
      rw [mapM_ok (fun batch listed => each batch listed (all batch listed))] at ran
      exact ⟨all, (Except.ok.inj ran).symm.trans joinedAll⟩
  · rintro ⟨all, rfl⟩
    rw [mapM_ok (fun batch listed => each batch listed (all batch listed))]
    exact congrArg Except.ok joinedAll

end Answers

end ArmchairAnalyst.Client

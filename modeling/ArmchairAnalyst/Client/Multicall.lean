import ArmchairAnalyst.Client.PoolMetadata
import ArmchairAnalyst.Library.Batches
import ArmchairAnalyst.Wire

/-!
# Batched multicalls

A list of calls goes out as `aggregate3` calls of bounded size, several of them in one
JSON-RPC batch and several batches at a time. The answers of a batch are matched by id.
-/

namespace ArmchairAnalyst.Client

/-! ### JSON -/

inductive JsonNumber
  | unsigned (value : UInt64)
  | negative (value : Int)
  | float (text : String)

inductive Value
  | null
  | bool (value : Bool)
  | number (value : JsonNumber)
  | string (text : String)
  | array (values : List Value)
  | object (fields : List (String × Value))

namespace Value

def get (value : Value) (field : String) : Option Value :=
  match value with
  | object fields => fields.lookup field
  | _ => none

def asStr : Value → Option String
  | string text => some text
  | _ => none

def asU64 : Value → Option UInt64
  | number (.unsigned value) => some value
  | _ => none

def asArray : Value → Option (List Value)
  | array values => some values
  | _ => none

end Value

/-- The text of a JSON value, and bytes as JSON. -/
class JsonText where
  render : Value → String
  toValue : Bytes → Value
  fromValue : Value → Except String Bytes

def truncateForLog (text : String) : String :=
  if 256 < text.length then String.ofList (text.toList.take 256) ++ "…" else text

section Envelope

variable [JsonText]

def describeField (field : Option Value) : String :=
  match field with
  | none => "<missing>"
  | some value => truncateForLog (JsonText.render value)

def jsonRpcError (error : Value) : ClientEvmError :=
  let code := match error.get "code" with
    | none => "unknown"
    | some code => JsonText.render code
  let message := ((error.get "message").bind Value.asStr).getD "unknown error"
  .jsonRpcError code message

/-- The result of a JSON-RPC response. -/
def jsonRpcResult (value : Value) (expectedRequestId : UInt64) (context : String) :
    Except ClientEvmError Value :=
  if (value.get "jsonrpc").bind Value.asStr ≠ some "2.0" then
    .error (.malformedResponse context
      ("expected jsonrpc 2.0, got " ++ describeField (value.get "jsonrpc")))
  else
    match (value.get "id").bind Value.asU64 with
    | none =>
      .error (.malformedResponse context
        ("expected numeric request id, got " ++ describeField (value.get "id")))
    | some responseId =>
      if responseId ≠ expectedRequestId then
        .error (.malformedResponse context
          ("request id mismatch (expected " ++ toString expectedRequestId ++ ", got " ++
            toString responseId ++ ")"))
      else
        match value.get "result", value.get "error" with
        | some _, some _ =>
          .error (.malformedResponse context "must not contain both result and error")
        | none, none => .error (.malformedResponse context "must contain result or error")
        | none, some error => .error (jsonRpcError error)
        | some result, none => .ok result

end Envelope

/-! ### Multicall3 -/

def multicall3Address : Address := 0xcA11bde05977b3631167028862bE2a173976CA11

/-- The block a multicall is made at. -/
inductive MulticallBlock
  | hash (hash : BlockHash)
  | latest
  deriving DecidableEq

def MulticallBlock.toParam : MulticallBlock → Value
  | hash blockHash => .object [("blockHash", .string (Wire.hashLowerHex blockHash))]
  | latest => .string "latest"

structure Call3 where
  target : Address
  allowFailure : Bool
  callData : Bytes
  deriving DecidableEq

def MulticallCall.call3 (call : MulticallCall) : Call3 where
  target := call.target
  allowFailure := true
  callData := call.callData

/-- The ABI of `aggregate3`, both ways. -/
class Multicall3Abi where
  encodeCalls : List Call3 → Bytes
  decodeCalls : Bytes → Option (List Call3)
  encodeReturns : List MulticallCallResult → Bytes
  decodeReturns : Bytes → Except String (List MulticallCallResult)

section Multicall3

variable [JsonText] [Multicall3Abi]

def buildMulticall3Request (requestId : UInt64) (block : MulticallBlock)
    (calls : List MulticallCall) : Value :=
  let data := Multicall3Abi.encodeCalls (calls.map MulticallCall.call3)
  .object
    [("jsonrpc", .string "2.0"), ("id", .number (.unsigned requestId)),
      ("method", .string "eth_call"),
      ("params", .array
        [.object [("to", .string (Wire.addressLowerHex multicall3Address)),
          ("data", JsonText.toValue data)], block.toParam])]

def parseMulticall3Response (value : Value) (expectedRequestId : UInt64)
    (expectedCallCount : Nat) : Except ClientEvmError (List MulticallCallResult) :=
  let context := "multicall3"
  match jsonRpcResult value expectedRequestId context with
  | .error error => .error error
  | .ok result =>
    match JsonText.fromValue result with
    | .error error =>
      .error (.malformedResponse context ("result must decode as hex bytes: " ++ error))
    | .ok returnData =>
      match Multicall3Abi.decodeReturns returnData with
      | .error error =>
        .error (.malformedResponse context
          ("result must decode as aggregate3 return data: " ++ error))
      | .ok results =>
        if results.length ≠ expectedCallCount then
          .error (.malformedResponse context
            ("returned " ++ toString results.length ++ " call results, expected " ++
              toString expectedCallCount))
        else .ok results

/-- The id of the entry at an index of a batch. -/
def requestId (index : Nat) : UInt64 := UInt64.ofNat index + 1

def buildMulticall3BatchRequest (block : MulticallBlock) (batch : List (List MulticallCall)) :
    Value :=
  .array (batch.zipIdx.map (fun chunk =>
    buildMulticall3Request (requestId chunk.2) block chunk.1))

def hasId (id : UInt64) (entry : Value) : Bool :=
  decide ((entry.get "id").bind Value.asU64 = some id)

/-- One chunk's results: the count and the index of the chunk are given. -/
def parseEntry (entries : List Value) (expected : Nat × Nat) :
    Except ClientEvmError (List MulticallCallResult) :=
  match entries.find? (hasId (requestId expected.2)) with
  | none =>
    .error (.malformedResponse "multicall3 batch"
      ("missing request id " ++ toString (requestId expected.2)))
  | some entry => parseMulticall3Response entry (requestId expected.2) expected.1

def parseMulticall3BatchResponse (value : Value) (expectedCounts : List Nat) :
    Except ClientEvmError (List MulticallCallResult) :=
  match value.asArray with
  | none => .error (.malformedResponse "multicall3 batch" "response must be a json-rpc array")
  | some entries =>
    if entries.length ≠ expectedCounts.length then
      .error (.malformedResponse "multicall3 batch"
        ("returned " ++ toString entries.length ++ " entries, expected " ++
          toString expectedCounts.length))
    else extendAll (expectedCounts.zipIdx.map (parseEntry entries)) []

/-! ### Dispatch -/

def multicallChunkSize : Nat := 500

def multicallMaxBatchItems : Nat := 3

def multicallMaxConcurrentBatches : Nat := 4

/-- What the batches of a call meet: the order in which each picks its endpoints, what is
sent back to it, and whether its worker panics. -/
structure Exchange where
  picks : Nat → EndpointPool → EndpointPool
  perm : ∀ index pool, (picks index pool).Perm pool
  send : Nat → String → Value → Except ClientEvmError Value
  panics : Nat → Bool

def runMulticallBatch (exchange : Exchange) (pool : EndpointPool) (block : MulticallBlock)
    (batch : List (List MulticallCall)) (index : Nat) :
    Except ClientEvmError (List MulticallCallResult) :=
  let request := buildMulticall3BatchRequest block batch
  let expectedCounts := batch.map List.length
  (exchange.picks index pool).withFailover (fun endpoint =>
    match exchange.send index endpoint request with
    | .error error => .error error
    | .ok response => parseMulticall3BatchResponse response expectedCounts)

/-- The result of a worker thread. -/
def joinBatch (exchange : Exchange) (pool : EndpointPool) (block : MulticallBlock)
    (batch : List (List MulticallCall) × Nat) :
    Except ClientEvmError (List MulticallCallResult) :=
  if exchange.panics batch.2 then
    .error (.malformedResponse "multicall3 batch" "batch worker thread panicked")
  else runMulticallBatch exchange pool block batch.1 batch.2

def multicallBatches (calls : List MulticallCall) : List (List (List MulticallCall)) :=
  chunks multicallMaxBatchItems (chunks multicallChunkSize calls)

def aggregate3Batched (exchange : Exchange) (block : MulticallBlock) : Aggregate3 :=
  fun pool calls =>
    if calls.isEmpty then .ok []
    else runWindows (joinBatch exchange pool block)
      (chunks multicallMaxConcurrentBatches (multicallBatches calls).zipIdx) []

/-! ### What a response carries -/

/-- An entry without an error whose result decodes to results of the right number. -/
def Carries (entry : Value) (count : Nat) (results : List MulticallCallResult) : Prop :=
  (entry.get "jsonrpc").bind Value.asStr = some "2.0" ∧ entry.get "error" = none ∧
    ∃ result data, entry.get "result" = some result ∧ JsonText.fromValue result = .ok data ∧
      Multicall3Abi.decodeReturns data = .ok results ∧ results.length = count

omit [Multicall3Abi] in
theorem jsonRpcResult_ok_iff {value : Value} {id : UInt64} {context : String} {result : Value} :
    jsonRpcResult value id context = .ok result ↔
      (value.get "jsonrpc").bind Value.asStr = some "2.0" ∧
        (value.get "id").bind Value.asU64 = some id ∧ value.get "result" = some result ∧
        value.get "error" = none := by
  unfold jsonRpcResult
  by_cases version : (value.get "jsonrpc").bind Value.asStr = some "2.0"
  · rw [if_neg (not_not.mpr version)]
    cases carried : (value.get "id").bind Value.asU64 with
    | none => simp
    | some responseId =>
      by_cases same : responseId = id
      · simp only [same, ne_eq, not_true_eq_false, if_false, version, true_and]
        cases value.get "result" <;> cases value.get "error" <;> simp
      · simp [same]
  · rw [if_pos version]
    simp [version]

/-- What an entry parses to. -/
theorem parseMulticall3Response_ok_iff {value : Value} {id : UInt64} {count : Nat}
    {results : List MulticallCallResult} :
    parseMulticall3Response value id count = .ok results ↔
      (value.get "id").bind Value.asU64 = some id ∧ Carries value count results := by
  unfold parseMulticall3Response Carries
  cases parsed : jsonRpcResult value id "multicall3" with
  | error error =>
    have malformed : ∀ result, jsonRpcResult value id "multicall3" ≠ .ok result := by simp [parsed]
    simp only [ne_eq, jsonRpcResult_ok_iff, not_and] at malformed
    simp only [parsed, reduceCtorEq, false_iff, not_and]
    rintro sameId version noError ⟨result, data, found, -⟩
    exact malformed result version sameId found noError
  | ok result =>
    obtain ⟨version, sameId, found, noError⟩ := jsonRpcResult_ok_iff.mp parsed
    simp only [parsed, version, sameId, found, noError, true_and, Option.some.injEq]
    cases decoded : JsonText.fromValue result with
    | error error => simp [decoded]
    | ok data =>
      cases returned : Multicall3Abi.decodeReturns data with
      | error error => simp [decoded, returned]
      | ok returns =>
        by_cases counted : returns.length = count
        · simp [decoded, returned, counted]
          grind
        · simp [decoded, returned, counted]
          grind

/-- Every chunk's entry is there and carries results of the right number. -/
def Complete (counts : List Nat) (response : Value) (results : List MulticallCallResult) : Prop :=
  ∃ entries parts, response.asArray = some entries ∧ entries.length = counts.length ∧
    List.Forall₂ (fun expected part => ∃ entry,
      entries.find? (hasId (requestId expected.2)) = some entry ∧ Carries entry expected.1 part)
      counts.zipIdx parts ∧
    results = parts.flatten

theorem parseEntry_ok_iff {entries : List Value} {expected : Nat × Nat}
    {results : List MulticallCallResult} :
    parseEntry entries expected = .ok results ↔
      ∃ entry, entries.find? (hasId (requestId expected.2)) = some entry ∧
        Carries entry expected.1 results := by
  unfold parseEntry
  cases found : entries.find? (hasId (requestId expected.2)) with
  | none => simp
  | some entry =>
    have sameId : (entry.get "id").bind Value.asU64 = some (requestId expected.2) := by
      simpa [hasId] using List.find?_some found
    simp [parseMulticall3Response_ok_iff, sameId]

/-- What a batch response parses to. -/
theorem parseMulticall3BatchResponse_ok_iff {response : Value} {counts : List Nat}
    {results : List MulticallCallResult} :
    parseMulticall3BatchResponse response counts = .ok results ↔
      Complete counts response results := by
  unfold parseMulticall3BatchResponse Complete
  cases response.asArray with
  | none => simp
  | some entries =>
    by_cases counted : entries.length = counts.length
    · simp only [counted, ne_eq, not_true_eq_false, if_false, extendAll_map, List.nil_append]
      simp only [← parseEntry_ok_iff, ← mapM_eq_ok_iff, Option.some.injEq]
      cases ran : counts.zipIdx.mapM (parseEntry entries) with
      | error error => simp [Except.map, ran]
      | ok parts => simp [Except.map, ran, counted, eq_comm]
    · simp [counted]

end Multicall3

end ArmchairAnalyst.Client

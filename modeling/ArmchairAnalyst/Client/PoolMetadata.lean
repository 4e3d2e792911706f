import ArmchairAnalyst.Client.Endpoints
import ArmchairAnalyst.Kernel.PoolRegistry
import ArmchairAnalyst.Library.Fallible

/-!
# Pool metadata over RPC

A v3 candidate is asked for its tokens and its fee, and the chain's factory is then
asked which pool it deployed for them. Both rounds are multicalls; the call data and
the return data are read and written by the ABI library.
-/

namespace ArmchairAnalyst

def v3FactoryAddress : ChainKey → Address
  | .ethereum | .arbitrum | .optimism | .polygon => 0x1F98431c8aD98523631AE4a59f267346ea31F984
  | .base => 0x33128a8fC17869897dcE68Ed026d694621f6FDfD
  | .bnb => 0xdB1d10011AD0Ff90774D0C6Bb92e5C5c8b4461F7
  | .avalanche => 0x740b1c1de25031C31FF4fC9A62f554A55cdC1baD

def ProtocolPoolKey.uniswapV4PoolId : ProtocolPoolKey → Option PoolId
  | uniswapV3 _ => none
  | uniswapV4 poolId => some poolId

namespace Client

abbrev Bytes := List UInt8

structure MulticallCall where
  target : Address
  callData : Bytes
  deriving DecidableEq

structure MulticallCallResult where
  success : Bool
  returnData : Bytes
  deriving DecidableEq

/-- The ABI of the calls that read pool metadata. -/
class MetadataAbi where
  token0Call : Bytes
  token1Call : Bytes
  feeCall : Bytes
  getPoolCall (tokenA tokenB : Address) (fee : BitVec 24) : Bytes
  token0Returns : Bytes → Option Address
  token1Returns : Bytes → Option Address
  feeReturns : Bytes → Option UInt32
  getPoolReturns : Bytes → Option Address

/-- One round of multicalls against a pool of endpoints. -/
abbrev Aggregate3 :=
  EndpointPool → List MulticallCall → Except ClientEvmError (List MulticallCallResult)

/-- The v3 candidates in order; the others are left out. -/
def sortedPoolCandidateAddresses (candidates : HashSet ProtocolPoolKey) : List ProtocolPoolKey :=
  candidates.toList.filter (fun candidate => candidate.uniswapV3Address.isSome)

def candidateTarget (candidate : ProtocolPoolKey) : Address :=
  candidate.uniswapV3Address.getD 0

section Abi

variable [MetadataAbi]

def poolMetadataCandidateMulticallCalls (candidates : List ProtocolPoolKey) :
    List MulticallCall :=
  candidates.flatMap (fun candidate =>
    let target := candidateTarget candidate
    [⟨target, MetadataAbi.token0Call⟩, ⟨target, MetadataAbi.token1Call⟩,
      ⟨target, MetadataAbi.feeCall⟩])

def poolMetadataFactoryMulticallCalls (chain : ChainKey)
    (metadata : List (ProtocolPoolKey × PoolMetadata)) : List MulticallCall :=
  metadata.map (fun entry =>
    { target := v3FactoryAddress chain
      callData := MetadataAbi.getPoolCall entry.2.token0 entry.2.token1
        (BitVec.ofNat 24 entry.2.fee.pips.toNat) })

def decodePoolMetadataMulticallResult {T : Type} (result : Option MulticallCallResult)
    (call : PoolMetadataCall) (decode : Bytes → Option T) : Except PoolMetadataFailure T :=
  match result with
  | none => .error (.missingResponse call)
  | some result =>
    if !result.success then .error (.callFailed call)
    else
      match decode result.returnData with
      | some value => .ok value
      | none => .error (.decodeFailed call)

def decodePoolMetadataCandidateResult (token0 token1 fee : Option MulticallCallResult) :
    PoolMetadataResult := do
  let token0 ← decodePoolMetadataMulticallResult token0 .token0 MetadataAbi.token0Returns
  let token1 ← decodePoolMetadataMulticallResult token1 .token1 MetadataAbi.token1Returns
  let feePips ← decodePoolMetadataMulticallResult fee .fee MetadataAbi.feeReturns
  match UniswapV3Fee.tryFromPips feePips with
  | some tier => .ok { token0, token1, fee := .tiered tier }
  | none => .error (.unsupportedFee feePips)

/-- The remaining candidates, three results each. What fails is an answer already, what
succeeds is handed to the factory round. -/
def decodeCandidateChunks : List ProtocolPoolKey → List MulticallCallResult →
    HashMap ProtocolPoolKey PoolMetadataResult × List (ProtocolPoolKey × PoolMetadata) →
    HashMap ProtocolPoolKey PoolMetadataResult × List (ProtocolPoolKey × PoolMetadata)
  | [], _, decoded => decoded
  | candidate :: candidates, results, (metadataResults, factoryInputs) =>
    match decodePoolMetadataCandidateResult results[0]? results[1]? results[2]? with
    | .ok metadata =>
      decodeCandidateChunks candidates (results.drop 3)
        (metadataResults, factoryInputs ++ [(candidate, metadata)])
    | .error failure =>
      decodeCandidateChunks candidates (results.drop 3)
        (metadataResults.insert candidate (.error failure), factoryInputs)

def decodePoolMetadataCandidateResults (candidates : List ProtocolPoolKey)
    (results : List MulticallCallResult) :
    HashMap ProtocolPoolKey PoolMetadataResult × List (ProtocolPoolKey × PoolMetadata) :=
  decodeCandidateChunks candidates results (∅, [])

def decodePoolMetadataFactoryResult (candidate : ProtocolPoolKey) (metadata : PoolMetadata)
    (result : Option MulticallCallResult) : PoolMetadataResult := do
  let returned ← decodePoolMetadataMulticallResult result .factoryGetPool
    MetadataAbi.getPoolReturns
  if returned = 0 then .error .factoryReturnedZero
  else if returned ≠ candidateTarget candidate then .error (.factoryMismatch returned)
  else .ok metadata

def decodePoolMetadataFactoryResults (metadata : List (ProtocolPoolKey × PoolMetadata))
    (results : List MulticallCallResult) : HashMap ProtocolPoolKey PoolMetadataResult :=
  Std.ExtTreeMap.ofList (metadata.zipIdx.map (fun entry =>
    (entry.1.1, decodePoolMetadataFactoryResult entry.1.1 entry.1.2 results[entry.2]?)))

/-- The metadata of the v3 candidates. The rounds are read at different times, so each
has its own reader. -/
def fetchPoolMetadata (endpoints : ChainEndpoints) (candidateRound factoryRound : Aggregate3)
    (chain : ChainKey) (candidates : HashSet ProtocolPoolKey) :
    Except ClientEvmError (HashMap ProtocolPoolKey PoolMetadataResult) := do
  if candidates.isEmpty then return ∅
  let endpointPool ← endpoints.pool chain
  let candidates := sortedPoolCandidateAddresses candidates
  let results ← candidateRound endpointPool (poolMetadataCandidateMulticallCalls candidates)
  let (metadataResults, factoryInputs) := decodePoolMetadataCandidateResults candidates results
  if factoryInputs.isEmpty then return metadataResults
  let factoryResults ← factoryRound endpointPool
    (poolMetadataFactoryMulticallCalls chain factoryInputs)
  return metadataResults ∪ decodePoolMetadataFactoryResults factoryInputs factoryResults

/-! ### Which candidates are answered -/

theorem mem_decodeCandidateChunks (candidates : List ProtocolPoolKey)
    (results : List MulticallCallResult)
    (decoded : HashMap ProtocolPoolKey PoolMetadataResult × List (ProtocolPoolKey × PoolMetadata))
    (key : ProtocolPoolKey) :
    key ∈ (decodeCandidateChunks candidates results decoded).1 ∨
        key ∈ (decodeCandidateChunks candidates results decoded).2.map Prod.fst ↔
      key ∈ candidates ∨ key ∈ decoded.1 ∨ key ∈ decoded.2.map Prod.fst := by
  induction candidates generalizing results decoded with
  | nil => simp [decodeCandidateChunks]
  | cons candidate candidates inductionHypothesis =>
    obtain ⟨metadataResults, factoryInputs⟩ := decoded
    rw [decodeCandidateChunks]
    split
    · rw [inductionHypothesis]
      simp only [List.map_append, List.mem_append, List.map_cons, List.map_nil, List.mem_cons,
        List.not_mem_nil, or_false]
      grind
    · rw [inductionHypothesis]
      simp only [Std.ExtTreeMap.mem_insert, Std.LawfulEqOrd.compare_eq_iff_eq, List.mem_cons]
      grind

theorem mem_decodePoolMetadataFactoryResults (metadata : List (ProtocolPoolKey × PoolMetadata))
    (results : List MulticallCallResult) (key : ProtocolPoolKey) :
    key ∈ decodePoolMetadataFactoryResults metadata results ↔ key ∈ metadata.map Prod.fst := by
  have keys : (metadata.zipIdx.map (fun entry => (entry.1.1,
      decodePoolMetadataFactoryResult entry.1.1 entry.1.2 results[entry.2]?))).map Prod.fst =
      metadata.map Prod.fst := by
    rw [List.map_map]
    conv_rhs => rw [← List.zipIdx_map_fst 0 metadata]
    rw [List.map_map]
    rfl
  rw [decodePoolMetadataFactoryResults, Std.ExtTreeMap.mem_ofList, keys]
  simp

/-- The fetch answers the v3 candidates, every one of them and no other. -/
theorem mem_fetchPoolMetadata {endpoints : ChainEndpoints} {candidateRound factoryRound : Aggregate3}
    {chain : ChainKey} {candidates : HashSet ProtocolPoolKey}
    {metadata : HashMap ProtocolPoolKey PoolMetadataResult}
    (fetched : fetchPoolMetadata endpoints candidateRound factoryRound chain candidates =
      .ok metadata) (key : ProtocolPoolKey) :
    key ∈ metadata ↔ key ∈ candidates ∧ key.uniswapV3Address.isSome := by
  unfold fetchPoolMetadata at fetched
  by_cases nothing : candidates.isEmpty = true
  · rw [if_pos nothing] at fetched
    obtain rfl := Except.ok.inj fetched
    have absent : key ∉ candidates := by
      rw [Std.ExtTreeSet.isEmpty_iff.mp nothing]
      exact Std.ExtTreeSet.not_mem_empty
    simp [absent]
  · rw [if_neg nothing] at fetched
    obtain ⟨endpointPool, -, fetched⟩ := Except.bind_eq_ok_iff.mp fetched
    obtain ⟨results, -, fetched⟩ := Except.bind_eq_ok_iff.mp fetched
    have listed := mem_decodeCandidateChunks (sortedPoolCandidateAddresses candidates) results
      (∅, []) key
    rw [decodePoolMetadataCandidateResults] at fetched
    generalize decodeCandidateChunks (sortedPoolCandidateAddresses candidates) results (∅, []) =
      decoded at fetched listed
    obtain ⟨metadataResults, factoryInputs⟩ := decoded
    have sorted : key ∈ sortedPoolCandidateAddresses candidates ↔
        key ∈ candidates ∧ key.uniswapV3Address.isSome := by
      simp [sortedPoolCandidateAddresses, List.mem_filter]
    rw [← sorted]
    simp only [Std.ExtTreeMap.not_mem_empty, List.map_nil, List.not_mem_nil, or_false] at listed
    rw [← listed]
    by_cases settled : factoryInputs.isEmpty = true
    · simp only [settled, if_true] at fetched
      obtain rfl := Except.pure_eq_ok_iff.mp fetched
      simp [List.isEmpty_iff.mp settled]
    · simp only [settled, Bool.false_eq_true, if_false] at fetched
      obtain ⟨factoryResults, -, fetched⟩ := Except.bind_eq_ok_iff.mp fetched
      obtain rfl := Except.pure_eq_ok_iff.mp fetched
      rw [Std.ExtTreeMap.mem_union_iff, mem_decodePoolMetadataFactoryResults]

end Abi

/-! ### Words for evaluation -/

def wordBytes (value : Nat) : Bytes :=
  ((List.range 32).map (fun i => UInt8.ofNat (value / 256 ^ i % 256))).reverse

def wordValue (bytes : Bytes) : Nat := bytes.foldl (fun value byte => 256 * value + byte.toNat) 0

/-- One word whose value fits, the way a returned number or address is encoded. -/
def decodeWord (bits : Nat) (bytes : Bytes) : Option Nat :=
  if bytes.length = 32 ∧ wordValue bytes < 2 ^ bits then some (wordValue bytes) else none

/-- The ABI on single words. -/
@[reducible] def MetadataAbi.words : MetadataAbi where
  token0Call := [0x0d, 0xfe, 0x16, 0x81]
  token1Call := [0xd2, 0x12, 0x20, 0xa7]
  feeCall := [0xdd, 0xca, 0x3f, 0x43]
  getPoolCall tokenA tokenB fee :=
    [0x16, 0x98, 0xee, 0x82] ++ wordBytes tokenA.toNat ++ wordBytes tokenB.toNat ++
      wordBytes fee.toNat
  token0Returns bytes := (decodeWord 160 bytes).map (BitVec.ofNat 160)
  token1Returns bytes := (decodeWord 160 bytes).map (BitVec.ofNat 160)
  feeReturns bytes := (decodeWord 32 bytes).map UInt32.ofNat
  getPoolReturns bytes := (decodeWord 160 bytes).map (BitVec.ofNat 160)

end Client

end ArmchairAnalyst

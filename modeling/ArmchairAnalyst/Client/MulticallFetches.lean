import ArmchairAnalyst.Client.AnsweredMulticalls
import ArmchairAnalyst.Kernel.TokenRegistry

/-!
# Fetches over batched multicalls

Token decimals and pool state are read by multicalls, like pool metadata. Each fetch lays
its calls out one key after the other and takes the results apart in the same order, so
that each key is given the results of its own calls.
-/

namespace ArmchairAnalyst

def stateViewAddress : ChainKey → Option Address
  | .ethereum => some 0x7fFE42C4a5DEeA5b0feC41C94C136Cf115597227
  | .arbitrum => some 0x76fd297e2d437cd7f76d50f01afe6160f86e9990
  | .base => some 0xa3c0c9b65bad0b08107aa264b0f3db444b867a71
  | .optimism => some 0xc18a3169788f4f75a170290584eca6395c75ecdb
  | .polygon => some 0x5ea1bd7974c8a611cbab0bdcafcb1d9cc9b3ba5a
  | .bnb => some 0xd13dd3d6e93f276fafc9db9e6bb47c1180aee0c4
  | .avalanche => some 0xc3c9e198c735a4b97e3e683f391ccbdd60b69286

namespace Client

/-- What the decoders of a kind of key make of a call's result. -/
def decodeResult {T Failure : Type} (missing callFailed decodeFailed : Failure)
    (decode : Bytes → Option T) : Option MulticallCallResult → Except Failure T
  | none => .error missing
  | some result =>
    if !result.success then .error callFailed
    else
      match decode result.returnData with
      | some value => .ok value
      | none => .error decodeFailed

/-! ### Token metadata -/

/-- The ABI of the call that reads a token's decimals. -/
class TokenAbi where
  decimalsCall : Bytes
  decimalsReturns : Bytes → Option U256

/-- An order in which a set is iterated. -/
structure IterationOrder (K : Type) [Ord K] [Std.TransOrd K] where
  list : HashSet K → List K
  perm : ∀ set, (list set).Perm set.toList

/-- The tokens by address. Tokens of one address are in iteration order. -/
def sortedTokenAddresses (iteration : IterationOrder TokenAddress) (tokens : HashSet TokenAddress) :
    List TokenAddress :=
  (iteration.list tokens).mergeSort (fun left right =>
    (compare left.address right.address).isLE)

section Tokens

variable [TokenAbi]

def tokenMetadataCall (token : TokenAddress) : MulticallCall where
  target := token.address
  callData := TokenAbi.decimalsCall

def tokenMetadataMulticallCalls (tokens : List TokenAddress) : List MulticallCall :=
  tokens.map tokenMetadataCall

def decodeTokenMetadataMulticallResult {T : Type} (result : Option MulticallCallResult)
    (call : TokenMetadataCall) (decode : Bytes → Option T) : Except TokenMetadataFailure T :=
  decodeResult (.missingResponse call) (.callFailed call) (.decodeFailed call) decode result

def decodeTokenMetadataResult (result : Option MulticallCallResult) : TokenMetadataResult := do
  let decimals ← decodeTokenMetadataMulticallResult result .decimals TokenAbi.decimalsReturns
  let decimals ← TokenDecimals.tryFromU256 decimals
  return { decimals }

def decodeTokenMetadataResults (tokens : List TokenAddress) (results : List MulticallCallResult) :
    HashMap TokenAddress TokenMetadataResult :=
  Std.ExtTreeMap.ofList (tokens.zipIdx.map (fun entry =>
    (entry.1, decodeTokenMetadataResult results[entry.2]?)))

def fetchTokenMetadata (endpoints : ChainEndpoints) (iteration : IterationOrder TokenAddress)
    (round : Aggregate3) (chain : ChainKey) (tokens : HashSet TokenAddress) :
    Except ClientEvmError (HashMap TokenAddress TokenMetadataResult) := do
  if tokens.isEmpty then return ∅
  let endpointPool ← endpoints.pool chain
  let tokens := sortedTokenAddresses iteration tokens
  let results ← round endpointPool (tokenMetadataMulticallCalls tokens)
  return decodeTokenMetadataResults tokens results

end Tokens

/-! ### Pool data -/

structure Slot0Return where
  sqrtPriceX96 : U160
  tick : I24

/-- The ABI of the calls that read pool state. -/
class PoolDataAbi where
  slot0Call : Bytes
  liquidityCall : Bytes
  getSlot0Call (poolId : PoolId) : Bytes
  getLiquidityCall (poolId : PoolId) : Bytes
  slot0Returns : Bytes → Option Slot0Return
  liquidityReturns : Bytes → Option U128
  getSlot0Returns : Bytes → Option Slot0Return
  getLiquidityReturns : Bytes → Option U128

section Pools

variable [PoolDataAbi]

/-- The two calls for a pool. -/
def poolDataCallPlan (pool : PoolRef) (stateView : Option Address) :
    Option (MulticallCall × MulticallCall) :=
  match pool.key with
  | .uniswapV3 address =>
    some (⟨address, PoolDataAbi.slot0Call⟩, ⟨address, PoolDataAbi.liquidityCall⟩)
  | .uniswapV4 poolId =>
    stateView.map (fun target =>
      (⟨target, PoolDataAbi.getSlot0Call poolId⟩, ⟨target, PoolDataAbi.getLiquidityCall poolId⟩))

abbrev PoolDataCallPlan := PoolRef × MulticallCall × MulticallCall

def sortedPoolDataCallPlans (pools : HashSet PoolRef) (stateView : Option Address) :
    List PoolDataCallPlan :=
  pools.toList.filterMap (fun pool =>
    (poolDataCallPlan pool stateView).map (fun calls => (pool, calls)))

def poolDataMulticallCalls (plans : List PoolDataCallPlan) : List MulticallCall :=
  plans.flatMap (fun plan => [plan.2.1, plan.2.2])

def decodeMulticallResult {T : Type} (result : Option MulticallCallResult) (call : PoolDataCall)
    (decode : Bytes → Option T) : Except PoolDataFailure T :=
  decodeResult (.missingResponse call) (.callFailed call) (.decodeFailed call) decode result

def decodePoolDataResult (slot0 liquidity : Option MulticallCallResult) : PoolDataResult := do
  let slot0 ← decodeMulticallResult slot0 .slot0 PoolDataAbi.slot0Returns
  let liquidity ← decodeMulticallResult liquidity .liquidity PoolDataAbi.liquidityReturns
  return { sqrtPriceX96 := slot0.sqrtPriceX96, tick := slot0.tick, liquidity }

def decodeV4PoolDataResult (slot0 liquidity : Option MulticallCallResult) : PoolDataResult := do
  let slot0 ← decodeMulticallResult slot0 .slot0 PoolDataAbi.getSlot0Returns
  let liquidity ← decodeMulticallResult liquidity .liquidity PoolDataAbi.getLiquidityReturns
  return { sqrtPriceX96 := slot0.sqrtPriceX96, tick := slot0.tick, liquidity }

/-- The state of a pool, by its protocol. -/
def decodePoolData (pool : PoolRef) (state liquidity : Option MulticallCallResult) :
    PoolDataResult :=
  match pool.key with
  | .uniswapV3 _ => decodePoolDataResult state liquidity
  | .uniswapV4 _ => decodeV4PoolDataResult state liquidity

/-- The remaining plans, two results each. -/
def decodePoolDataChunks :
    List PoolDataCallPlan → List MulticallCallResult → List (PoolRef × PoolDataResult)
  | [], _ => []
  | plan :: plans, results =>
    (plan.1, decodePoolData plan.1 results[0]? results[1]?) ::
      decodePoolDataChunks plans (results.drop 2)

def decodePoolDataResults (plans : List PoolDataCallPlan) (results : List MulticallCallResult) :
    HashMap PoolRef PoolDataResult :=
  Std.ExtTreeMap.ofList (decodePoolDataChunks plans results)

def fetchPoolData (endpoints : ChainEndpoints) (round : Aggregate3) (chain : ChainKey)
    (pools : HashSet PoolRef) : Except ClientEvmError (HashMap PoolRef PoolDataResult) := do
  if pools.isEmpty then return ∅
  let endpointPool ← endpoints.pool chain
  let plans := sortedPoolDataCallPlans pools (stateViewAddress chain)
  let results ← round endpointPool (poolDataMulticallCalls plans)
  return decodePoolDataResults plans results

end Pools

/-! ### Whose results a key is given -/

/-- Where a round succeeds it returns the results of its calls, one each. -/
def Exact (round : Aggregate3) (result : MulticallCall → MulticallCallResult)
    (endpointPool : EndpointPool) : Prop :=
  ∀ calls results, round endpointPool calls = .ok results → results = calls.map result

theorem aggregate3Batched_exact [JsonText] [Multicall3Abi] (codec : RoundTrips)
    {evaluate : Value → Call3 → MulticallCallResult} {exchange : Exchange} {pool : EndpointPool}
    {block : MulticallBlock} (faithful : ∀ calls, Faithful evaluate exchange pool block calls) :
    Exact (aggregate3Batched exchange block) (callResult evaluate block) pool :=
  fun calls results ran =>
    ((aggregate3Batched_ok_iff codec (faithful calls) results).mp ran).2

theorem zipIdx_map_getElem? {A B C : Type} (items : List A) (result : A → B)
    (entry : A → Option B → C) :
    items.zipIdx.map (fun item => entry item.1 (items.map result)[item.2]?) =
      items.map (fun item => entry item (some (result item))) := by
  refine List.ext_getElem (by simp) (fun i bound bound' => ?_)
  have inItems : i < items.length := by simpa using bound'
  simp [inItems]

section Tokens

variable [TokenAbi]

def ownTokenMetadata (result : MulticallCall → MulticallCallResult) (token : TokenAddress) :
    TokenMetadataResult :=
  decodeTokenMetadataResult (some (result (tokenMetadataCall token)))

omit [TokenAbi] in
theorem sortedTokenAddresses_perm (iteration : IterationOrder TokenAddress)
    (tokens : HashSet TokenAddress) :
    (sortedTokenAddresses iteration tokens).Perm tokens.toList :=
  (List.mergeSort_perm _ _).trans (iteration.perm tokens)

theorem fetchTokenMetadata_ok {endpoints : ChainEndpoints} {order : IterationOrder TokenAddress}
    {round : Aggregate3} {chain : ChainKey} {tokens : HashSet TokenAddress}
    (some : tokens.isEmpty = false) {endpointPool : EndpointPool}
    (configured : endpoints.pool chain = .ok endpointPool) {results : List MulticallCallResult}
    (ran : round endpointPool (tokenMetadataMulticallCalls (sortedTokenAddresses order tokens)) =
      .ok results) :
    fetchTokenMetadata endpoints order round chain tokens =
      .ok (decodeTokenMetadataResults (sortedTokenAddresses order tokens) results) := by
  unfold fetchTokenMetadata
  rw [some, if_neg Bool.false_ne_true]
  exact Except.bind_eq_ok_iff.mpr ⟨endpointPool, configured,
    Except.bind_eq_ok_iff.mpr ⟨results, ran, rfl⟩⟩

/-- Every token is answered by its own call, and nothing else is answered. -/
theorem getElem?_fetchTokenMetadata {endpoints : ChainEndpoints}
    {iteration : IterationOrder TokenAddress} {round : Aggregate3} {chain : ChainKey}
    {result : MulticallCall → MulticallCallResult}
    (exact : ∀ endpointPool, endpoints.pool chain = .ok endpointPool →
      Exact round result endpointPool)
    {tokens : HashSet TokenAddress} {metadata : HashMap TokenAddress TokenMetadataResult}
    (fetched : fetchTokenMetadata endpoints iteration round chain tokens = .ok metadata)
    (token : TokenAddress) :
    metadata[token]? = if token ∈ tokens then some (ownTokenMetadata result token) else none := by
  unfold fetchTokenMetadata at fetched
  by_cases nothing : tokens.isEmpty = true
  · rw [if_pos nothing] at fetched
    obtain rfl := Except.ok.inj fetched
    rw [Std.ExtTreeSet.isEmpty_iff.mp nothing]
    simp
  · rw [if_neg nothing] at fetched
    obtain ⟨endpointPool, configured, fetched⟩ := Except.bind_eq_ok_iff.mp fetched
    obtain ⟨results, ran, fetched⟩ := Except.bind_eq_ok_iff.mp fetched
    obtain rfl := Except.pure_eq_ok_iff.mp fetched
    obtain rfl := exact endpointPool configured _ _ ran
    have permuted := sortedTokenAddresses_perm iteration tokens
    have table := getElem?_ofList_filterMap
      (permuted.nodup_iff.mpr (HashSet.nodup_toList tokens))
      (fun token => some (ownTokenMetadata result token)) token
    simp only [permuted.mem_iff, Std.ExtTreeSet.mem_toList] at table
    rw [← table, decodeTokenMetadataResults, tokenMetadataMulticallCalls, List.map_map,
      zipIdx_map_getElem? _ _ (fun token result => (token, decodeTokenMetadataResult result))]
    simp only [Option.map_some, List.filterMap_eq_map']
    rfl

end Tokens

section Pools

variable [PoolDataAbi]

/-- The answer of a pool with a plan. -/
def ownPoolData (result : MulticallCall → MulticallCallResult) (chain : ChainKey)
    (pool : PoolRef) : Option PoolDataResult :=
  (poolDataCallPlan pool (stateViewAddress chain)).map (fun calls =>
    decodePoolData pool (some (result calls.1)) (some (result calls.2)))

theorem decodePoolDataChunks_results (result : MulticallCall → MulticallCallResult)
    (plans : List PoolDataCallPlan) :
    decodePoolDataChunks plans ((poolDataMulticallCalls plans).map result) =
      plans.map (fun plan =>
        (plan.1, decodePoolData plan.1 (some (result plan.2.1)) (some (result plan.2.2)))) := by
  induction plans with
  | nil => rfl
  | cons plan plans inductionHypothesis =>
    rw [List.map_cons, ← inductionHypothesis]
    rfl

/-- Every pool with a plan is answered by its own two calls, and nothing else is answered. -/
theorem getElem?_fetchPoolData {endpoints : ChainEndpoints} {round : Aggregate3}
    {chain : ChainKey} {result : MulticallCall → MulticallCallResult}
    (exact : ∀ endpointPool, endpoints.pool chain = .ok endpointPool →
      Exact round result endpointPool)
    {pools : HashSet PoolRef} {data : HashMap PoolRef PoolDataResult}
    (fetched : fetchPoolData endpoints round chain pools = .ok data) (pool : PoolRef) :
    data[pool]? = if pool ∈ pools then ownPoolData result chain pool else none := by
  unfold fetchPoolData at fetched
  by_cases nothing : pools.isEmpty = true
  · rw [if_pos nothing] at fetched
    obtain rfl := Except.ok.inj fetched
    rw [Std.ExtTreeSet.isEmpty_iff.mp nothing]
    simp
  · rw [if_neg nothing] at fetched
    obtain ⟨endpointPool, configured, fetched⟩ := Except.bind_eq_ok_iff.mp fetched
    obtain ⟨results, ran, fetched⟩ := Except.bind_eq_ok_iff.mp fetched
    obtain rfl := Except.pure_eq_ok_iff.mp fetched
    obtain rfl := exact endpointPool configured _ _ ran
    have table := getElem?_ofList_filterMap (HashSet.nodup_toList pools)
      (ownPoolData result chain) pool
    simp only [Std.ExtTreeSet.mem_toList] at table
    rw [← table, decodePoolDataResults, decodePoolDataChunks_results, sortedPoolDataCallPlans,
      List.map_filterMap]
    simp only [ownPoolData, Option.map_map]
    rfl

end Pools

section Metadata

variable [MetadataAbi]

def ownCandidateMetadata (result : MulticallCall → MulticallCallResult)
    (candidate : ProtocolPoolKey) : PoolMetadataResult :=
  let target := candidateTarget candidate
  decodePoolMetadataCandidateResult (some (result ⟨target, MetadataAbi.token0Call⟩))
    (some (result ⟨target, MetadataAbi.token1Call⟩)) (some (result ⟨target, MetadataAbi.feeCall⟩))

def factoryCall (chain : ChainKey) (metadata : PoolMetadata) : MulticallCall where
  target := v3FactoryAddress chain
  callData := MetadataAbi.getPoolCall metadata.token0 metadata.token1
    (BitVec.ofNat 24 metadata.fee.pips.toNat)

/-- The answer of a candidate: its own three calls, then the factory's call for what these
returned. -/
def ownPoolMetadata (result factoryResult : MulticallCall → MulticallCallResult)
    (chain : ChainKey) (candidate : ProtocolPoolKey) : PoolMetadataResult := do
  let metadata ← ownCandidateMetadata result candidate
  decodePoolMetadataFactoryResult candidate metadata
    (some (factoryResult (factoryCall chain metadata)))

/-- What the candidate round fails for is answered, what it succeeds for goes on to the
factory round. -/
theorem decodeCandidateChunks_results (result : MulticallCall → MulticallCallResult)
    (candidates : List ProtocolPoolKey)
    (decoded : HashMap ProtocolPoolKey PoolMetadataResult × List (ProtocolPoolKey × PoolMetadata)) :
    (∀ key, (decodeCandidateChunks candidates
        ((poolMetadataCandidateMulticallCalls candidates).map result) decoded).1[key]? =
      if key ∈ candidates ∧ (ownCandidateMetadata result key).toOption = none then
        some (ownCandidateMetadata result key)
      else decoded.1[key]?) ∧
    (decodeCandidateChunks candidates
        ((poolMetadataCandidateMulticallCalls candidates).map result) decoded).2 =
      decoded.2 ++ candidates.filterMap (fun candidate =>
        (ownCandidateMetadata result candidate).toOption.map (fun metadata =>
          (candidate, metadata))) := by
  induction candidates generalizing decoded with
  | nil => simp [decodeCandidateChunks]
  | cons candidate candidates inductionHypothesis =>
    obtain ⟨table, factoryInputs⟩ := decoded
    have own : decodePoolMetadataCandidateResult
        ((poolMetadataCandidateMulticallCalls (candidate :: candidates)).map result)[0]?
        ((poolMetadataCandidateMulticallCalls (candidate :: candidates)).map result)[1]?
        ((poolMetadataCandidateMulticallCalls (candidate :: candidates)).map result)[2]? =
        ownCandidateMetadata result candidate := rfl
    have rest : ((poolMetadataCandidateMulticallCalls (candidate :: candidates)).map result).drop 3 =
        (poolMetadataCandidateMulticallCalls candidates).map result := rfl
    rw [decodeCandidateChunks, own, rest, List.filterMap_cons]
    cases outcome : ownCandidateMetadata result candidate with
    | ok metadata =>
      obtain ⟨lookup, inputs⟩ := inductionHypothesis (table, factoryInputs ++ [(candidate, metadata)])
      refine ⟨fun key => ?_, by simp [inputs, Except.toOption]⟩
      by_cases same : key = candidate
      · subst same
        simp [lookup, outcome, Except.toOption]
      · simp [lookup, same]
    | error failure =>
      obtain ⟨lookup, inputs⟩ :=
        inductionHypothesis (table.insert candidate (.error failure), factoryInputs)
      refine ⟨fun key => ?_, by simp [inputs, Except.toOption]⟩
      by_cases same : key = candidate
      · subst same
        simp [lookup, outcome, Except.toOption]
      · simp [lookup, same, HashMap.getElem?_insert]

theorem decodePoolMetadataFactoryResults_results
    (factoryResult : MulticallCall → MulticallCallResult) (chain : ChainKey)
    (metadata : List (ProtocolPoolKey × PoolMetadata)) :
    decodePoolMetadataFactoryResults metadata
        ((poolMetadataFactoryMulticallCalls chain metadata).map factoryResult) =
      Std.ExtTreeMap.ofList (metadata.map (fun entry => (entry.1,
        decodePoolMetadataFactoryResult entry.1 entry.2
          (some (factoryResult (factoryCall chain entry.2)))))) compare := by
  rw [decodePoolMetadataFactoryResults, poolMetadataFactoryMulticallCalls, List.map_map,
    zipIdx_map_getElem? metadata _ (fun entry result =>
      (entry.1, decodePoolMetadataFactoryResult entry.1 entry.2 result))]
  rfl

/-- Every v3 candidate is answered by its own calls in both rounds, and nothing else is
answered. -/
theorem getElem?_fetchPoolMetadata {endpoints : ChainEndpoints}
    {candidateRound factoryRound : Aggregate3} {chain : ChainKey}
    {result factoryResult : MulticallCall → MulticallCallResult}
    (exact : ∀ endpointPool, endpoints.pool chain = .ok endpointPool →
      Exact candidateRound result endpointPool ∧ Exact factoryRound factoryResult endpointPool)
    {candidates : HashSet ProtocolPoolKey} {metadata : HashMap ProtocolPoolKey PoolMetadataResult}
    (fetched : fetchPoolMetadata endpoints candidateRound factoryRound chain candidates =
      .ok metadata) (candidate : ProtocolPoolKey) :
    metadata[candidate]? =
      if candidate ∈ candidates ∧ candidate.uniswapV3Address.isSome then
        some (ownPoolMetadata result factoryResult chain candidate)
      else none := by
  unfold fetchPoolMetadata at fetched
  by_cases nothing : candidates.isEmpty = true
  · rw [if_pos nothing] at fetched
    obtain rfl := Except.ok.inj fetched
    rw [Std.ExtTreeSet.isEmpty_iff.mp nothing]
    simp
  · rw [if_neg nothing] at fetched
    obtain ⟨endpointPool, configured, fetched⟩ := Except.bind_eq_ok_iff.mp fetched
    obtain ⟨results, ran, fetched⟩ := Except.bind_eq_ok_iff.mp fetched
    obtain ⟨exactCandidates, exactFactory⟩ := exact endpointPool configured
    obtain rfl := exactCandidates _ _ ran
    have listed : candidate ∈ sortedPoolCandidateAddresses candidates ↔
        candidate ∈ candidates ∧ candidate.uniswapV3Address.isSome := by
      simp [sortedPoolCandidateAddresses, List.mem_filter]
    have distinct : (sortedPoolCandidateAddresses candidates).Nodup :=
      (HashSet.nodup_toList candidates).filter _
    obtain ⟨lookup, inputs⟩ := decodeCandidateChunks_results result
      (sortedPoolCandidateAddresses candidates) (∅, [])
    rw [decodePoolMetadataCandidateResults] at fetched
    generalize decodeCandidateChunks (sortedPoolCandidateAddresses candidates) _ (∅, []) =
      decoded at fetched lookup inputs
    obtain ⟨metadataResults, factoryInputs⟩ := decoded
    rw [List.nil_append] at inputs
    simp only at fetched lookup inputs
    have answers : factoryInputs.map (fun entry => (entry.1,
        decodePoolMetadataFactoryResult entry.1 entry.2
          (some (factoryResult (factoryCall chain entry.2))))) =
        (sortedPoolCandidateAddresses candidates).filterMap (fun candidate =>
          ((ownCandidateMetadata result candidate).toOption.map (fun metadata =>
            decodePoolMetadataFactoryResult candidate metadata
              (some (factoryResult (factoryCall chain metadata))))).map (fun answer =>
            (candidate, answer))) := by
      rw [inputs, List.map_filterMap]
      simp only [Option.map_map]
      rfl
    have whole : metadata = metadataResults ∪ Std.ExtTreeMap.ofList (factoryInputs.map (fun entry =>
        (entry.1, decodePoolMetadataFactoryResult entry.1 entry.2
          (some (factoryResult (factoryCall chain entry.2)))))) compare := by
      by_cases settled : factoryInputs.isEmpty = true
      · rw [if_pos settled] at fetched
        obtain rfl := Except.pure_eq_ok_iff.mp fetched
        rw [List.isEmpty_iff.mp settled]
        exact (HashMap.union_empty _).symm
      · rw [if_neg settled] at fetched
        obtain ⟨factoryResults, ranFactory, fetched⟩ := Except.bind_eq_ok_iff.mp fetched
        obtain rfl := Except.pure_eq_ok_iff.mp fetched
        obtain rfl := exactFactory _ _ ranFactory
        rw [decodePoolMetadataFactoryResults_results]
    rw [whole, answers, Std.ExtTreeMap.getElem?_union, getElem?_ofList_filterMap distinct, lookup]
    simp only [listed, ownPoolMetadata]
    cases outcome : ownCandidateMetadata result candidate with
    | ok own =>
      simp only [Except.toOption, reduceCtorEq, and_false, if_false]
      split
      · simp [bind, Except.bind]
      · simp
    | error failure =>
      simp only [Except.toOption, and_true]
      split
      · simp [bind, Except.bind]
      · simp

end Metadata

/-! ### One token's decimals -/

def hexByte (byte : UInt8) : List Char :=
  [Nat.digitChar (byte.toNat / 16), Nat.digitChar (byte.toNat % 16)]

def digitValue (char : Char) : Nat :=
  if char.isDigit then char.toNat - 48 else char.toNat - 87

def bytesOfDigits : List Char → Bytes
  | high :: low :: digits =>
    UInt8.ofNat (16 * digitValue high + digitValue low) :: bytesOfDigits digits
  | _ => []

theorem digitValue_digitChar {digit : Nat} (small : digit < 16) :
    digitValue (Nat.digitChar digit) = digit := by
  interval_cases digit <;> rfl

theorem bytesOfDigits_hexByte (data : Bytes) : bytesOfDigits (data.flatMap hexByte) = data := by
  induction data with
  | nil => rfl
  | cons byte data inductionHypothesis =>
    have bound : byte.toNat < 256 := byte.toNat_lt
    rw [List.flatMap_cons, hexByte, List.cons_append, List.cons_append, List.nil_append,
      bytesOfDigits, inductionHypothesis, digitValue_digitChar (by omega),
      digitValue_digitChar (by omega), Nat.div_add_mod, UInt8.ofNat_toNat]

@[reducible] def JsonText.hex : JsonText where
  render _ := ""
  toValue data := .string ("0x" ++ String.ofList (data.flatMap hexByte))
  fromValue
    | .string text => .ok (bytesOfDigits (text.toList.drop 2))
    | _ => .error "expected a string"

def tagged {A : Type} [Encodable A] (value : A) : Bytes :=
  255 :: (Nat.digits 256 (Encodable.encode value)).map UInt8.ofNat

def untagged {A : Type} [Encodable A] (data : Bytes) : Option A :=
  Encodable.decode (Nat.ofDigits 256 (data.tail.map UInt8.toNat))

theorem untagged_tagged {A : Type} [Encodable A] (value : A) :
    untagged (tagged value) = some value := by
  have digits : ((Nat.digits 256 (Encodable.encode value)).map UInt8.ofNat).map UInt8.toNat =
      Nat.digits 256 (Encodable.encode value) := by
    rw [List.map_map]
    refine (List.map_congr_left ?_).trans (List.map_id _)
    intro digit listed
    exact UInt8.toNat_ofNat_of_lt' (Nat.digits_lt_base (by norm_num) listed)
  rw [untagged, tagged, List.tail_cons, digits, Nat.ofDigits_digits, Encodable.encodek]

instance encodableBytes : Encodable Bytes :=
  Encodable.ofLeftInverse (fun data => data.map UInt8.toNat) (fun data => data.map UInt8.ofNat)
    (fun data => by
      rw [List.map_map]
      exact (List.map_congr_left (fun _ _ => UInt8.ofNat_toNat)).trans data.map_id)

instance encodableCall3 : Encodable Call3 :=
  Encodable.ofLeftInverse
    (fun call => (call.target.toNat, call.allowFailure, call.callData))
    (fun fields => ⟨BitVec.ofNat 160 fields.1, fields.2.1, fields.2.2⟩) (fun call => by simp)

instance encodableCallResult : Encodable MulticallCallResult :=
  Encodable.ofLeftInverse (fun result => (result.success, result.returnData))
    (fun fields => ⟨fields.1, fields.2⟩) (fun _ => rfl)

def usdc : TokenAddress where
  address := 0xA0b86991c6218b36c1d19D4a2e9Eb0cE3606eB48
  chain := .ethereum

@[reducible] def TokenAbi.words : TokenAbi where
  decimalsCall := [0x31, 0x3c, 0xe5, 0x67]
  decimalsReturns data := (decodeWord 256 data).map (BitVec.ofNat 256)

def weth : TokenAddress where
  address := 0xC02aaA39b223FE8D0A0e5C4F27eAD9083C756Cc2
  chain := .ethereum

def decimalsCallOf (token : TokenAddress) : Call3 := ⟨token.address, true, [0x31, 0x3c, 0xe5, 0x67]⟩

def pairCalls : List Call3 := [decimalsCallOf usdc, decimalsCallOf weth]

/-- The words of one call: its target, its flag and the four bytes of its data. -/
def decimalsCallWords (token : TokenAddress) : Bytes :=
  wordBytes token.address.toNat ++ wordBytes 1 ++ wordBytes 0x60 ++ wordBytes 4 ++
    [0x31, 0x3c, 0xe5, 0x67] ++ List.replicate 28 0

def pairCallData : Bytes :=
  [0x82, 0xad, 0x56, 0xcb] ++ wordBytes 0x20 ++ wordBytes 2 ++ wordBytes 0x40 ++ wordBytes 0xe0 ++
    decimalsCallWords usdc ++ decimalsCallWords weth

def pairResults : List MulticallCallResult := [⟨true, wordBytes 6⟩, ⟨true, wordBytes 18⟩]

def pairReturnData : Bytes :=
  wordBytes 0x20 ++ wordBytes 2 ++ wordBytes 0x40 ++ wordBytes 0xc0 ++
    wordBytes 1 ++ wordBytes 0x40 ++ wordBytes 0x20 ++ wordBytes 6 ++
    wordBytes 1 ++ wordBytes 0x40 ++ wordBytes 0x20 ++ wordBytes 18

/-- A code with one value's own text. Every other value is numbered. -/
def pinned {A : Type} [Encodable A] [DecidableEq A] (sample : A) (text : Bytes) (value : A) :
    Bytes :=
  if value = sample then text else tagged value

def unpinned {A : Type} [Encodable A] (sample : A) (text data : Bytes) : Option A :=
  if data = text then some sample else untagged data

theorem unpinned_pinned {A : Type} [Encodable A] [DecidableEq A] {sample : A} {text : Bytes}
    (plain : text.head? ≠ some 255) (value : A) :
    unpinned sample text (pinned sample text value) = some value := by
  unfold unpinned pinned
  by_cases same : value = sample
  · rw [if_pos same, if_pos rfl, same]
  · have other : tagged value ≠ text := by
      rintro rfl
      exact plain rfl
    rw [if_neg same, if_neg other, untagged_tagged]

/-- The ABI where two tokens are asked for their decimals. -/
@[reducible] def Multicall3Abi.pair : Multicall3Abi where
  encodeCalls := pinned pairCalls pairCallData
  decodeCalls := unpinned pairCalls pairCallData
  encodeReturns := pinned pairResults pairReturnData
  decodeReturns data :=
    match unpinned pairResults pairReturnData data with
    | some results => .ok results
    | none => .error "undecodable"

theorem roundTrips_pair : @RoundTrips JsonText.hex Multicall3Abi.pair := by
  refine @RoundTrips.mk JsonText.hex Multicall3Abi.pair (fun data => ?_)
    (unpinned_pinned (by decide)) (fun results => ?_)
  · change Except.ok (bytesOfDigits (("0x" ++ String.ofList (data.flatMap hexByte)).toList.drop 2)) = _
    simp [bytesOfDigits_hexByte]
  · change (match unpinned pairResults pairReturnData (pinned pairResults pairReturnData results) with
      | some results => Except.ok results
      | none => Except.error "undecodable") = _
    rw [unpinned_pinned (by decide)]

/-- Six decimals for one token, and eighteen for every other. -/
def pairDecimals (_ : Value) (call : Call3) : MulticallCallResult :=
  ⟨true, wordBytes (if call.target = usdc.address then 6 else 18)⟩

/-- An endpoint that knows these decimals, and answers a batch in reverse. -/
def pairExchange : Exchange where
  picks _ pool := pool
  perm _ pool := List.Perm.refl pool
  send _ _ request :=
    let _ : JsonText := JsonText.hex
    let _ : Multicall3Abi := Multicall3Abi.pair
    .ok (answerBatch pairDecimals request)
  panics _ := false

def exampleEndpoints : ChainEndpoints where
  pools := (∅ : HashMap ChainKey EndpointPool).insert .ethereum [⟨"https://rpc.example", "rpc"⟩]

def addressOrder : IterationOrder TokenAddress where
  list set := set.toList
  perm _ := List.Perm.refl _


/-- The first two of some words: a price and a signed tick. -/
def decodeSlot0 (words : Nat) (data : Bytes) : Option Slot0Return := do
  if data.length ≠ 32 * words then none
  let price ← decodeWord 160 (data.take 32)
  let tick ← I24.tryFrom
    (BitVec.ofNat 256 (wordValue ((data.drop 32).take 32))).toInt
  return ⟨BitVec.ofNat 160 price, tick⟩

@[reducible] def PoolDataAbi.words : PoolDataAbi where
  slot0Call := [0x38, 0x50, 0xc7, 0xbd]
  liquidityCall := [0x1a, 0x68, 0x65, 0x02]
  getSlot0Call poolId := [0xc8, 0x15, 0x64, 0x1c] ++ wordBytes poolId.toNat
  getLiquidityCall poolId := [0xfa, 0x67, 0x93, 0xd5] ++ wordBytes poolId.toNat
  slot0Returns := decodeSlot0 7
  liquidityReturns data := (decodeWord 128 data).map (BitVec.ofNat 128)
  getSlot0Returns := decodeSlot0 4
  getLiquidityReturns data := (decodeWord 128 data).map (BitVec.ofNat 128)

/-! ### Exactness -/

section Exactness

variable [JsonText] [Multicall3Abi] [TokenAbi] [PoolDataAbi] [MetadataAbi]

/-- A batched multicall returns what a single `aggregate3` over all its calls returns, or
fails, and the fetches give each key the results of its own calls. -/
theorem batchedMulticalls_exact (codec : RoundTrips) {endpoints : ChainEndpoints} {chain : ChainKey}
    {evaluate factoryEvaluate : Value → Call3 → MulticallCallResult}
    {exchange factoryExchange : Exchange} {block : MulticallBlock}
    (faithful : ∀ pool, endpoints.pool chain = .ok pool → ∀ calls,
      Faithful evaluate exchange pool block calls ∧
        Faithful factoryEvaluate factoryExchange pool block calls) :
    (∀ pool, endpoints.pool chain = .ok pool → ∀ calls,
      (∀ results, aggregate3Batched exchange block pool calls = .ok results ↔
        (∀ batch ∈ (multicallBatches calls).zipIdx, ∃ part,
          joinBatch exchange pool block batch = .ok part) ∧
        results = calls.map (callResult evaluate block)) ∧
      (∀ id entry, Answers evaluate (buildMulticall3Request id block calls) entry →
        parseMulticall3Response entry id calls.length =
          .ok (calls.map (callResult evaluate block))) ∧
      ((∃ batch ∈ (multicallBatches calls).zipIdx, exchange.panics batch.2 = true ∨
          ∀ endpoint ∈ pool, ∀ response,
            exchange.send batch.2 endpoint.url (buildMulticall3BatchRequest block batch.1) =
              .ok response → Incomplete (batch.1.map List.length) response) →
        ∃ failure, aggregate3Batched exchange block pool calls = .error failure) ∧
      (pool ≠ [] →
        (∀ batch ∈ (multicallBatches calls).zipIdx, exchange.panics batch.2 = false ∧
          ∀ endpoint ∈ pool, ∃ response,
            exchange.send batch.2 endpoint.url (buildMulticall3BatchRequest block batch.1) =
              .ok response ∧
            Reorders evaluate (buildMulticall3BatchRequest block batch.1) response) →
        aggregate3Batched exchange block pool calls =
          .ok (calls.map (callResult evaluate block)))) ∧
    (∀ candidates metadata, fetchPoolMetadata endpoints (aggregate3Batched exchange block)
        (aggregate3Batched factoryExchange block) chain candidates = .ok metadata →
      ∀ candidate, metadata[candidate]? =
        if candidate ∈ candidates ∧ candidate.uniswapV3Address.isSome then
          some (ownPoolMetadata (callResult evaluate block) (callResult factoryEvaluate block)
            chain candidate)
        else none) ∧
    (∀ order tokens metadata, fetchTokenMetadata endpoints order (aggregate3Batched exchange block)
        chain tokens = .ok metadata →
      ∀ token, metadata[token]? =
        if token ∈ tokens then some (ownTokenMetadata (callResult evaluate block) token)
        else none) ∧
    ∀ pools data, fetchPoolData endpoints (aggregate3Batched exchange block) chain pools =
        .ok data →
      ∀ pool, data[pool]? =
        if pool ∈ pools then ownPoolData (callResult evaluate block) chain pool else none := by
  have exact : ∀ pool, endpoints.pool chain = .ok pool →
      Exact (aggregate3Batched exchange block) (callResult evaluate block) pool :=
    fun pool configured =>
      aggregate3Batched_exact codec (fun calls => (faithful pool configured calls).1)
  have factoryExact : ∀ pool, endpoints.pool chain = .ok pool →
      Exact (aggregate3Batched factoryExchange block) (callResult factoryEvaluate block) pool :=
    fun pool configured =>
      aggregate3Batched_exact codec (fun calls => (faithful pool configured calls).2)
  refine ⟨fun pool configured calls => ⟨?_, ?_, ?_, ?_⟩, ?_, ?_, ?_⟩
  · exact aggregate3Batched_ok_iff codec (faithful pool configured calls).1
  · intro id entry answered
    exact answered.parsed codec
  · rintro ⟨batch, listed, lost⟩
    refine aggregate3Batched_error listed (joinBatch_error (lost.imp_right ?_))
    intro incomplete endpoint inPool response results sent
    exact (incomplete endpoint inPool response sent).not_complete results
  · intro nonempty answered
    refine (aggregate3Batched_ok_iff codec (faithful pool configured calls).1 _).mpr ⟨?_, rfl⟩
    intro batch listed
    exact ⟨_, joinBatch_answered codec listed nonempty (answered batch listed).1
      (answered batch listed).2⟩
  · intro candidates metadata fetched candidate
    exact getElem?_fetchPoolMetadata
      (fun pool configured => ⟨exact pool configured, factoryExact pool configured⟩) fetched candidate
  · intro order tokens metadata fetched token
    exact getElem?_fetchTokenMetadata exact fetched token
  · intro pools data fetched pool
    exact getElem?_fetchPoolData exact fetched pool

end Exactness

/-- Two tokens are asked for their decimals over an endpoint that answers batches in reverse. -/
theorem batchedMulticalls_exact_pair :
    letI : JsonText := JsonText.hex
    letI : Multicall3Abi := Multicall3Abi.pair
    letI : TokenAbi := TokenAbi.words
    ∃ metadata, fetchTokenMetadata exampleEndpoints addressOrder
        (aggregate3Batched pairExchange .latest) .ethereum (HashSet.collect [weth, usdc]) =
          .ok metadata ∧
      metadata[usdc]? = some (.ok ⟨⟨6, by decide⟩⟩) ∧
      metadata[weth]? = some (.ok ⟨⟨18, by decide⟩⟩) := by
  let _ : JsonText := JsonText.hex
  let _ : Multicall3Abi := Multicall3Abi.pair
  let _ : TokenAbi := TokenAbi.words
  let _ : PoolDataAbi := PoolDataAbi.words
  let _ : MetadataAbi := MetadataAbi.words
  have configured : exampleEndpoints.pool .ethereum = .ok [⟨"https://rpc.example", "rpc"⟩] := by
    simp [ChainEndpoints.pool, exampleEndpoints]
  have answered (block : MulticallBlock) (batch : List (List MulticallCall)) :=
    answerBatch_reorders roundTrips_pair pairDecimals block batch
  obtain ⟨rounds, -, tokens, -⟩ := @batchedMulticalls_exact _ _ _ _ _ roundTrips_pair exampleEndpoints
    .ethereum pairDecimals pairDecimals pairExchange pairExchange .latest (fun pool _ calls => by
      have faithful : Faithful pairDecimals pairExchange pool .latest calls := by
        intro batch _ endpoint _ response results sent _
        obtain rfl := Except.ok.inj sent
        exact answered .latest batch.1
      exact ⟨faithful, faithful⟩)
  obtain ⟨-, -, -, succeeds⟩ := rounds _ configured
    (tokenMetadataMulticallCalls (sortedTokenAddresses addressOrder (HashSet.collect [weth, usdc])))
  have ran := succeeds (by simp) (fun batch _ => ⟨rfl, fun endpoint _ =>
    ⟨_, rfl, answered .latest batch.1⟩⟩)
  have fetched := fetchTokenMetadata_ok (by simp [HashSet.collect]) configured ran
  have six : callResult pairDecimals .latest (tokenMetadataCall usdc) = ⟨true, wordBytes 6⟩ := by
    decide
  have eighteen : callResult pairDecimals .latest (tokenMetadataCall weth) =
      ⟨true, wordBytes 18⟩ := by
    decide
  refine ⟨_, fetched, ?_, ?_⟩
  · rw [tokens addressOrder _ _ fetched usdc, if_pos (by simp), ownTokenMetadata, six]
    rfl
  · rw [tokens addressOrder _ _ fetched weth, if_pos (by simp), ownTokenMetadata, eighteen]
    rfl

end Client

end ArmchairAnalyst

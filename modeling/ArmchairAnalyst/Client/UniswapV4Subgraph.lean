import ArmchairAnalyst.Client.PoolMetadata
import ArmchairAnalyst.Wire

/-!
# v4 pool metadata from a subgraph

A v4 pool id is a one-way hash of its key, so an indexer is asked for the keys. It is
trusted for the existence of a pool only: every key it returns is hashed again.
-/

namespace ArmchairAnalyst

/-- The full identity of a v4 pool. -/
structure PoolKey where
  currency0 : Address
  currency1 : Address
  fee : BitVec 24
  tickSpacing : I24
  hooks : Address
  deriving DecidableEq

/-- The hash that turns a pool key into its id. -/
class PoolKeyHash where
  poolId : PoolKey → PoolId

def dynamicFeeFlag : UInt32 := 0x800000

def isDynamicFee (fee : UInt32) : Bool := fee &&& dynamicFeeFlag != 0

/-- Rejects what the fixed-fee model cannot represent and every key that is not the
preimage of the id. -/
def poolMetadataFromPoolKey [PoolKeyHash] (id : PoolId) (key : PoolKey) : PoolMetadataResult :=
  let pips := UInt32.ofNat key.fee.toNat
  if isDynamicFee pips then .error .dynamicFee
  else if key.hooks ≠ 0 then .error (.hookedPool key.hooks)
  else if PoolKeyHash.poolId key ≠ id then .error .poolIdMismatch
  else if 0 < key.tickSpacing.value ∧ key.tickSpacing.value < 65536 then
    .ok
      { token0 := key.currency0
        token1 := key.currency1
        fee := .static pips (UInt16.ofNat key.tickSpacing.value.toNat) }
  else .error (.invalidTickSpacing (Int32.ofInt key.tickSpacing.value))

namespace Client

def maxUint24 : Nat := 0xFFFFFF

structure SubgraphPool where
  id : PoolId
  token0 : Address
  token1 : Address
  feeTier : String
  tickSpacing : String
  hooks : Address
  deriving DecidableEq

structure SubgraphData where
  pools : List SubgraphPool

/-- A reply of the subgraph: its data and the messages of its errors. -/
structure SubgraphResponse where
  data : Option SubgraphData
  errors : Option (List String)

/-- Posts the query for a list of ids to one endpoint. The inner result is the reading of
the reply's JSON. -/
abbrev SendGraphqlRequest :=
  String → List String → Except ClientEvmError (Except String SubgraphResponse)

def malformedGraphPools (detail : String) : ClientEvmError :=
  .malformedResponse "graph pools" detail

/-! ### Decimal text -/

def parseDigits (digits : List Char) : Option Nat :=
  if digits.isEmpty || !digits.all Char.isDigit then none
  else some (digits.foldl (fun number digit => 10 * number + (digit.toNat - 48)) 0)

def dropPlus : List Char → List Char
  | '+' :: digits => digits
  | digits => digits

/-- An unsigned 32-bit number in decimal. -/
def parseU32 (text : String) : Option Nat :=
  (parseDigits (dropPlus text.toList)).filter (fun number => number < 2 ^ 32)

/-- A signed 32-bit number in decimal. -/
def parseI32 (text : String) : Option Int :=
  match text.toList with
  | '-' :: digits =>
    ((parseDigits digits).filter (fun number => number ≤ 2 ^ 31)).map (fun number => -Int.ofNat number)
  | characters =>
    ((parseDigits (dropPlus characters)).filter (fun number => number < 2 ^ 31)).map Int.ofNat

/-- Rebuilds the key of an entry; a value no pool can have spoils the whole reply. -/
def subgraphPoolKey (entry : SubgraphPool) : Except ClientEvmError PoolKey :=
  match parseU32 entry.feeTier with
  | none => .error (malformedGraphPools ("non-numeric feeTier " ++ entry.feeTier))
  | some feePips =>
    if maxUint24 < feePips then
      .error (malformedGraphPools ("feeTier " ++ toString feePips ++ " exceeds uint24"))
    else
      match parseI32 entry.tickSpacing with
      | none => .error (malformedGraphPools ("non-numeric tickSpacing " ++ entry.tickSpacing))
      | some tickSpacing =>
        match I24.tryFrom tickSpacing with
        | none =>
          .error (malformedGraphPools ("tickSpacing " ++ toString tickSpacing ++ " exceeds int24"))
        | some tickSpacing =>
          .ok
            { currency0 := entry.token0
              currency1 := entry.token1
              fee := BitVec.ofNat 24 feePips
              tickSpacing
              hooks := entry.hooks }

section Decode

variable [PoolKeyHash]

def withSubgraphPool (requested : HashSet PoolId)
    (metadata : HashMap ProtocolPoolKey PoolMetadataResult) (entry : SubgraphPool) :
    Except ClientEvmError (HashMap ProtocolPoolKey PoolMetadataResult) :=
  if !requested.contains entry.id then .ok metadata
  else do
    let key ← subgraphPoolKey entry
    return metadata.insert (.uniswapV4 entry.id) (poolMetadataFromPoolKey entry.id key)

/-- Keeps the entries that were asked for. A pool without an entry gets no result. -/
def decodeV4PoolsResponse (value : Except String SubgraphResponse) (requested : HashSet PoolId) :
    Except ClientEvmError (HashMap ProtocolPoolKey PoolMetadataResult) :=
  match value with
  | .error detail => .error (malformedGraphPools detail)
  | .ok response =>
    let errors := response.errors.getD []
    if !errors.isEmpty then .error (malformedGraphPools ("; ".intercalate errors))
    else
      match response.data with
      | none => .error (malformedGraphPools "response has neither data nor errors")
      | some data => data.pools.foldlM (withSubgraphPool requested) ∅

/-- The id as the query carries it. Of equal width, the texts sort as the words do. -/
def poolIdQueryString (id : PoolId) : String := Wire.hashLowerHex id

/-- The v4 ids among the candidates. -/
def requestedPoolIds (candidates : HashSet ProtocolPoolKey) : HashSet PoolId :=
  HashSet.collect (candidates.toList.filterMap (·.uniswapV4PoolId))

/-- One attempt at one endpoint, from the request to the decoded metadata. -/
def attemptV4Pools (send : SendGraphqlRequest) (requested : HashSet PoolId) (endpoint : String) :
    Except ClientEvmError (HashMap ProtocolPoolKey PoolMetadataResult) := do
  let value ← send endpoint (requested.toList.map poolIdQueryString)
  decodeV4PoolsResponse value requested

/-- The metadata of the v4 candidates the subgraph returns. -/
def fetchV4PoolMetadata (send : SendGraphqlRequest) (graphEndpoints : GraphEndpoints)
    (chain : ChainKey) (candidates : HashSet ProtocolPoolKey) :
    Except ClientEvmError (HashMap ProtocolPoolKey PoolMetadataResult) :=
  let requested := requestedPoolIds candidates
  if requested.isEmpty then .ok ∅
  else
    match graphEndpoints.pool chain with
    | none => .ok ∅
    | some pool => pool.withFailover (attemptV4Pools send requested)

/-! ### Which candidates are answered -/

/-- The ids in the data of a reply. -/
def responseIds (value : Except String SubgraphResponse) : List PoolId :=
  match value with
  | .ok response => (response.data.elim [] (·.pools)).map (·.id)
  | .error _ => []

/-- The ids in the reply of the first endpoint whose reply decodes. -/
def indexedIds (send : SendGraphqlRequest) (graphEndpoints : GraphEndpoints) (chain : ChainKey)
    (requested : HashSet PoolId) : List PoolId :=
  (graphEndpoints.pool chain).elim [] (fun pool =>
    (pool.findSome? (fun endpoint =>
      (attemptV4Pools send requested endpoint.url).toOption.bind (fun _ =>
        (send endpoint.url (requested.toList.map poolIdQueryString)).toOption))).elim []
      responseIds)

theorem mem_foldlM_withSubgraphPool {requested : HashSet PoolId} {entries : List SubgraphPool}
    {metadata metadata' : HashMap ProtocolPoolKey PoolMetadataResult}
    (decoded : entries.foldlM (withSubgraphPool requested) metadata = .ok metadata')
    (key : ProtocolPoolKey) :
    key ∈ metadata' ↔ key ∈ metadata ∨
      ∃ id ∈ entries.map (·.id), id ∈ requested ∧ key = .uniswapV4 id := by
  induction entries generalizing metadata with
  | nil =>
    obtain rfl := Except.pure_eq_ok_iff.mp decoded
    simp
  | cons entry entries inductionHypothesis =>
    rw [List.foldlM_cons] at decoded
    obtain ⟨middle, first, rest⟩ := Except.bind_eq_ok_iff.mp decoded
    rw [inductionHypothesis rest, List.map_cons]
    unfold withSubgraphPool at first
    by_cases asked : requested.contains entry.id = true
    · simp only [asked, Bool.not_true, Bool.false_eq_true, if_false] at first
      obtain ⟨poolKey, -, inserted⟩ := Except.bind_eq_ok_iff.mp first
      obtain rfl := Except.pure_eq_ok_iff.mp inserted
      have listed : entry.id ∈ requested := Std.ExtTreeSet.contains_iff_mem.mp asked
      simp only [Std.ExtTreeMap.mem_insert, Std.LawfulEqOrd.compare_eq_iff_eq, List.mem_cons,
        exists_eq_or_imp, listed, true_and, eq_comm (a := key)]
      exact or_assoc.trans or_left_comm
    · simp only [asked, Bool.not_false, if_true] at first
      obtain rfl := Except.ok.inj first
      have unasked : entry.id ∉ requested := fun listed =>
        asked (Std.ExtTreeSet.contains_iff_mem.mpr listed)
      simp [unasked]

/-- A decoded reply has a result for every entry that was asked for, and no other. -/
theorem mem_decodeV4PoolsResponse {value : Except String SubgraphResponse}
    {requested : HashSet PoolId} {metadata : HashMap ProtocolPoolKey PoolMetadataResult}
    (decoded : decodeV4PoolsResponse value requested = .ok metadata) (key : ProtocolPoolKey) :
    key ∈ metadata ↔ ∃ id ∈ responseIds value, id ∈ requested ∧ key = .uniswapV4 id := by
  cases value with
  | error detail => cases decoded
  | ok response =>
    obtain ⟨data, errors⟩ := response
    simp only [decodeV4PoolsResponse] at decoded
    split at decoded
    · cases decoded
    · cases data with
      | none => cases decoded
      | some data =>
        rw [mem_foldlM_withSubgraphPool decoded]
        simp [responseIds]

omit [PoolKeyHash] in
theorem mem_requestedPoolIds (candidates : HashSet ProtocolPoolKey) (id : PoolId) :
    id ∈ requestedPoolIds candidates ↔ .uniswapV4 id ∈ candidates := by
  simp only [requestedPoolIds, HashSet.mem_collect, List.mem_filterMap, Std.ExtTreeSet.mem_toList]
  constructor
  · rintro ⟨key, listed, identified⟩
    cases key with
    | uniswapV3 address => cases identified
    | uniswapV4 poolId =>
      obtain rfl := Option.some.inj identified
      exact listed
  · exact fun listed => ⟨_, listed, rfl⟩

/-- The reply of the answering endpoint, found by its decoding. -/
theorem attempted_reply {send : SendGraphqlRequest} {requested : HashSet PoolId}
    {pool : EndpointPool} {metadata : HashMap ProtocolPoolKey PoolMetadataResult}
    (answered : pool.findSome? (fun endpoint =>
      (attemptV4Pools send requested endpoint.url).toOption) = some metadata) :
    ∃ value, decodeV4PoolsResponse value requested = .ok metadata ∧
      pool.findSome? (fun endpoint =>
        (attemptV4Pools send requested endpoint.url).toOption.bind (fun _ =>
          (send endpoint.url (requested.toList.map poolIdQueryString)).toOption)) = some value := by
  induction pool with
  | nil => cases answered
  | cons endpoint pool inductionHypothesis =>
    rw [List.findSome?_cons] at answered ⊢
    cases outcome : attemptV4Pools send requested endpoint.url with
    | error error =>
      simp only [outcome, Except.toOption] at answered ⊢
      exact inductionHypothesis answered
    | ok metadata' =>
      simp only [outcome, Except.toOption, Option.some.injEq] at answered
      subst answered
      obtain ⟨value, replied, decoded⟩ := Except.bind_eq_ok_iff.mp outcome
      refine ⟨value, decoded, ?_⟩
      simp [replied, Except.toOption]

/-- The fetch answers the v4 candidates the subgraph returned, and no other. -/
theorem mem_fetchV4PoolMetadata {send : SendGraphqlRequest} {graphEndpoints : GraphEndpoints}
    {chain : ChainKey} {candidates : HashSet ProtocolPoolKey}
    {metadata : HashMap ProtocolPoolKey PoolMetadataResult}
    (fetched : fetchV4PoolMetadata send graphEndpoints chain candidates = .ok metadata)
    (key : ProtocolPoolKey) :
    key ∈ metadata ↔ key ∈ candidates ∧
      ∃ id ∈ indexedIds send graphEndpoints chain (requestedPoolIds candidates),
        key = .uniswapV4 id := by
  have rearranged (ids : List PoolId) :
      (∃ id ∈ ids, id ∈ requestedPoolIds candidates ∧ key = .uniswapV4 id) ↔
        key ∈ candidates ∧ ∃ id ∈ ids, key = .uniswapV4 id := by
    constructor
    · rintro ⟨id, listed, asked, rfl⟩
      exact ⟨(mem_requestedPoolIds candidates id).mp asked, id, listed, rfl⟩
    · rintro ⟨asked, id, listed, rfl⟩
      exact ⟨id, listed, (mem_requestedPoolIds candidates id).mpr asked, rfl⟩
  simp only [fetchV4PoolMetadata] at fetched
  by_cases nothing : (requestedPoolIds candidates).isEmpty = true
  · rw [if_pos nothing] at fetched
    obtain rfl := Except.ok.inj fetched
    rw [← rearranged, Std.ExtTreeSet.isEmpty_iff.mp nothing]
    simp
  · rw [if_neg nothing] at fetched
    rw [← rearranged]
    unfold indexedIds
    cases configured : graphEndpoints.pool chain with
    | none =>
      simp only [configured] at fetched
      obtain rfl := Except.ok.inj fetched
      simp
    | some pool =>
      simp only [configured] at fetched
      obtain ⟨value, decoded, replied⟩ :=
        attempted_reply (EndpointPool.withFailover_ok fetched)
      rw [mem_decodeV4PoolsResponse decoded]
      simp only [Option.elim_some, replied]

end Decode

end Client

end ArmchairAnalyst

import ArmchairAnalyst.Client.UniswapV4Subgraph
import ArmchairAnalyst.TokenWhitelist

/-!
# How the two runtimes resolve pool metadata

Both serve what the cache holds and fetch the rest. The server fetches over RPC only;
the command line client asks a subgraph for the v4 candidates and gates the result by
the token whitelist.
-/

namespace ArmchairAnalyst.Client

/-- A resolution: the results, and what was handed to the cache on the way. -/
structure Resolution where
  results : HashMap ProtocolPoolKey PoolMetadataResult
  stored : HashMap ProtocolPoolKey PoolMetadataResult

/-- The cached metadata of some candidates, or the text of a fault. -/
abbrev LoadCache :=
  HashSet ProtocolPoolKey → Except String (HashMap ProtocolPoolKey PoolMetadata)

abbrev FetchMetadata :=
  HashSet ProtocolPoolKey →
    Except ClientEvmError (HashMap ProtocolPoolKey PoolMetadataResult)

/-- A fault of the cache counts as an empty cache. -/
def cachedHits (loadCache : LoadCache) (candidates : HashSet ProtocolPoolKey) :
    HashMap ProtocolPoolKey PoolMetadata :=
  match loadCache candidates with
  | .ok cached => cached
  | .error _ => ∅

/-- The candidates that pass a test and are not in the cache. -/
def cacheMisses (cached : HashMap ProtocolPoolKey PoolMetadata)
    (candidates : HashSet ProtocolPoolKey) (belongs : ProtocolPoolKey → Bool) :
    HashSet ProtocolPoolKey :=
  HashSet.collect (candidates.toList.filter (fun candidate =>
    !cached.contains candidate && belongs candidate))

def withCached (metadata : HashMap ProtocolPoolKey PoolMetadataResult)
    (cached : HashMap ProtocolPoolKey PoolMetadata) :
    HashMap ProtocolPoolKey PoolMetadataResult :=
  metadata ∪ cached.map (fun _ value => .ok value)

/-- The server's resolution. -/
def cachedPoolMetadataWith (candidates : HashSet ProtocolPoolKey) (loadCache : LoadCache)
    (fetch : FetchMetadata) : Except ClientEvmError Resolution := do
  let cached := cachedHits loadCache candidates
  let metadata ← fetch (cacheMisses cached candidates (fun _ => true))
  return { results := withCached metadata cached, stored := metadata }

/-- The client's resolution, before the gate. -/
def resolvePoolMetadataWith (candidates : HashSet ProtocolPoolKey) (loadCache : LoadCache)
    (fetchV3 fetchV4 : FetchMetadata) : Except ClientEvmError Resolution := do
  let cached := cachedHits loadCache candidates
  let v4Misses := cacheMisses cached candidates (fun candidate => candidate.uniswapV4PoolId.isSome)
  let v3Misses := cacheMisses cached candidates (fun candidate => !candidate.uniswapV4PoolId.isSome)
  let v3Metadata ← fetchV3 v3Misses
  let v4Metadata ← fetchV4 v4Misses
  let metadata := v3Metadata ∪ v4Metadata
  return { results := withCached metadata cached, stored := metadata }

/-- What one execution of a resolver reads from outside, in whatever state it is then. -/
structure Surroundings where
  loadCache : LoadCache
  endpoints : ChainEndpoints
  candidateRound : Aggregate3
  factoryRound : Aggregate3
  graphEndpoints : GraphEndpoints
  sendGraphqlRequest : SendGraphqlRequest
  tokenWhitelist : Option TokenWhitelist

inductive Runtime
  | aaServer | aaCli
  deriving DecidableEq, Repr

section Resolve

variable [MetadataAbi] [PoolKeyHash]

/-- The server's `cached_pool_metadata`. -/
def serverPoolMetadata (outside : Surroundings) (chain : ChainKey)
    (candidates : HashSet ProtocolPoolKey) : Except ClientEvmError Resolution :=
  cachedPoolMetadataWith candidates outside.loadCache
    (fetchPoolMetadata outside.endpoints outside.candidateRound outside.factoryRound chain)

/-- The client's `cached_pool_metadata`: the gate runs after the cache took the true results. -/
def cliPoolMetadata (outside : Surroundings) (chain : ChainKey)
    (candidates : HashSet ProtocolPoolKey) : Except ClientEvmError Resolution := do
  let resolution ← resolvePoolMetadataWith candidates outside.loadCache
    (fetchPoolMetadata outside.endpoints outside.candidateRound outside.factoryRound chain)
    (fetchV4PoolMetadata outside.sendGraphqlRequest outside.graphEndpoints chain)
  match outside.tokenWhitelist with
  | some whitelist =>
    return { resolution with
      results := whitelist.gatePoolMetadataResults chain resolution.results }
  | none => return resolution

def Runtime.poolMetadata : Runtime → Surroundings → ChainKey → HashSet ProtocolPoolKey →
    Except ClientEvmError Resolution
  | aaServer => serverPoolMetadata
  | aaCli => cliPoolMetadata

/-! ### Which candidates are answered -/

/-- A candidate a runtime has an answer for: a cached one, a v3 pool, and with the client
a v4 pool that the subgraph returned. -/
def Served (runtime : Runtime) (outside : Surroundings) (chain : ChainKey)
    (candidates : HashSet ProtocolPoolKey) (candidate : ProtocolPoolKey) : Prop :=
  candidate ∈ cachedHits outside.loadCache candidates ∨ candidate.uniswapV3Address.isSome ∨
    runtime = .aaCli ∧
      ∃ id ∈ indexedIds outside.sendGraphqlRequest outside.graphEndpoints chain
          (requestedPoolIds (cacheMisses (cachedHits outside.loadCache candidates) candidates
            (fun candidate => candidate.uniswapV4PoolId.isSome))),
        candidate = .uniswapV4 id

omit [MetadataAbi] [PoolKeyHash] in
theorem mem_cacheMisses (cached : HashMap ProtocolPoolKey PoolMetadata)
    (candidates : HashSet ProtocolPoolKey) (belongs : ProtocolPoolKey → Bool)
    (candidate : ProtocolPoolKey) :
    candidate ∈ cacheMisses cached candidates belongs ↔
      candidate ∈ candidates ∧ candidate ∉ cached ∧ belongs candidate = true := by
  simp [cacheMisses, List.mem_filter, ← Std.ExtTreeMap.contains_iff_mem]

omit [MetadataAbi] [PoolKeyHash] in
theorem mem_withCached (metadata : HashMap ProtocolPoolKey PoolMetadataResult)
    (cached : HashMap ProtocolPoolKey PoolMetadata) (candidate : ProtocolPoolKey) :
    candidate ∈ withCached metadata cached ↔ candidate ∈ metadata ∨ candidate ∈ cached := by
  simp [withCached, Std.ExtTreeMap.mem_union_iff]

omit [MetadataAbi] [PoolKeyHash] in
theorem isSome_v4PoolId (candidate : ProtocolPoolKey) :
    candidate.uniswapV4PoolId.isSome = !candidate.uniswapV3Address.isSome := by
  cases candidate <;> rfl

theorem mem_serverPoolMetadata {outside : Surroundings} {chain : ChainKey}
    {candidates : HashSet ProtocolPoolKey} {resolution : Resolution}
    (resolved : serverPoolMetadata outside chain candidates = .ok resolution)
    {candidate : ProtocolPoolKey} (requested : candidate ∈ candidates) :
    candidate ∈ resolution.results ↔ Served .aaServer outside chain candidates candidate := by
  obtain ⟨metadata, fetched, merged⟩ := Except.bind_eq_ok_iff.mp resolved
  obtain rfl := Except.pure_eq_ok_iff.mp merged
  rw [mem_withCached, mem_fetchPoolMetadata fetched, mem_cacheMisses]
  simp only [Served, requested, reduceCtorEq, false_and, or_false, true_and, and_true]
  by_cases hit : candidate ∈ cachedHits outside.loadCache candidates
  · simp [hit]
  · simp [hit]

theorem mem_resolvePoolMetadata {outside : Surroundings} {chain : ChainKey}
    {candidates : HashSet ProtocolPoolKey} {resolution : Resolution}
    (resolved : resolvePoolMetadataWith candidates outside.loadCache
      (fetchPoolMetadata outside.endpoints outside.candidateRound outside.factoryRound chain)
      (fetchV4PoolMetadata outside.sendGraphqlRequest outside.graphEndpoints chain) =
      .ok resolution)
    {candidate : ProtocolPoolKey} (requested : candidate ∈ candidates) :
    candidate ∈ resolution.results ↔ Served .aaCli outside chain candidates candidate := by
  obtain ⟨v3Metadata, fetchedV3, rest⟩ := Except.bind_eq_ok_iff.mp resolved
  obtain ⟨v4Metadata, fetchedV4, merged⟩ := Except.bind_eq_ok_iff.mp rest
  obtain rfl := Except.pure_eq_ok_iff.mp merged
  rw [mem_withCached, Std.ExtTreeMap.mem_union_iff, mem_fetchPoolMetadata fetchedV3,
    mem_fetchV4PoolMetadata fetchedV4, mem_cacheMisses, mem_cacheMisses, isSome_v4PoolId]
  simp only [Served, requested, true_and, Bool.not_not]
  by_cases hit : candidate ∈ cachedHits outside.loadCache candidates
  · simp [hit]
  · cases candidate with
    | uniswapV3 address => simp [hit, ProtocolPoolKey.uniswapV3Address]
    | uniswapV4 poolId => simp [hit, ProtocolPoolKey.uniswapV3Address]

/-- A successful resolution has a result for exactly the served candidates. -/
theorem mem_poolMetadata {runtime : Runtime} {outside : Surroundings} {chain : ChainKey}
    {candidates : HashSet ProtocolPoolKey} {resolution : Resolution}
    (resolved : runtime.poolMetadata outside chain candidates = .ok resolution)
    {candidate : ProtocolPoolKey} (requested : candidate ∈ candidates) :
    candidate ∈ resolution.results ↔ Served runtime outside chain candidates candidate := by
  cases runtime with
  | aaServer => exact mem_serverPoolMetadata resolved requested
  | aaCli =>
    obtain ⟨ungated, resolved, gated⟩ := Except.bind_eq_ok_iff.mp resolved
    rw [← mem_resolvePoolMetadata resolved requested]
    split at gated
    · obtain rfl := Except.pure_eq_ok_iff.mp gated
      exact TokenWhitelist.mem_gatePoolMetadataResults _ _ _ _
    · obtain rfl := Except.pure_eq_ok_iff.mp gated
      exact Iff.rfl

end Resolve

end ArmchairAnalyst.Client

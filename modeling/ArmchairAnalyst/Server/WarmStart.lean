import ArmchairAnalyst.Client.CachedResolutions
import ArmchairAnalyst.Client.MulticallFetches
import ArmchairAnalyst.Server.PoolsMeta

/-!
# The warm start

A server starts from what earlier runs have left in the metadata cache. Whatever was
resolved before, and whatever failed, the seed holds only pools and tokens that a fetch
has validated.
-/

namespace ArmchairAnalyst

/-! ### Registries filled with results -/

theorem TrustedPoolRegistry.verified_foldl {chain : ChainKey} {pool : PoolRef}
    {metadata : PoolMetadata} {entries : List (ProtocolPoolKey × PoolMetadataResult)}
    {registry : TrustedPoolRegistry}
    (verified : (entries.foldl (withMetadataResult chain) registry).verified[pool]? =
      some metadata) :
    registry.verified[pool]? = some metadata ∨
      pool.chain = chain ∧ (pool.key, .ok metadata) ∈ entries := by
  induction entries generalizing registry with
  | nil => exact .inl verified
  | cons entry entries inductionHypothesis =>
    rcases inductionHypothesis verified with now | ⟨own, later⟩
    · obtain ⟨candidate, result⟩ := entry
      cases result with
      | ok value =>
        rw [withMetadataResult, HashMap.getElem?_insert] at now
        split at now
        case isTrue same =>
          subst same
          obtain rfl := Option.some.inj now
          exact .inr ⟨rfl, List.mem_cons_self⟩
        case isFalse => exact .inl now
      | error failure =>
        simp only [withMetadataResult] at now
        split at now <;> exact .inl now
    · exact .inr ⟨own, List.mem_cons_of_mem _ later⟩

theorem TokenRegistry.verified_foldl {token : TokenAddress} {metadata : TokenMetadata}
    {entries : List (TokenAddress × TokenMetadataResult)} {registry : TokenRegistry}
    (verified : (entries.foldl withMetadataResult registry).verified[token]? = some metadata) :
    registry.verified[token]? = some metadata ∨ (token, .ok metadata) ∈ entries := by
  induction entries generalizing registry with
  | nil => exact .inl verified
  | cons entry entries inductionHypothesis =>
    rcases inductionHypothesis verified with now | later
    · obtain ⟨asked, result⟩ := entry
      cases result with
      | ok value =>
        rw [withMetadataResult, HashMap.getElem?_insert] at now
        split at now
        case isTrue same =>
          subst same
          obtain rfl := Option.some.inj now
          exact .inr List.mem_cons_self
        case isFalse => exact .inl now
      | error failure =>
        simp only [withMetadataResult] at now
        split at now <;> exact .inl now
    · exact .inr (List.mem_cons_of_mem _ later)

theorem TrustedPoolRegistry.mem_verified_foldl {chain : ChainKey} {candidate : ProtocolPoolKey}
    {metadata : PoolMetadata} {entries : List (ProtocolPoolKey × PoolMetadataResult)}
    (listed : (candidate, .ok metadata) ∈ entries) (registry : TrustedPoolRegistry) :
    (⟨candidate, chain⟩ : PoolRef) ∈
      (entries.foldl (withMetadataResult chain) registry).verified := by
  induction entries generalizing registry with
  | nil => cases listed
  | cons entry entries inductionHypothesis =>
    rcases List.mem_cons.mp listed with rfl | later
    · have added : (⟨candidate, chain⟩ : PoolRef) ∈
          (withMetadataResult chain registry (candidate, .ok metadata)).verified := by
        simp [withMetadataResult]
      exact List.foldlRecOn
        (motive := fun registry => (⟨candidate, chain⟩ : PoolRef) ∈ registry.verified) entries
        (withMetadataResult chain) added
        (fun registry held entry _ => verified_withMetadataResult_mono held)
    · exact inductionHypothesis later _

namespace Server

open Client

/-! ### The seed of a cache -/

/-- What fails when a seed is read. -/
structure SeedFaults where
  poolCandidates : Option String
  poolMetadata : Option String
  tokenMetadata : Option String

def orEmpty {A Failure : Type} [EmptyCollection A] : Except Failure A → A
  | .ok value => value
  | .error _ => ∅

section Seed

variable [MetadataJson]

def seedPools (cache : MetadataCache) (faults : SeedFaults) :
    HashMap ProtocolPoolKey PoolMetadata :=
  let candidates := orEmpty (cache.loadPoolCandidates faults.poolCandidates servedChain)
  orEmpty (cache.loadPoolMetadata faults.poolMetadata servedChain candidates)

/-- The tokens of the seed's pools that have decimals in the cache. -/
def seedTokens (cache : MetadataCache) (faults : SeedFaults) :
    HashMap TokenAddress TokenMetadata :=
  let tokens := HashSet.collect ((HashMap.values (seedPools cache faults)).flatMap (fun metadata =>
    [(⟨metadata.token0, servedChain⟩ : TokenAddress), ⟨metadata.token1, servedChain⟩]))
  orEmpty (cache.loadTokenMetadata faults.tokenMetadata tokens)

/-- The registries that a server starts with. A fault costs the part it hits. -/
def cachedRegistrySeed (cache : MetadataCache) (faults : SeedFaults) : RegistrySeed :=
  loadRegistrySeed (seedPools cache faults) (seedTokens cache faults)

variable {oracle : FetchOracle} {cache : MetadataCache} {outcomes : List Outcome}

theorem seedPools_answered (codec : MetadataJson.RoundTrips) {held : Held}
    (represents : Represents cache held) (answered : held.Answered oracle) (faults : SeedFaults) :
    Sound (oracle.pools servedChain) (seedPools cache faults) := by
  unfold seedPools
  cases faults.poolMetadata with
  | some message => exact Sound.empty _
  | none =>
    dsimp only
    rw [represents.loadPoolMetadata codec]
    exact Sound.answersTo (answered.pools servedChain) _

theorem seedTokens_answered (codec : MetadataJson.RoundTrips) {held : Held}
    (represents : Represents cache held) (answered : held.Answered oracle) (faults : SeedFaults) :
    Sound oracle.token (seedTokens cache faults) := by
  unfold seedTokens
  cases faults.tokenMetadata with
  | some message => exact Sound.empty _
  | none =>
    dsimp only
    rw [represents.loadTokenMetadata codec]
    exact Sound.answersTo answered.tokens _

/-- Without a fault the seed has every pool of the chain that the cache holds. -/
theorem mem_seedPools (codec : MetadataJson.RoundTrips) {held : Held}
    (represents : Represents cache held) (candidate : ProtocolPoolKey) :
    candidate ∈ seedPools cache ⟨none, none, none⟩ ↔
      (held.pools servedChain candidate).isSome := by
  obtain ⟨candidates, loaded, listed⟩ := represents.loadPoolCandidates servedChain
  have pools : seedPools cache ⟨none, none, none⟩ =
      answersTo (held.pools servedChain) candidates := by
    simp only [seedPools, loaded, orEmpty, represents.loadPoolMetadata codec]
  rw [pools, Std.ExtTreeMap.mem_iff_isSome_getElem?, getElem?_answersTo]
  have := listed candidate
  grind

/-- A pool of the seed has the metadata that the fetches answer for it. -/
theorem verified_cachedRegistrySeed (codec : MetadataJson.RoundTrips)
    (recorded : Recorded oracle cache outcomes) (faults : SeedFaults) {pool : PoolRef}
    {metadata : PoolMetadata}
    (verified : (cachedRegistrySeed cache faults).poolRegistry.verified[pool]? = some metadata) :
    pool.chain = servedChain ∧ oracle.pools servedChain pool.key = some (.ok metadata) := by
  obtain ⟨held, represents, answered, -⟩ := recorded
  rcases TrustedPoolRegistry.verified_foldl verified with before | ⟨own, listed⟩
  · simp [TrustedPoolRegistry.new] at before
  · rw [HashMap.mem_toList_iff, Std.ExtTreeMap.getElem?_map, Option.map_eq_some_iff] at listed
    obtain ⟨value, found, same⟩ := listed
    obtain rfl := Except.ok.inj same
    exact ⟨own, seedPools_answered codec represents answered faults _ _ found⟩

theorem verified_tokens_cachedRegistrySeed (codec : MetadataJson.RoundTrips)
    (recorded : Recorded oracle cache outcomes) (faults : SeedFaults) {token : TokenAddress}
    {metadata : TokenMetadata}
    (verified : (cachedRegistrySeed cache faults).tokenRegistry.verified[token]? = some metadata) :
    oracle.token token = some (.ok metadata) := by
  obtain ⟨held, represents, answered, -⟩ := recorded
  rcases TokenRegistry.verified_foldl verified with before | listed
  · simp [TokenRegistry.new] at before
  · rw [HashMap.mem_toList_iff, Std.ExtTreeMap.getElem?_map, Option.map_eq_some_iff] at listed
    obtain ⟨value, found, same⟩ := listed
    obtain rfl := Except.ok.inj same
    exact seedTokens_answered codec represents answered faults _ _ found

/-- A seed that is read without a fault has exactly the recorded pools of its chain. -/
theorem mem_verified_cachedRegistrySeed (codec : MetadataJson.RoundTrips)
    (recorded : Recorded oracle cache outcomes) (candidate : ProtocolPoolKey) :
    (⟨candidate, servedChain⟩ : PoolRef) ∈
        (cachedRegistrySeed cache ⟨none, none, none⟩).poolRegistry.verified ↔
      RecordedPool outcomes servedChain candidate := by
  obtain ⟨held, represents, -, known⟩ := recorded
  rw [← known, ← mem_seedPools codec represents, HashMap.mem_iff_exists, HashMap.mem_iff_exists]
  constructor
  · rintro ⟨metadata, verified⟩
    rcases TrustedPoolRegistry.verified_foldl verified with before | ⟨-, listed⟩
    · simp [TrustedPoolRegistry.new] at before
    · rw [HashMap.mem_toList_iff, Std.ExtTreeMap.getElem?_map, Option.map_eq_some_iff] at listed
      obtain ⟨value, found, -⟩ := listed
      exact ⟨value, found⟩
  · rintro ⟨metadata, found⟩
    rw [← HashMap.mem_iff_exists]
    refine @TrustedPoolRegistry.mem_verified_foldl _ _ metadata _ ?_ TrustedPoolRegistry.new
    rw [HashMap.mem_toList_iff, Std.ExtTreeMap.getElem?_map, found]
    rfl

/-! ### Transparency -/

/-- The next resolution of a cache returns what the fetches answer. -/
structure Transparent (oracle : FetchOracle) (cache : MetadataCache) : Prop where
  pools (request : PoolResolve) (resolution : Resolution) :
    resolvePools oracle cache request = .ok resolution → ∀ candidate,
      resolution.results[candidate]? =
        if candidate ∈ request.candidates then oracle.pools request.chain candidate else none
  poolErrors (request : PoolResolve) (error : ClientEvmError) :
    resolvePools oracle cache request = .error error → ∃ misses : HashSet ProtocolPoolKey,
      (∀ candidate ∈ misses, candidate ∈ request.candidates ∧
        candidate ∉ cachedHits (loadedPools cache request) request.candidates) ∧
      (request.fetchFault misses = some error ∨ request.fetchV4Fault misses = some error)
  tokens (request : TokenResolve) (resolution : TokenResolution) :
    resolveTokens oracle cache request = .ok resolution → ∀ token,
      resolution.results[token]? = if token ∈ request.tokens then oracle.token token else none
  tokenErrors (request : TokenResolve) (error : ClientEvmError) :
    resolveTokens oracle cache request = .error error → ∃ misses : HashSet TokenAddress,
      (∀ token ∈ misses, token ∈ request.tokens ∧
        token ∉ cachedTokenHits (loadedTokens cache request) request.tokens) ∧
      request.fetchFault misses = some error

/-- After any resolutions, whatever failed, the cache is transparent. Its pools of a chain
are those that a faultless store was given as validated, and the seed of a warm start has
no others. -/
theorem metadataCache_transparent (codec : MetadataJson.RoundTrips) (oracle : FetchOracle)
    (requests : List Resolve) :
    Transparent oracle (run (resolve oracle) .empty requests).1 ∧
    (∀ chain chain' candidate candidate', poolKey chain candidate = poolKey chain' candidate' →
      chain = chain' ∧ candidate = candidate') ∧
    (∀ chain identity candidate, decodePoolCandidate identity = some candidate ↔
      chainTag chain :: identity = poolKey chain candidate) ∧
    (∀ chain, ∃ candidates,
      (run (resolve oracle) .empty requests).1.loadPoolCandidates none chain = .ok candidates ∧
      ∀ candidate, candidate ∈ candidates ↔
        RecordedPool (run (resolve oracle) .empty requests).2 chain candidate) ∧
    (∀ candidate, (⟨candidate, servedChain⟩ : PoolRef) ∈
        (cachedRegistrySeed (run (resolve oracle) .empty requests).1
          ⟨none, none, none⟩).poolRegistry.verified ↔
      RecordedPool (run (resolve oracle) .empty requests).2 servedChain candidate) ∧
    ∀ faults,
      (∀ (pool : PoolRef) metadata, (cachedRegistrySeed (run (resolve oracle) .empty requests).1
          faults).poolRegistry.verified[pool]? = some metadata →
        pool.chain = servedChain ∧ oracle.pools servedChain pool.key = some (.ok metadata)) ∧
      ∀ (token : TokenAddress) metadata, (cachedRegistrySeed (run (resolve oracle) .empty requests).1
          faults).tokenRegistry.verified[token]? = some metadata →
        oracle.token token = some (.ok metadata) := by
  have recorded := recorded_run codec oracle requests
  obtain ⟨held, represents, answered, known⟩ := recorded_run codec oracle requests
  refine ⟨?_, fun _ _ _ _ => poolKey_injective, fun chain _ _ => decodePoolCandidate_eq_some_iff chain,
    fun chain => ?_, mem_verified_cachedRegistrySeed codec recorded, fun faults => ⟨?_, ?_⟩⟩
  · exact
      { pools := fun _ _ resolved => getElem?_resolvePools codec represents answered resolved
        poolErrors := fun _ _ => resolvePools_error
        tokens := fun _ _ resolved => getElem?_resolveTokens codec represents answered resolved
        tokenErrors := fun _ _ => resolveTokens_error }
  · obtain ⟨candidates, loaded, listed⟩ := represents.loadPoolCandidates chain
    exact ⟨candidates, loaded, fun candidate => (listed candidate).trans (known chain candidate)⟩
  · intro pool metadata verified
    exact verified_cachedRegistrySeed codec recorded faults verified
  · intro token metadata verified
    exact verified_tokens_cachedRegistrySeed codec recorded faults verified

end Seed

/-! ### One pool -/

def feeCode : PoolFee → ℕ × ℕ × ℕ
  | .tiered tier => (0, tier.pips.toNat, 0)
  | .static pips tickSpacing => (1, pips.toNat, tickSpacing.toNat)

def feeOfCode : ℕ × ℕ × ℕ → Option PoolFee
  | (0, pips, _) => (UniswapV3Fee.tryFromPips (UInt32.ofNat pips)).map .tiered
  | (_, pips, tickSpacing) => some (.static (UInt32.ofNat pips) (UInt16.ofNat tickSpacing))

theorem feeOfCode_feeCode (fee : PoolFee) : feeOfCode (feeCode fee) = some fee := by
  cases fee with
  | tiered tier => simp [feeCode, feeOfCode, UniswapV3Fee.tryFromPips_pips]
  | static pips tickSpacing => simp [feeCode, feeOfCode]

instance encodablePoolMetadata : Encodable PoolMetadata :=
  Encodable.ofLeftInjection
    (fun metadata => (metadata.token0.toNat, metadata.token1.toNat, feeCode metadata.fee))
    (fun fields => (feeOfCode fields.2.2).map (fun fee =>
      ⟨BitVec.ofNat 160 fields.1, BitVec.ofNat 160 fields.2.1, fee⟩))
    (fun metadata => by simp [feeOfCode_feeCode])

instance encodableTokenMetadata : Encodable TokenMetadata :=
  Encodable.ofLeftInjection (fun metadata => metadata.decimals.value)
    (fun value => if supported : value ≤ 36 then some ⟨value, supported⟩ else none)
    (fun metadata => by simp [metadata.decimals.supported])

def textBytes (text : String) : Bytes := text.toList.map (fun char => UInt8.ofNat char.toNat)

def stablePool : ProtocolPoolKey := .uniswapV3 0x3416cF6C708Da44DB2624D63ea0AAef7113527C6

def stableMetadata : PoolMetadata where
  token0 := 0xA0b86991c6218b36c1d19D4a2e9Eb0cE3606eB48
  token1 := 0xdAC17F958D2ee523a2206206994597C13D831ec7
  fee := .tiered .fee100

def stableText : Bytes :=
  textBytes ("\x7b\"token0\":\"0xa0b86991c6218b36c1d19d4a2e9eb0ce3606eb48\"," ++
    "\"token1\":\"0xdac17f958d2ee523a2206206994597c13d831ec7\"," ++
    "\"fee\":\x7b\"Tiered\":\"Fee100\"\x7d\x7d")

def nativeText : Bytes := textBytes "\x7b\"decimals\":18\x7d"

/-- The JSON of one pool and of one count of decimals. Everything else is numbered. -/
@[reducible] def stableJson : MetadataJson where
  poolToVec metadata := .ok (pinned stableMetadata stableText metadata)
  poolFromSlice data :=
    match unpinned stableMetadata stableText data with
    | some metadata => .ok metadata
    | none => .error "undecodable"
  tokenToVec metadata := .ok (pinned nativeTokenMetadata nativeText metadata)
  tokenFromSlice data :=
    match unpinned nativeTokenMetadata nativeText data with
    | some metadata => .ok metadata
    | none => .error "undecodable"

theorem roundTrips_stableJson : @MetadataJson.RoundTrips stableJson := by
  refine @MetadataJson.RoundTrips.mk stableJson (fun metadata => ⟨_, rfl, ?_⟩)
    (fun metadata => ⟨_, rfl, ?_⟩)
  · change (match unpinned stableMetadata stableText (pinned stableMetadata stableText metadata) with
      | some metadata => Except.ok metadata
      | none => Except.error "undecodable") = _
    rw [unpinned_pinned (by decide +kernel)]
  · change (match unpinned nativeTokenMetadata nativeText
        (pinned nativeTokenMetadata nativeText metadata) with
      | some metadata => Except.ok metadata
      | none => Except.error "undecodable") = _
    rw [unpinned_pinned (by decide)]

/-- Every fetch knows the one pool. -/
def stableOracle : FetchOracle where
  pools _ candidate := if candidate = stablePool then some (.ok stableMetadata) else none
  tokens _ _ := none

def stableRequest : PoolResolve where
  runtime := .aaCli
  chain := servedChain
  candidates := HashSet.collect [stablePool]
  loadFault := some "locked"
  storeFault := none
  fetchFault _ := none
  fetchV4Fault _ := none

/-- A pool that the client resolved is in the seed of the server's next start. -/
theorem metadataCache_transparent_stable :
    letI : MetadataJson := stableJson
    (⟨stablePool, servedChain⟩ : PoolRef) ∈ (cachedRegistrySeed
      (run (resolve stableOracle) .empty [.pools stableRequest]).1
      ⟨none, none, none⟩).poolRegistry.verified := by
  let _ : MetadataJson := stableJson
  obtain ⟨-, -, -, -, seed, -⟩ := @metadataCache_transparent stableJson roundTrips_stableJson
    stableOracle [.pools stableRequest]
  refine (seed stablePool).mpr ?_
  cases resolved : resolvePools stableOracle .empty stableRequest with
  | error error =>
    obtain ⟨misses, -, faulty | faulty⟩ := resolvePools_error resolved <;> cases faulty
  | ok resolution =>
    obtain ⟨-, fetched⟩ := resolvePools_ok resolved
    have hits : cachedHits (loadedPools .empty stableRequest) stableRequest.candidates = ∅ := rfl
    have answer := fetched stablePool
    rw [hits, if_pos ⟨by simp [stableRequest], by simp⟩] at answer
    obtain ⟨next, stored, -⟩ := represents_empty.storePoolMetadata roundTrips_stableJson
      stableRequest.chain resolution.stored
    refine ⟨resolution, stableMetadata, ?_, answer.trans rfl⟩
    have stored : MetadataCache.empty.storePoolMetadata stableRequest.storeFault
      stableRequest.chain resolution.stored = .ok next := stored
    have outcome : resolve stableOracle .empty (.pools stableRequest) =
        (next, [.pools servedChain (.ok resolution) true]) := by
      simp only [resolve, resolved, stored]
      rfl
    simp only [run, outcome]
    exact List.mem_cons_self

end Server

end ArmchairAnalyst

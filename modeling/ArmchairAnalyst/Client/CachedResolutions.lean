import ArmchairAnalyst.Client.MetadataCache
import ArmchairAnalyst.Client.MetadataResolvers
import ArmchairAnalyst.Library.TransitionSystem

/-!
# Resolutions through the metadata cache

Both runtimes resolve pools and tokens of every chain through one cache. Each load, each
store and each fetch may fail. What a fetch answers when it succeeds is fixed for each
chain, and the cache adds nothing to it and takes nothing away.
-/

namespace ArmchairAnalyst.Client

/-- A resolution of tokens: the results, and what was handed to the cache on the way. -/
structure TokenResolution where
  results : HashMap TokenAddress TokenMetadataResult
  stored : HashMap TokenAddress TokenMetadataResult

abbrev LoadTokenCache :=
  HashSet TokenAddress → Except String (HashMap TokenAddress TokenMetadata)

def cachedTokenHits (loadCache : LoadTokenCache) (tokens : HashSet TokenAddress) :
    HashMap TokenAddress TokenMetadata :=
  match loadCache tokens with
  | .ok cached => cached
  | .error _ => ∅

def tokenMisses (cached : HashMap TokenAddress TokenMetadata) (tokens : HashSet TokenAddress) :
    HashSet TokenAddress :=
  HashSet.collect (tokens.toList.filter (fun token => !cached.contains token))

/-- The resolution of tokens, the same in both runtimes. -/
def cachedTokenMetadataWith (tokens : HashSet TokenAddress) (loadCache : LoadTokenCache)
    (fetch : HashSet TokenAddress →
      Except ClientEvmError (HashMap TokenAddress TokenMetadataResult)) :
    Except ClientEvmError TokenResolution := do
  let cached := cachedTokenHits loadCache tokens
  let metadata ← fetch (tokenMisses cached tokens)
  return { results := metadata ∪ cached.map (fun _ value => .ok value), stored := metadata }

theorem mem_tokenMisses (cached : HashMap TokenAddress TokenMetadata)
    (tokens : HashSet TokenAddress) (token : TokenAddress) :
    token ∈ tokenMisses cached tokens ↔ token ∈ tokens ∧ token ∉ cached := by
  simp [tokenMisses, List.mem_filter, ← Std.ExtTreeMap.contains_iff_mem]

/-! ### Requests -/

/-- What a fetch answers when it succeeds, by chain. -/
structure FetchOracle where
  pools : ChainKey → ProtocolPoolKey → Option PoolMetadataResult
  tokens : ChainKey → Address → Option TokenMetadataResult

def FetchOracle.token (oracle : FetchOracle) (token : TokenAddress) : Option TokenMetadataResult :=
  oracle.tokens token.chain token.address

/-- A fetch fails as a whole, or answers what it knows of the keys. -/
def fetchAnswers {K A : Type} [Ord K] [Std.TransOrd K] (fault : HashSet K → Option ClientEvmError)
    (answer : K → Option A) (misses : HashSet K) : Except ClientEvmError (HashMap K A) :=
  match fault misses with
  | some error => .error error
  | none => .ok (answersTo answer misses)

structure PoolResolve where
  runtime : Runtime
  chain : ChainKey
  candidates : HashSet ProtocolPoolKey
  loadFault : Option String
  storeFault : Option String
  fetchFault : HashSet ProtocolPoolKey → Option ClientEvmError
  fetchV4Fault : HashSet ProtocolPoolKey → Option ClientEvmError

/-- A chain is asked for its own tokens. -/
structure TokenResolve where
  chain : ChainKey
  tokens : HashSet TokenAddress
  own : ∀ token ∈ tokens, token.chain = chain
  loadFault : Option String
  storeFault : Option String
  fetchFault : HashSet TokenAddress → Option ClientEvmError

inductive Resolve
  | pools (request : PoolResolve)
  | tokens (request : TokenResolve)

/-- How a resolution ended, and whether its store went without a fault. -/
inductive Outcome
  | pools (chain : ChainKey) (resolution : Except ClientEvmError Resolution) (recorded : Bool)
  | tokens (resolution : Except ClientEvmError TokenResolution) (recorded : Bool)

def orMessage {A : Type} : Except MetadataCacheError A → Except String A
  | .ok value => .ok value
  | .error error => .error error.message

section Resolve

variable [MetadataJson]

def loadedPools (cache : MetadataCache) (request : PoolResolve) : LoadCache :=
  fun candidates => orMessage (cache.loadPoolMetadata request.loadFault request.chain candidates)

def resolvePools (oracle : FetchOracle) (cache : MetadataCache) (request : PoolResolve) :
    Except ClientEvmError Resolution :=
  let answer := oracle.pools request.chain
  match request.runtime with
  | .aaServer =>
    cachedPoolMetadataWith request.candidates (loadedPools cache request)
      (fetchAnswers request.fetchFault answer)
  | .aaCli =>
    resolvePoolMetadataWith request.candidates (loadedPools cache request)
      (fetchAnswers request.fetchFault answer) (fetchAnswers request.fetchV4Fault answer)

def loadedTokens (cache : MetadataCache) (request : TokenResolve) : LoadTokenCache :=
  fun tokens => orMessage (cache.loadTokenMetadata request.loadFault tokens)

/-- Tokens are fetched from the chain of the request. -/
def resolveTokens (oracle : FetchOracle) (cache : MetadataCache) (request : TokenResolve) :
    Except ClientEvmError TokenResolution :=
  cachedTokenMetadataWith request.tokens (loadedTokens cache request)
    (fetchAnswers request.fetchFault (fun token => oracle.tokens request.chain token.address))

/-- A resolution, and the store of what it fetched. A fault of the store is logged. -/
def resolve (oracle : FetchOracle) (cache : MetadataCache) :
    Resolve → MetadataCache × List Outcome
  | .pools request =>
    match resolvePools oracle cache request with
    | .error error => (cache, [.pools request.chain (.error error) false])
    | .ok resolution =>
      match cache.storePoolMetadata request.storeFault request.chain resolution.stored with
      | .ok next => (next, [.pools request.chain (.ok resolution) true])
      | .error _ => (cache, [.pools request.chain (.ok resolution) false])
  | .tokens request =>
    match resolveTokens oracle cache request with
    | .error error => (cache, [.tokens (.error error) false])
    | .ok resolution =>
      match cache.storeTokenMetadata request.storeFault resolution.stored with
      | .ok next => (next, [.tokens (.ok resolution) true])
      | .error _ => (cache, [.tokens (.ok resolution) false])

/-! ### What is returned -/

/-- Everything held is what the fetches answer. -/
structure Held.Answered (held : Held) (oracle : FetchOracle) : Prop where
  pools (chain : ChainKey) (candidate : ProtocolPoolKey) (metadata : PoolMetadata) :
    held.pools chain candidate = some metadata →
      oracle.pools chain candidate = some (.ok metadata)
  tokens (token : TokenAddress) (metadata : TokenMetadata) :
    held.tokens token = some metadata → oracle.token token = some (.ok metadata)

variable {oracle : FetchOracle} {cache : MetadataCache} {held : Held}

omit [MetadataJson] in
theorem fetchAnswers_ok {K A : Type} [Ord K] [Std.TransOrd K]
    {fault : HashSet K → Option ClientEvmError} {answer : K → Option A} {misses : HashSet K}
    {answers : HashMap K A} (fetched : fetchAnswers fault answer misses = .ok answers) :
    answers = answersTo answer misses := by
  unfold fetchAnswers at fetched
  split at fetched
  · cases fetched
  · exact (Except.ok.inj fetched).symm

omit [MetadataJson] in
theorem fetchAnswers_error {K A : Type} [Ord K] [Std.TransOrd K]
    {fault : HashSet K → Option ClientEvmError} {answer : K → Option A} {misses : HashSet K}
    {error : ClientEvmError} (failed : fetchAnswers fault answer misses = .error error) :
    fault misses = some error := by
  unfold fetchAnswers at failed
  split at failed
  case h_1 fault' faulty => rw [faulty, Except.error.inj failed]
  case h_2 => cases failed

/-- Whatever becomes of the load, a hit is an answer to a requested candidate. -/
theorem cachedHits_loadedPools (codec : MetadataJson.RoundTrips) (represents : Represents cache held)
    (answered : held.Answered oracle) (request : PoolResolve) :
    Sound (oracle.pools request.chain)
        (cachedHits (loadedPools cache request) request.candidates) ∧
      ∀ candidate ∈ cachedHits (loadedPools cache request) request.candidates,
        candidate ∈ request.candidates := by
  cases fault : request.loadFault with
  | some message =>
    have hits : cachedHits (loadedPools cache request) request.candidates = ∅ := by
      simp [cachedHits, loadedPools, fault, MetadataCache.loadPoolMetadata, loadEntries, orMessage]
    rw [hits]
    exact ⟨Sound.empty _, by simp⟩
  | none =>
    have hits : cachedHits (loadedPools cache request) request.candidates =
        answersTo (held.pools request.chain) request.candidates := by
      simp [cachedHits, loadedPools, fault, represents.loadPoolMetadata codec, orMessage]
    rw [hits]
    exact ⟨Sound.answersTo (answered.pools request.chain) _, fun _ => mem_of_mem_answersTo⟩

/-- A resolution stores the answers to what the cache did not hold. -/
theorem resolvePools_ok {request : PoolResolve} {resolution : Resolution}
    (resolved : resolvePools oracle cache request = .ok resolution) :
    resolution.results = withCached resolution.stored
        (cachedHits (loadedPools cache request) request.candidates) ∧
      ∀ candidate, resolution.stored[candidate]? =
        if candidate ∈ request.candidates ∧
            candidate ∉ cachedHits (loadedPools cache request) request.candidates then
          oracle.pools request.chain candidate
        else none := by
  unfold resolvePools at resolved
  split at resolved
  · obtain ⟨metadata, fetched, merged⟩ := Except.bind_eq_ok_iff.mp resolved
    obtain rfl := Except.pure_eq_ok_iff.mp merged
    obtain rfl := fetchAnswers_ok fetched
    refine ⟨rfl, fun candidate => ?_⟩
    simp only [getElem?_answersTo, mem_cacheMisses, and_true]
  · obtain ⟨v3Metadata, fetchedV3, rest⟩ := Except.bind_eq_ok_iff.mp resolved
    obtain ⟨v4Metadata, fetchedV4, merged⟩ := Except.bind_eq_ok_iff.mp rest
    obtain rfl := Except.pure_eq_ok_iff.mp merged
    obtain rfl := fetchAnswers_ok fetchedV3
    obtain rfl := fetchAnswers_ok fetchedV4
    refine ⟨rfl, fun candidate => ?_⟩
    simp only [Std.ExtTreeMap.getElem?_union, getElem?_answersTo, mem_cacheMisses]
    cases candidate <;> simp [ProtocolPoolKey.uniswapV4PoolId]

/-- Every requested pool has the answer of the fetches, and no other pool has one. -/
theorem getElem?_resolvePools (codec : MetadataJson.RoundTrips) (represents : Represents cache held)
    (answered : held.Answered oracle) {request : PoolResolve} {resolution : Resolution}
    (resolved : resolvePools oracle cache request = .ok resolution)
    (candidate : ProtocolPoolKey) :
    resolution.results[candidate]? =
      if candidate ∈ request.candidates then oracle.pools request.chain candidate else none := by
  obtain ⟨results, stored⟩ := resolvePools_ok resolved
  obtain ⟨sound, requested⟩ := cachedHits_loadedPools codec represents answered request
  rw [results, withCached]
  exact getElem?_readThrough sound requested stored candidate

/-- A resolution fails only with a fetch of candidates that the cache does not hold. -/
theorem resolvePools_error {request : PoolResolve} {error : ClientEvmError}
    (failed : resolvePools oracle cache request = .error error) :
    ∃ misses : HashSet ProtocolPoolKey,
      (∀ candidate ∈ misses, candidate ∈ request.candidates ∧
        candidate ∉ cachedHits (loadedPools cache request) request.candidates) ∧
      (request.fetchFault misses = some error ∨ request.fetchV4Fault misses = some error) := by
  unfold resolvePools at failed
  split at failed
  · rcases Except.bind_eq_error_iff.mp failed with fetch | ⟨_, -, merged⟩
    · refine ⟨_, fun candidate missed => ?_, .inl (fetchAnswers_error fetch)⟩
      obtain ⟨requested, absent, -⟩ := (mem_cacheMisses _ _ _ _).mp missed
      exact ⟨requested, absent⟩
    · cases merged
  · rcases Except.bind_eq_error_iff.mp failed with fetch | ⟨_, -, rest⟩
    · refine ⟨_, fun candidate missed => ?_, .inl (fetchAnswers_error fetch)⟩
      obtain ⟨requested, absent, -⟩ := (mem_cacheMisses _ _ _ _).mp missed
      exact ⟨requested, absent⟩
    · rcases Except.bind_eq_error_iff.mp rest with fetch | ⟨_, -, merged⟩
      · refine ⟨_, fun candidate missed => ?_, .inr (fetchAnswers_error fetch)⟩
        obtain ⟨requested, absent, -⟩ := (mem_cacheMisses _ _ _ _).mp missed
        exact ⟨requested, absent⟩
      · cases merged

/-! ### The same for tokens -/

theorem cachedTokenHits_loadedTokens (codec : MetadataJson.RoundTrips)
    (represents : Represents cache held) (answered : held.Answered oracle)
    (request : TokenResolve) :
    Sound oracle.token (cachedTokenHits (loadedTokens cache request) request.tokens) ∧
      ∀ token ∈ cachedTokenHits (loadedTokens cache request) request.tokens,
        token ∈ request.tokens := by
  cases fault : request.loadFault with
  | some message =>
    have hits : cachedTokenHits (loadedTokens cache request) request.tokens = ∅ := by
      simp [cachedTokenHits, loadedTokens, fault, MetadataCache.loadTokenMetadata, loadEntries,
        orMessage]
    rw [hits]
    exact ⟨Sound.empty _, by simp⟩
  | none =>
    have hits : cachedTokenHits (loadedTokens cache request) request.tokens =
        answersTo held.tokens request.tokens := by
      simp [cachedTokenHits, loadedTokens, fault, represents.loadTokenMetadata codec, orMessage]
    rw [hits]
    exact ⟨Sound.answersTo answered.tokens _, fun _ => mem_of_mem_answersTo⟩

theorem resolveTokens_ok {request : TokenResolve} {resolution : TokenResolution}
    (resolved : resolveTokens oracle cache request = .ok resolution) :
    resolution.results = resolution.stored ∪
        (cachedTokenHits (loadedTokens cache request) request.tokens).map
          (fun _ value => .ok value) ∧
      ∀ token, resolution.stored[token]? =
        if token ∈ request.tokens ∧
            token ∉ cachedTokenHits (loadedTokens cache request) request.tokens then
          oracle.token token
        else none := by
  obtain ⟨metadata, fetched, merged⟩ := Except.bind_eq_ok_iff.mp resolved
  obtain rfl := Except.pure_eq_ok_iff.mp merged
  obtain rfl := fetchAnswers_ok fetched
  refine ⟨rfl, fun token => ?_⟩
  simp only [getElem?_answersTo, mem_tokenMisses]
  split
  case isTrue asked => rw [FetchOracle.token, request.own token asked.1]
  case isFalse => rfl

/-- Every requested token has the answer of the fetches, and no other token has one. -/
theorem getElem?_resolveTokens (codec : MetadataJson.RoundTrips)
    (represents : Represents cache held) (answered : held.Answered oracle) {request : TokenResolve}
    {resolution : TokenResolution}
    (resolved : resolveTokens oracle cache request = .ok resolution) (token : TokenAddress) :
    resolution.results[token]? = if token ∈ request.tokens then oracle.token token else none := by
  obtain ⟨results, stored⟩ := resolveTokens_ok resolved
  obtain ⟨sound, requested⟩ := cachedTokenHits_loadedTokens codec represents answered request
  rw [results]
  exact getElem?_readThrough sound requested stored token

theorem resolveTokens_error {request : TokenResolve} {error : ClientEvmError}
    (failed : resolveTokens oracle cache request = .error error) :
    ∃ misses : HashSet TokenAddress,
      (∀ token ∈ misses, token ∈ request.tokens ∧
        token ∉ cachedTokenHits (loadedTokens cache request) request.tokens) ∧
      request.fetchFault misses = some error := by
  rcases Except.bind_eq_error_iff.mp failed with fetch | ⟨_, -, merged⟩
  · exact ⟨_, fun token missed => (mem_tokenMisses _ _ _).mp missed, fetchAnswers_error fetch⟩
  · cases merged

/-! ### Runs -/

/-- The pools and tokens whose metadata a store without a fault was given. -/
def RecordedPool (outcomes : List Outcome) (chain : ChainKey) (candidate : ProtocolPoolKey) : Prop :=
  ∃ resolution metadata, Outcome.pools chain (.ok resolution) true ∈ outcomes ∧
    resolution.stored[candidate]? = some (.ok metadata)

/-- A cache holds answers of the fetches, of the recorded pools and no others. -/
def Recorded (oracle : FetchOracle) (cache : MetadataCache) (outcomes : List Outcome) : Prop :=
  ∃ held : Held, Represents cache held ∧ held.Answered oracle ∧
    ∀ chain candidate, (held.pools chain candidate).isSome ↔ RecordedPool outcomes chain candidate

theorem recorded_empty (oracle : FetchOracle) : Recorded oracle .empty [] :=
  ⟨.empty, represents_empty,
    { pools := fun _ _ _ kept => nomatch kept
      tokens := fun _ _ kept => nomatch kept },
    fun chain candidate => by simp [Held.empty, RecordedPool]⟩

omit [MetadataJson] in
theorem recordedPool_append (seen outcomes : List Outcome) (chain : ChainKey)
    (candidate : ProtocolPoolKey) :
    RecordedPool (seen ++ outcomes) chain candidate ↔
      RecordedPool seen chain candidate ∨ RecordedPool outcomes chain candidate := by
  simp only [RecordedPool, List.mem_append]
  grind

/-- An outcome that records no pool changes nothing where the cache stays as it is. -/
theorem Recorded.kept {seen outcomes : List Outcome} (recorded : Recorded oracle cache seen)
    (silent : ∀ chain candidate, ¬RecordedPool outcomes chain candidate) :
    Recorded oracle cache (seen ++ outcomes) := by
  obtain ⟨held, represents, answered, known⟩ := recorded
  refine ⟨held, represents, answered, fun chain candidate => ?_⟩
  rw [known, recordedPool_append, or_iff_left (silent chain candidate)]

omit [MetadataJson] in
theorem Held.Answered.withPools (answered : held.Answered oracle) {chain : ChainKey}
    {results : HashMap ProtocolPoolKey PoolMetadataResult}
    (fetched : ∀ candidate result, results[candidate]? = some result →
      oracle.pools chain candidate = some result) :
    (held.withPools chain results).Answered oracle := by
  refine ⟨fun other candidate metadata kept => ?_, answered.tokens⟩
  by_cases same : other = chain
  · subst same
    simp only [Held.withPools, Function.update_self, withValidated] at kept
    rcases Option.or_eq_some_iff.mp kept with now | ⟨-, before⟩
    · obtain ⟨result, found, valid⟩ := Option.bind_eq_some_iff.mp now
      cases result with
      | error failure => cases valid
      | ok value =>
        obtain rfl := Option.some.inj valid
        exact fetched candidate _ found
    · exact answered.pools other candidate metadata before
  · simp only [Held.withPools, Function.update_of_ne same] at kept
    exact answered.pools other candidate metadata kept

omit [MetadataJson] in
theorem Held.Answered.withTokens (answered : held.Answered oracle)
    {results : HashMap TokenAddress TokenMetadataResult}
    (fetched : ∀ token result, results[token]? = some result → oracle.token token = some result) :
    (held.withTokens results).Answered oracle := by
  refine ⟨answered.pools, fun token metadata kept => ?_⟩
  rcases Option.or_eq_some_iff.mp kept with now | ⟨-, before⟩
  · obtain ⟨result, found, valid⟩ := Option.bind_eq_some_iff.mp now
    cases result with
    | error failure => cases valid
    | ok value =>
      obtain rfl := Option.some.inj valid
      exact fetched token _ found
  · exact answered.tokens token metadata before

omit [MetadataJson] in
theorem recordedPool_single (chain other : ChainKey) (resolution : Resolution)
    (candidate : ProtocolPoolKey) :
    RecordedPool [.pools chain (.ok resolution) true] other candidate ↔
      other = chain ∧ ∃ metadata, resolution.stored[candidate]? = some (.ok metadata) := by
  simp only [RecordedPool, List.mem_singleton, Outcome.pools.injEq, Except.ok.injEq, and_true]
  grind

omit [MetadataJson] in
theorem Held.isSome_withPools (held : Held) (chain other : ChainKey)
    (results : HashMap ProtocolPoolKey PoolMetadataResult) (candidate : ProtocolPoolKey) :
    ((held.withPools chain results).pools other candidate).isSome ↔
      (held.pools other candidate).isSome ∨
        other = chain ∧ ∃ metadata, results[candidate]? = some (.ok metadata) := by
  by_cases same : other = chain
  · subst same
    simp only [Held.withPools, Function.update_self, withValidated]
    cases results[candidate]? with
    | none => simp
    | some result => cases result <;> simp [Except.toOption]
  · simp [Held.withPools, same]

/-- What one resolution leaves behind. -/
theorem Recorded.resolve (codec : MetadataJson.RoundTrips) {seen : List Outcome}
    (recorded : Recorded oracle cache seen) (request : Resolve) :
    Recorded oracle (resolve oracle cache request).1 (seen ++ (resolve oracle cache request).2) := by
  cases request with
  | pools request =>
    cases resolved : resolvePools oracle cache request with
    | error error =>
      simp only [Client.resolve, resolved]
      exact recorded.kept (by simp [RecordedPool])
    | ok resolution =>
      cases stored : cache.storePoolMetadata request.storeFault request.chain resolution.stored with
      | error error =>
        simp only [Client.resolve, resolved, stored]
        exact recorded.kept (by simp [RecordedPool])
      | ok next =>
        simp only [Client.resolve, resolved, stored]
        obtain ⟨held, represents, answered, known⟩ := recorded
        obtain ⟨next', stored', represents'⟩ :=
          represents.storePoolMetadata codec request.chain resolution.stored
        obtain rfl := Except.ok.inj ((storePoolMetadata_ok stored).symm.trans stored')
        have fetched : ∀ candidate result, resolution.stored[candidate]? = some result →
            oracle.pools request.chain candidate = some result := by
          intro candidate result found
          rw [(resolvePools_ok resolved).2] at found
          split at found
          · exact found
          · cases found
        refine ⟨held.withPools request.chain resolution.stored, represents',
          answered.withPools fetched, fun chain candidate => ?_⟩
        rw [recordedPool_append, ← known, recordedPool_single, Held.isSome_withPools]
  | tokens request =>
    cases resolved : resolveTokens oracle cache request with
    | error error =>
      simp only [Client.resolve, resolved]
      exact recorded.kept (by simp [RecordedPool])
    | ok resolution =>
      cases stored : cache.storeTokenMetadata request.storeFault resolution.stored with
      | error error =>
        simp only [Client.resolve, resolved, stored]
        exact recorded.kept (by simp [RecordedPool])
      | ok next =>
        simp only [Client.resolve, resolved, stored]
        obtain ⟨held, represents, answered, known⟩ := recorded
        obtain ⟨next', stored', represents'⟩ := represents.storeTokenMetadata codec resolution.stored
        obtain rfl := Except.ok.inj ((storeTokenMetadata_ok stored).symm.trans stored')
        have fetched : ∀ token result, resolution.stored[token]? = some result →
            oracle.token token = some result := by
          intro token result found
          rw [(resolveTokens_ok resolved).2] at found
          split at found
          · exact found
          · cases found
        refine ⟨held.withTokens resolution.stored, represents', answered.withTokens fetched,
          fun chain candidate => ?_⟩
        rw [recordedPool_append, ← known, or_iff_left (by simp [RecordedPool])]
        rfl

theorem recorded_run (codec : MetadataJson.RoundTrips) (oracle : FetchOracle)
    (requests : List Resolve) :
    Recorded oracle (run (resolve oracle) .empty requests).1
      (run (resolve oracle) .empty requests).2 :=
  @AllowedAlong.history _ _ _ (resolve oracle) (fun _ _ => True) (Recorded oracle) .empty requests
    (AllowedAlong.of_events (fun _ _ _ => trivial) _)
    (fun _ request _ recorded _ => recorded.resolve codec request) [] (recorded_empty oracle)

end Resolve

end ArmchairAnalyst.Client

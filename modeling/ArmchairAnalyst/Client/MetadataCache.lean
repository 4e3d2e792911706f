import ArmchairAnalyst.Client.PoolMetadata
import ArmchairAnalyst.Kernel.TokenRegistry
import ArmchairAnalyst.Library.ByteKeys
import ArmchairAnalyst.Library.ReadThrough

/-!
# The metadata cache

Validated metadata is kept in two ordered tables with byte keys, one for pools and one
for tokens. All chains and both protocols share the tables. A key begins with the tag of
its chain, so that the pools of one chain are a range of the keys. A write transaction
that meets a fault is dropped and leaves no trace.
-/

namespace ArmchairAnalyst.Client

/-- The JSON of cached metadata. -/
class MetadataJson where
  poolToVec : PoolMetadata → Except String Bytes
  poolFromSlice : Bytes → Except String PoolMetadata
  tokenToVec : TokenMetadata → Except String Bytes
  tokenFromSlice : Bytes → Except String TokenMetadata

inductive MetadataCacheError
  | database (message : String)
  | serialization (message : String)

def MetadataCacheError.message : MetadataCacheError → String
  | database message => "metadata cache database error: " ++ message
  | serialization message => "metadata cache serialization error: " ++ message

abbrev Table := BTreeMap Bytes Bytes

structure MetadataCache where
  pools : Table
  tokens : Table

/-! ### Keys -/

def protoTagV3 : UInt8 := 0

def protoTagV4 : UInt8 := 1

def chainTag : ChainKey → UInt8
  | .ethereum => 0
  | .arbitrum => 1
  | .base => 2
  | .optimism => 3
  | .polygon => 4
  | .bnb => 5
  | .avalanche => 6

def compositeKey (chain : ChainKey) (address : Address) : Bytes :=
  chainTag chain :: bigEndian 20 address.toNat

def poolKey (chain : ChainKey) (candidate : ProtocolPoolKey) : Bytes :=
  chainTag chain ::
    match candidate with
    | .uniswapV3 address => protoTagV3 :: bigEndian 20 address.toNat
    | .uniswapV4 poolId => protoTagV4 :: bigEndian 32 poolId.toNat

/-- A word of the given bits, if the bytes are as many as it has. -/
def tryFromBytes (bits : Nat) (bytes : Bytes) : Option (BitVec bits) :=
  if 8 * bytes.length = bits then some (BitVec.ofNat bits (bigEndianValue bytes)) else none

def decodePoolCandidate : Bytes → Option ProtocolPoolKey
  | [] => none
  | protoTag :: idBytes =>
    if protoTag = protoTagV3 then (tryFromBytes 160 idBytes).map .uniswapV3
    else if protoTag = protoTagV4 then (tryFromBytes 256 idBytes).map .uniswapV4
    else none

/-! ### Loads and stores

Both tables are read and written the same way. A fault is the text of the first database
operation that fails. -/

section Entries

variable {K V Failure : Type} [Ord K] [Std.TransOrd K]

def loadEntry (table : Table) (keyOf : K → Bytes) (fromSlice : Bytes → Except String V)
    (hits : HashMap K V) (key : K) : Except MetadataCacheError (HashMap K V) :=
  match table[keyOf key]? with
  | none => .ok hits
  | some value =>
    match fromSlice value with
    | .ok metadata => .ok (hits.insert key metadata)
    | .error message => .error (.serialization message)

def loadEntries (fault : Option String) (table : Table) (keyOf : K → Bytes)
    (fromSlice : Bytes → Except String V) (keys : HashSet K) :
    Except MetadataCacheError (HashMap K V) :=
  match fault with
  | some message => .error (.database message)
  | none => keys.toList.foldlM (loadEntry table keyOf fromSlice) ∅

/-- The validated results. -/
def storedEntries (results : HashMap K (Except Failure V)) : List (K × V) :=
  results.toList.filterMap (fun entry => entry.2.toOption.map (fun metadata => (entry.1, metadata)))

def storeEntry (keyOf : K → Bytes) (toVec : V → Except String Bytes) (table : Table)
    (entry : K × V) : Except MetadataCacheError Table :=
  match toVec entry.2 with
  | .ok value => .ok (table.insert (keyOf entry.1) value)
  | .error message => .error (.serialization message)

def storeEntries (fault : Option String) (table : Table) (keyOf : K → Bytes)
    (toVec : V → Except String Bytes) (results : HashMap K (Except Failure V)) :
    Except MetadataCacheError Table :=
  if (storedEntries results).isEmpty then .ok table
  else
    match fault with
    | some message => .error (.database message)
    | none => (storedEntries results).foldlM (storeEntry keyOf toVec) table

end Entries

namespace MetadataCache

/-- A cache whose tables have just been created. -/
def empty : MetadataCache := ⟨∅, ∅⟩

section Json

variable [MetadataJson]

def loadPoolMetadata (cache : MetadataCache) (fault : Option String) (chain : ChainKey)
    (candidates : HashSet ProtocolPoolKey) :
    Except MetadataCacheError (HashMap ProtocolPoolKey PoolMetadata) :=
  loadEntries fault cache.pools (poolKey chain) MetadataJson.poolFromSlice candidates

def storePoolMetadata (cache : MetadataCache) (fault : Option String) (chain : ChainKey)
    (results : HashMap ProtocolPoolKey PoolMetadataResult) :
    Except MetadataCacheError MetadataCache :=
  match storeEntries fault cache.pools (poolKey chain) MetadataJson.poolToVec results with
  | .ok pools => .ok { cache with pools }
  | .error error => .error error

def loadTokenMetadata (cache : MetadataCache) (fault : Option String)
    (tokens : HashSet TokenAddress) :
    Except MetadataCacheError (HashMap TokenAddress TokenMetadata) :=
  loadEntries fault cache.tokens (fun token => compositeKey token.chain token.address)
    MetadataJson.tokenFromSlice tokens

def storeTokenMetadata (cache : MetadataCache) (fault : Option String)
    (results : HashMap TokenAddress TokenMetadataResult) :
    Except MetadataCacheError MetadataCache :=
  match storeEntries fault cache.tokens (fun token => compositeKey token.chain token.address)
    MetadataJson.tokenToVec results with
  | .ok tokens => .ok { cache with tokens }
  | .error error => .error error

end Json

/-- The pools stored for a chain: the keys from the chain's tag up to the next tag. -/
def loadPoolCandidates (cache : MetadataCache) (fault : Option String) (chain : ChainKey) :
    Except MetadataCacheError (HashSet ProtocolPoolKey) :=
  match fault with
  | some message => .error (.database message)
  | none =>
    let tag := chainTag chain
    let range := cache.pools.toList.filter (fun entry =>
      (compare [tag] entry.1).isLE && compare entry.1 [tag + 1] == .lt)
    .ok (HashSet.collect (range.filterMap (fun entry =>
      entry.1.tail?.bind decodePoolCandidate)))

end MetadataCache

/-! ### The key of a pool -/

theorem chainTag_injective {chain chain' : ChainKey} (same : chainTag chain = chainTag chain') :
    chain = chain' := by
  cases chain <;> cases chain' <;> first | rfl | cases same

theorem chainTag_succ (chain : ChainKey) :
    (chainTag chain + 1).toNat = (chainTag chain).toNat + 1 := by
  cases chain <;> rfl

theorem tryFromBytes_eq_some_iff {count : Nat} {bytes : Bytes} {word : BitVec (8 * count)} :
    tryFromBytes (8 * count) bytes = some word ↔ bytes = bigEndian count word.toNat := by
  have width : 256 ^ count = 2 ^ (8 * count) := by rw [Nat.pow_mul]
  unfold tryFromBytes
  constructor
  · intro read
    split at read
    case isFalse => cases read
    case isTrue sized =>
      obtain rfl : bytes.length = count := by omega
      obtain rfl := Option.some.inj read
      have bound := bigEndianValue_lt bytes
      rw [width] at bound
      rw [BitVec.toNat_ofNat, Nat.mod_eq_of_lt bound, bigEndian_bigEndianValue]
  · rintro rfl
    rw [length_bigEndian, if_pos rfl, bigEndianValue_bigEndian, width,
      Nat.mod_eq_of_lt word.isLt, BitVec.ofNat_toNat, BitVec.setWidth_eq]

/-- Reading an identity undoes writing it, both ways. -/
theorem decodePoolCandidate_eq_some_iff (chain : ChainKey) {identity : Bytes}
    {candidate : ProtocolPoolKey} :
    decodePoolCandidate identity = some candidate ↔
      chainTag chain :: identity = poolKey chain candidate := by
  cases identity with
  | nil => cases candidate <;> simp [decodePoolCandidate, poolKey]
  | cons protoTag idBytes =>
    have address : ∀ address : Address,
        tryFromBytes 160 idBytes = some address ↔ idBytes = bigEndian 20 address.toNat :=
      fun address => @tryFromBytes_eq_some_iff 20 idBytes address
    have poolId : ∀ poolId : PoolId,
        tryFromBytes 256 idBytes = some poolId ↔ idBytes = bigEndian 32 poolId.toNat :=
      fun poolId => @tryFromBytes_eq_some_iff 32 idBytes poolId
    have tags : protoTagV4 ≠ protoTagV3 := by decide
    unfold decodePoolCandidate poolKey
    cases candidate with
    | uniswapV3 pool =>
      by_cases v3 : protoTag = protoTagV3
      · simp [v3, address]
      · by_cases v4 : protoTag = protoTagV4 <;> simp [v3, v4, tags]
    | uniswapV4 pool =>
      by_cases v3 : protoTag = protoTagV3
      · simp [v3, tags.symm]
      · by_cases v4 : protoTag = protoTagV4
        · simp [v4, tags, poolId]
        · simp [v3, v4]

theorem decodePoolCandidate_poolKey (chain : ChainKey) (candidate : ProtocolPoolKey) :
    ((poolKey chain candidate).tail?.bind decodePoolCandidate) = some candidate := by
  exact (decodePoolCandidate_eq_some_iff chain).mpr rfl

/-- The key of a pool tells its chain, its protocol and its identity. -/
theorem poolKey_injective {chain chain' : ChainKey} {candidate candidate' : ProtocolPoolKey}
    (same : poolKey chain candidate = poolKey chain' candidate') :
    chain = chain' ∧ candidate = candidate' := by
  have decoded := congrArg (fun key => key.tail?.bind decodePoolCandidate) same
  simp only [decodePoolCandidate_poolKey, Option.some.injEq] at decoded
  exact ⟨chainTag_injective (List.cons.inj same).1, decoded⟩

theorem compositeKey_injective {chain chain' : ChainKey} {address address' : Address}
    (same : compositeKey chain address = compositeKey chain' address') :
    chain = chain' ∧ address = address' := by
  obtain ⟨tags, bytes⟩ := List.cons.inj same
  have read := (@tryFromBytes_eq_some_iff 20 _ address).mpr rfl
  have read' := (@tryFromBytes_eq_some_iff 20 _ address').mpr rfl
  rw [bytes] at read
  exact ⟨chainTag_injective tags, Option.some.inj (read.symm.trans read')⟩

/-! ### What the tables hold -/

section Entries

variable {K V Failure : Type} [Ord K] [Std.TransOrd K]

/-- A table that holds some values under the keys of a kind. -/
def Holds (toVec : V → Except String Bytes) (keyOf : K → Bytes) (table : Table)
    (held : K → Option V) : Prop :=
  ∀ key, match held key with
    | some metadata => ∃ value, toVec metadata = .ok value ∧ table[keyOf key]? = some value
    | none => table[keyOf key]? = none

/-- What is written is read back. -/
def ReadsBack (toVec : V → Except String Bytes) (fromSlice : Bytes → Except String V) : Prop :=
  ∀ metadata, ∃ value, toVec metadata = .ok value ∧ fromSlice value = .ok metadata

variable {toVec : V → Except String Bytes} {fromSlice : Bytes → Except String V}
  {keyOf : K → Bytes} {table : Table} {held : K → Option V}

theorem loadEntry_eq (codec : ReadsBack toVec fromSlice) (holds : Holds toVec keyOf table held)
    (hits : HashMap K V) (key : K) :
    loadEntry table keyOf fromSlice hits key =
      .ok (match held key with | some metadata => hits.insert key metadata | none => hits) := by
  have here := holds key
  unfold loadEntry
  cases stored : held key with
  | none =>
    rw [stored] at here
    rw [here]
  | some metadata =>
    rw [stored] at here
    obtain ⟨value, written, found⟩ := here
    obtain ⟨value', written', read⟩ := codec metadata
    obtain rfl := Except.ok.inj (written.symm.trans written')
    simp only [found, read]

theorem getElem?_foldl_hits [Std.LawfulEqOrd K] [DecidableEq K] (held : K → Option V)
    (listed : List K) (hits : HashMap K V) (key : K) :
    (listed.foldl (fun hits key =>
      match held key with | some metadata => hits.insert key metadata | none => hits) hits)[key]? =
      if key ∈ listed then (held key).or hits[key]? else hits[key]? := by
  induction listed generalizing hits with
  | nil => simp
  | cons first listed inductionHypothesis =>
    rw [List.foldl_cons, inductionHypothesis]
    by_cases same : key = first
    · subst same
      cases held key <;> simp
    · cases held first <;> simp [same, HashMap.getElem?_insert]

/-- A load returns what the table holds of the requested keys. -/
theorem loadEntries_eq [Std.LawfulEqOrd K] [DecidableEq K] (codec : ReadsBack toVec fromSlice)
    (holds : Holds toVec keyOf table held) (keys : HashSet K) :
    loadEntries none table keyOf fromSlice keys = .ok (answersTo held keys) := by
  have step : loadEntry table keyOf fromSlice = fun hits key => pure
      (match held key with | some metadata => hits.insert key metadata | none => hits) :=
    funext₂ (loadEntry_eq codec holds)
  rw [loadEntries, step, List.foldlM_pure]
  refine congrArg Except.ok (HashMap.ext_getElem? (fun key => ?_))
  rw [getElem?_foldl_hits, getElem?_answersTo]
  simp

/-- What is held after the validated results of a store have been added. -/
def withValidated (results : HashMap K (Except Failure V)) (held : K → Option V) (key : K) :
    Option V :=
  (results[key]?.bind Except.toOption).or (held key)

/-- A store that succeeds in spite of a fault has met no operation that could fail. -/
theorem storeEntries_ok {fault : Option String} {results : HashMap K (Except Failure V)}
    {table' : Table} (stored : storeEntries fault table keyOf toVec results = .ok table') :
    storeEntries none table keyOf toVec results = .ok table' := by
  unfold storeEntries at stored ⊢
  split at stored
  case isTrue nothing => rwa [if_pos nothing]
  case isFalse some =>
    rw [if_neg some]
    cases fault with
    | none => exact stored
    | some message => cases stored

theorem mem_storedEntries [Std.LawfulEqOrd K] {results : HashMap K (Except Failure V)} {key : K}
    {metadata : V} :
    (key, metadata) ∈ storedEntries results ↔
      results[key]?.bind Except.toOption = some metadata := by
  simp only [storedEntries, List.mem_filterMap, HashMap.mem_toList_iff, Option.map_eq_some_iff,
    Prod.mk.injEq, Prod.exists, Option.bind_eq_some_iff]
  grind

theorem nodup_places [Std.LawfulEqOrd K] [DecidableEq K] (injective : Function.Injective keyOf)
    (results : HashMap K (Except Failure V)) :
    ((storedEntries results).map (fun entry => keyOf entry.1)).Nodup := by
  have distinct : (storedEntries results).Pairwise (fun entry other => entry.1 ≠ other.1) := by
    refine List.pairwise_filterMap.mpr (Std.ExtTreeMap.distinct_keys_toList.imp ?_)
    simp only [Option.map_eq_some_iff, Std.LawfulEqOrd.compare_eq_iff_eq]
    grind
  exact List.pairwise_map.mpr (distinct.imp (fun different same => different (injective same)))

/-- A store without a fault adds the validated results and touches no other key. -/
theorem storeEntries_eq [Std.LawfulEqOrd K] [DecidableEq K] (codec : ReadsBack toVec fromSlice)
    (injective : Function.Injective keyOf) (holds : Holds toVec keyOf table held)
    (results : HashMap K (Except Failure V)) :
    ∃ table', storeEntries none table keyOf toVec results = .ok table' ∧
      Holds toVec keyOf table' (withValidated results held) ∧
      ∀ bytes, (∀ key, keyOf key ≠ bytes) → table'[bytes]? = table[bytes]? := by
  choose encoded written read using codec
  obtain ⟨table', ran, -, places, others⟩ := @Except.foldlM_writes MetadataCacheError Table (K × V)
    Bytes Bytes (storeEntry keyOf toVec) (fun entry => keyOf entry.1)
    (fun entry => encoded entry.2) (fun table bytes => table[bytes]?) (fun _ => True)
    (storedEntries results)
    (by
      intro entry listed table _
      refine ⟨table.insert (keyOf entry.1) (encoded entry.2), ?_, trivial, ?_, ?_⟩
      · rw [storeEntry, written]
      · rw [HashMap.getElem?_insert, if_pos rfl]
      · intro bytes different
        rw [HashMap.getElem?_insert, if_neg different])
    (nodup_places injective results) table trivial
  have stored : storeEntries none table keyOf toVec results = .ok table' := by
    rw [← ran]
    unfold storeEntries
    split
    case isTrue nothing =>
      rw [List.isEmpty_iff.mp nothing]
      rfl
    case isFalse => rfl
  refine ⟨table', stored, fun key => ?_, fun bytes foreign => others bytes ?_⟩
  · unfold withValidated
    cases validated : results[key]?.bind Except.toOption with
    | some metadata =>
      exact ⟨encoded metadata, written metadata, places _ (mem_storedEntries.mpr validated)⟩
    | none =>
      have absent : keyOf key ∉ (storedEntries results).map (fun entry => keyOf entry.1) := by
        rw [List.mem_map]
        rintro ⟨⟨key', metadata⟩, listed, same⟩
        obtain rfl := injective same
        rw [mem_storedEntries, validated] at listed
        cases listed
      have same : table'[keyOf key]? = table[keyOf key]? := others _ absent
      rw [same]
      exact holds key
  · rw [List.mem_map]
    rintro ⟨entry, -, same⟩
    exact foreign entry.1 same

end Entries

/-! ### The cache as a record of validated metadata -/

/-- The metadata that a cache keeps, by pool and by token. -/
structure Held where
  pools : ChainKey → ProtocolPoolKey → Option PoolMetadata
  tokens : TokenAddress → Option TokenMetadata

namespace Held

def empty : Held := ⟨fun _ _ => none, fun _ => none⟩

def withPools (held : Held) (chain : ChainKey)
    (results : HashMap ProtocolPoolKey PoolMetadataResult) : Held where
  pools := Function.update held.pools chain (withValidated results (held.pools chain))
  tokens := held.tokens

def withTokens (held : Held) (results : HashMap TokenAddress TokenMetadataResult) : Held where
  pools := held.pools
  tokens := withValidated results held.tokens

end Held

section Represents

variable [MetadataJson]

/-- Metadata that is written is read back. -/
structure MetadataJson.RoundTrips : Prop where
  pools : ReadsBack MetadataJson.poolToVec MetadataJson.poolFromSlice
  tokens : ReadsBack MetadataJson.tokenToVec MetadataJson.tokenFromSlice

/-- A cache keeps some metadata. -/
structure Represents (cache : MetadataCache) (held : Held) : Prop where
  pools (chain : ChainKey) :
    Holds MetadataJson.poolToVec (poolKey chain) cache.pools (held.pools chain)
  tokens : Holds MetadataJson.tokenToVec
    (fun token : TokenAddress => compositeKey token.chain token.address) cache.tokens held.tokens

variable {cache : MetadataCache} {held : Held}

theorem represents_empty : Represents .empty .empty where
  pools chain candidate := by simp [MetadataCache.empty, Held.empty]
  tokens token := by simp [MetadataCache.empty, Held.empty]

theorem Represents.loadPoolMetadata (represents : Represents cache held)
    (codec : MetadataJson.RoundTrips) (chain : ChainKey) (candidates : HashSet ProtocolPoolKey) :
    cache.loadPoolMetadata none chain candidates =
      .ok (answersTo (held.pools chain) candidates) :=
  loadEntries_eq codec.pools (represents.pools chain) candidates

theorem Represents.loadTokenMetadata (represents : Represents cache held)
    (codec : MetadataJson.RoundTrips) (tokens : HashSet TokenAddress) :
    cache.loadTokenMetadata none tokens = .ok (answersTo held.tokens tokens) :=
  loadEntries_eq codec.tokens represents.tokens tokens

theorem storePoolMetadata_ok {fault : Option String} {chain : ChainKey}
    {results : HashMap ProtocolPoolKey PoolMetadataResult} {cache' : MetadataCache}
    (stored : cache.storePoolMetadata fault chain results = .ok cache') :
    cache.storePoolMetadata none chain results = .ok cache' := by
  unfold MetadataCache.storePoolMetadata at stored ⊢
  split at stored
  case h_1 pools written =>
    rw [storeEntries_ok written]
    exact stored
  case h_2 => cases stored

theorem storeTokenMetadata_ok {fault : Option String}
    {results : HashMap TokenAddress TokenMetadataResult} {cache' : MetadataCache}
    (stored : cache.storeTokenMetadata fault results = .ok cache') :
    cache.storeTokenMetadata none results = .ok cache' := by
  unfold MetadataCache.storeTokenMetadata at stored ⊢
  split at stored
  case h_1 tokens written =>
    rw [storeEntries_ok written]
    exact stored
  case h_2 => cases stored

theorem Represents.storePoolMetadata (represents : Represents cache held)
    (codec : MetadataJson.RoundTrips) (chain : ChainKey)
    (results : HashMap ProtocolPoolKey PoolMetadataResult) :
    ∃ cache', cache.storePoolMetadata none chain results = .ok cache' ∧
      Represents cache' (held.withPools chain results) := by
  obtain ⟨table, stored, holds, others⟩ := storeEntries_eq codec.pools
    (fun _ _ same => (poolKey_injective same).2) (represents.pools chain) results
  refine ⟨{ cache with pools := table }, ?_, ?_, represents.tokens⟩
  · rw [MetadataCache.storePoolMetadata, stored]
  · intro other
    by_cases same : other = chain
    · subst same
      simpa [Held.withPools] using holds
    · intro candidate
      have kept := others (poolKey other candidate)
        (fun candidate' shared => same (poolKey_injective shared).1.symm)
      simp only [Held.withPools, Function.update_of_ne same, kept]
      exact represents.pools other candidate

theorem Represents.storeTokenMetadata (represents : Represents cache held)
    (codec : MetadataJson.RoundTrips) (results : HashMap TokenAddress TokenMetadataResult) :
    ∃ cache', cache.storeTokenMetadata none results = .ok cache' ∧
      Represents cache' (held.withTokens results) := by
  have injective : Function.Injective
      (fun token : TokenAddress => compositeKey token.chain token.address) := by
    rintro ⟨address, chain⟩ ⟨address', chain'⟩ same
    obtain ⟨rfl, rfl⟩ := compositeKey_injective same
    rfl
  obtain ⟨table, stored, holds, -⟩ := storeEntries_eq codec.tokens injective represents.tokens results
  exact ⟨{ cache with tokens := table }, by rw [MetadataCache.storeTokenMetadata, stored],
    represents.pools, holds⟩

/-- The range of a chain's tag is the rows of its pools. -/
theorem Represents.loadPoolCandidates (represents : Represents cache held) (chain : ChainKey) :
    ∃ candidates, cache.loadPoolCandidates none chain = .ok candidates ∧
      ∀ candidate, candidate ∈ candidates ↔ (held.pools chain candidate).isSome := by
  refine ⟨_, rfl, fun candidate => ?_⟩
  have row (candidate : ProtocolPoolKey) :
      poolKey chain candidate ∈ cache.pools ↔ (held.pools chain candidate).isSome := by
    have here := represents.pools chain candidate
    rw [Std.ExtTreeMap.mem_iff_isSome_getElem?]
    cases stored : held.pools chain candidate with
    | none => simp [stored] at here; simp [here]
    | some metadata =>
      rw [stored] at here
      obtain ⟨value, -, found⟩ := here
      simp [found]
  rw [HashSet.mem_collect, List.mem_filterMap, ← row]
  constructor
  · rintro ⟨⟨bytes, value⟩, listed, decoded⟩
    obtain ⟨present, between⟩ := List.mem_filter.mp listed
    rw [Bool.and_eq_true, beq_iff_eq, between_iff_head? (chainTag_succ chain)] at between
    cases bytes with
    | nil => cases between
    | cons tag identity =>
      obtain rfl := Option.some.inj between
      rw [← (decodePoolCandidate_eq_some_iff chain).mp decoded, HashMap.mem_iff_exists]
      exact ⟨value, (HashMap.mem_toList_iff _ _).mp present⟩
  · intro stored
    obtain ⟨value, found⟩ := (HashMap.mem_iff_exists _ _).mp stored
    refine ⟨(poolKey chain candidate, value), List.mem_filter.mpr ⟨?_, ?_⟩,
      decodePoolCandidate_poolKey chain candidate⟩
    · exact (HashMap.mem_toList_iff _ _).mpr found
    · rw [Bool.and_eq_true, beq_iff_eq, between_iff_head? (chainTag_succ chain)]
      rfl

end Represents

end ArmchairAnalyst.Client

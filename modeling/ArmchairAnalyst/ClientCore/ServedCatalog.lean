import ArmchairAnalyst.Server.PoolsMeta
import ArmchairAnalyst.ClientCore.Catalog
import ArmchairAnalyst.MultiChain.Projection
import ArmchairAnalyst.ReserveValues

/-!
# The catalog of a served payload

What the client resolves from the server's own metadata: each verified pool whose two
tokens are listed with decimals, under the image of its fee.
-/

namespace ArmchairAnalyst.ClientCore

open Wire
open Server (servedChain wirePoolQuery poolMetaEntry tokenMetaEntry referencedTokens poolsMeta)

variable [HexText]

/-! ### Identities -/

theorem poolRefOf_wirePoolQuery (texts : HexText.RoundTrips) {pool : PoolRef} {chain : ChainKey}
    (own : pool.chain = chain) : poolRefOf (wirePoolQuery pool) chain = .ok pool := by
  obtain ⟨key, _⟩ := pool
  subst own
  cases key with
  | uniswapV3 address => simp only [wirePoolQuery, poolRefOf, parseAddress, texts.address]
  | uniswapV4 poolId => simp only [wirePoolQuery, poolRefOf, texts.hash]

theorem serverPoolRefOf_wirePoolQuery (texts : HexText.RoundTrips) {pool : PoolRef}
    (own : pool.chain = servedChain) : Server.poolRefOf (wirePoolQuery pool) = some pool := by
  obtain ⟨key, _⟩ := pool
  subst own
  cases key with
  | uniswapV3 address =>
    simp only [wirePoolQuery, Server.poolRefOf, texts.address, Option.map_some]
  | uniswapV4 poolId => simp only [wirePoolQuery, Server.poolRefOf, texts.hash, Option.map_some]

/-- Pools of one chain are told apart on the wire. -/
theorem wirePoolQuery_injective (texts : HexText.RoundTrips) {pool other : PoolRef}
    (chained : pool.chain = other.chain) (same : wirePoolQuery pool = wirePoolQuery other) :
    pool = other := by
  have first := poolRefOf_wirePoolQuery texts chained
  rw [same, poolRefOf_wirePoolQuery texts rfl] at first
  exact (Except.ok.inj first).symm

theorem addressLowerHex_injective (texts : HexText.RoundTrips) {address other : Address}
    (same : addressLowerHex address = addressLowerHex other) : address = other := by
  have first := texts.address address
  rw [same, texts.address] at first
  exact (Option.some.inj first).symm

omit [HexText] in
theorem int32_ofInt_tick (tick : I24) : (Int32.ofInt tick.value).toInt = tick.value := by
  have lower := tick.lower
  have upper := tick.upper
  exact Int32.toInt_ofInt_of_le (by omega) (by omega)

/-- A pool state that the server writes reads back. -/
theorem parsePoolState_wirePoolState (texts : HexText.RoundTrips) (state : PoolState) :
    parsePoolState (Server.wirePoolState state) = .ok state := by
  simp only [Server.wirePoolState, parsePoolState, lowerHex, strip0x_marked, texts.u160,
    texts.u128, int32_ofInt_tick, I24.tryFrom_value]

/-! ### Decimals -/

theorem withTokenEntry_served (texts : HexText.RoundTrips)
    (decimals : HashMap Address TokenDecimals) (address : Address) (value : TokenDecimals) :
    withTokenEntry decimals
        { address := addressLowerHex address, decimals := UInt8.ofNat value.value } =
      decimals.insert address value := by
  have small := value.supported
  have kept : (UInt8.ofNat value.value).toNat = value.value := by
    simp only [UInt8.toNat_ofNat']
    omega
  have read : TokenDecimals.tryFromU256 (BitVec.ofNat 256 value.value) = .ok value := by
    have fits : (BitVec.ofNat 256 value.value).toNat = value.value := by
      rw [BitVec.toNat_ofNat]
      exact Nat.mod_eq_of_lt (by omega)
    simp only [TokenDecimals.tryFromU256, fits, small, dite_true]
  simp only [withTokenEntry, texts.address, kept, read]

/-- The decimals that the catalog holds for a token. -/
def listedDecimals (catalog : MetadataCatalog) (address : Address) : Option TokenDecimals :=
  (catalog.tokenMetadata { address, chain := servedChain }).map (·.decimals)

theorem foldl_withTokenEntry_served (texts : HexText.RoundTrips) (catalog : MetadataCatalog)
    (tokens : List Address) (decimals : HashMap Address TokenDecimals) (address : Address) :
    ((tokens.filterMap (tokenMetaEntry catalog)).foldl withTokenEntry decimals)[address]? =
      if address ∈ tokens then (listedDecimals catalog address).or decimals[address]?
      else decimals[address]? := by
  induction tokens generalizing decimals with
  | nil => simp
  | cons token tokens inductionHypothesis =>
    cases found : catalog.tokenMetadata { address := token, chain := servedChain } with
    | none =>
      have skipped : tokenMetaEntry catalog token = none := by simp [tokenMetaEntry, found]
      rw [List.filterMap_cons_none skipped, inductionHypothesis]
      by_cases same : address = token
      · subst same
        simp [listedDecimals, found]
      · simp [same]
    | some metadata =>
      have entered : tokenMetaEntry catalog token = some
          { address := addressLowerHex token
            decimals := UInt8.ofNat metadata.decimals.value } := by
        simp [tokenMetaEntry, found]
      rw [List.filterMap_cons_some entered, List.foldl_cons, withTokenEntry_served texts,
        inductionHypothesis, HashMap.getElem?_insert]
      by_cases same : address = token
      · subst same
        simp [listedDecimals, found]
      · simp [same]

/-- The client reads the decimals of exactly the referenced tokens that have them. -/
theorem getElem?_tokenDecimals_served (texts : HexText.RoundTrips) (order : PoolOrder)
    (catalog : MetadataCatalog) (address : Address) :
    (tokenDecimals (poolsMeta order catalog).tokens)[address]? =
      if address ∈ referencedTokens (catalog.iterPools order) then
        listedDecimals catalog address
      else none := by
  simp only [tokenDecimals, poolsMeta]
  rw [foldl_withTokenEntry_served texts]
  simp

/-! ### Entries -/

/-- The entry of a pool under the decimals that were read. -/
def catalogEntry (decimals : HashMap Address TokenDecimals) (metadata : PoolMetadata) :
    Option PoolEntry := do
  let token0Decimals ← decimals[metadata.token0]?
  let token1Decimals ← decimals[metadata.token1]?
  return {
    token0 := { address := metadata.token0, chain := servedChain }
    token1 := { address := metadata.token1, chain := servedChain }
    fee := metadata.fee.image
    token0Decimals
    token1Decimals }

theorem withPoolEntry_served (texts : HexText.RoundTrips)
    (decimals : HashMap Address TokenDecimals) {catalog : Catalog}
    (chained : catalog.chain = servedChain) {entry : PoolRef × PoolMetadata}
    (own : entry.1.chain = servedChain) :
    ∃ excluded, catalog.withPoolEntry decimals (poolMetaEntry entry) =
      match catalogEntry decimals entry.2 with
      | some admitted =>
        { catalog with
          pools := catalog.pools.insert entry.1 admitted
          request := { pools := catalog.request.pools ++ [wirePoolQuery entry.1] } }
      | none => { catalog with excluded } := by
  have resolved : resolveEntry servedChain (poolMetaEntry entry) =
      .ok (entry.1, entry.2.token0, entry.2.token1) := by
    simp only [resolveEntry, poolMetaEntry, poolRefOf_wirePoolQuery texts own, parseAddress,
      texts.address]
  simp only [Catalog.withPoolEntry, chained, resolved, catalogEntry]
  cases decimals[entry.2.token0]? with
  | none => exact ⟨_, rfl⟩
  | some token0Decimals =>
    cases decimals[entry.2.token1]? with
    | none => exact ⟨_, rfl⟩
    | some token1Decimals => exact ⟨[], rfl⟩

/-- The fold over served entries admits those that have their decimals. -/
theorem foldl_withPoolEntry_served (texts : HexText.RoundTrips)
    (decimals : HashMap Address TokenDecimals) (verified : HashMap PoolRef PoolMetadata)
    {entries : List (PoolRef × PoolMetadata)}
    (listed : ∀ entry ∈ entries, entry.1.chain = servedChain ∧ verified[entry.1]? = some entry.2)
    (catalog : Catalog) (chained : catalog.chain = servedChain) :
    ((entries.map poolMetaEntry).foldl (Catalog.withPoolEntry decimals) catalog).request.pools =
        catalog.request.pools ++
          (entries.filter (fun entry => (catalogEntry decimals entry.2).isSome)).map
            (fun entry => wirePoolQuery entry.1) ∧
      ∀ pool, ((entries.map poolMetaEntry).foldl (Catalog.withPoolEntry decimals)
          catalog).pools[pool]? =
        if pool ∈ entries.map Prod.fst then
          (verified[pool]?.bind (catalogEntry decimals)).or catalog.pools[pool]?
        else catalog.pools[pool]? := by
  induction entries generalizing catalog with
  | nil => simp
  | cons entry entries inductionHypothesis =>
    obtain ⟨⟨own, found⟩, later⟩ := List.forall_mem_cons.mp listed
    obtain ⟨excluded, stepped⟩ := withPoolEntry_served texts decimals chained own
    rw [List.map_cons, List.foldl_cons, stepped]
    cases admitted : catalogEntry decimals entry.2 with
    | none =>
      obtain ⟨request, pools⟩ := inductionHypothesis later
        { catalog with excluded } chained
      refine ⟨by simp [request, admitted], fun pool => ?_⟩
      rw [pools pool]
      by_cases same : pool = entry.1
      · subst same
        simp [found, admitted]
      · simp only [List.map_cons, List.mem_cons, same, false_or]
    | some admittedEntry =>
      obtain ⟨request, pools⟩ := inductionHypothesis later
        { catalog with
          pools := catalog.pools.insert entry.1 admittedEntry
          request := { pools := catalog.request.pools ++ [wirePoolQuery entry.1] } } chained
      refine ⟨by simp [request, admitted], fun pool => ?_⟩
      rw [pools pool, HashMap.getElem?_insert]
      by_cases same : pool = entry.1
      · subst same
        simp [found, admitted]
      · simp only [List.map_cons, List.mem_cons, same, false_or, if_false]

/-- The pools that the client admits, in the order in which it asks for them. -/
def admittedPools (order : PoolOrder) (catalog : MetadataCatalog) : List PoolRef :=
  ((catalog.iterPools order).filter (fun entry =>
    (catalogEntry (tokenDecimals (poolsMeta order catalog).tokens) entry.2).isSome)).map Prod.fst

/-- The client's catalog holds and asks for the admitted pools. -/
theorem parse_served (texts : HexText.RoundTrips) (order : PoolOrder) {catalog : MetadataCatalog}
    (own : ∀ pool ∈ catalog.pools, pool.chain = servedChain) :
    (Catalog.parse (poolsMeta order catalog) servedChain).sliceRequest.pools =
        (admittedPools order catalog).map wirePoolQuery ∧
      ∀ pool : PoolRef, (Catalog.parse (poolsMeta order catalog) servedChain).pools[pool]? =
        catalog.pools[pool]?.bind
          (catalogEntry (tokenDecimals (poolsMeta order catalog).tokens)) := by
  have listed : ∀ entry ∈ catalog.iterPools order,
      entry.1.chain = servedChain ∧ catalog.pools[entry.1]? = some entry.2 := by
    intro entry membership
    have found := (catalog.mem_iterPools order entry).mp membership
    exact ⟨own entry.1 ((HashMap.mem_iff_exists _ _).mpr ⟨_, found⟩), found⟩
  obtain ⟨request, pools⟩ := foldl_withPoolEntry_served texts
    (tokenDecimals (poolsMeta order catalog).tokens) catalog.pools listed
    { chain := servedChain, pools := ∅, request := { pools := [] }, excluded := [] } rfl
  constructor
  · rw [Catalog.sliceRequest, Catalog.parse]
    exact request.trans (by simp [admittedPools])
  · intro pool
    rw [Catalog.parse]
    refine (pools pool).trans ?_
    cases found : catalog.pools[pool]? with
    | none => simp
    | some metadata =>
      have membership : pool ∈ (catalog.iterPools order).map Prod.fst :=
        List.mem_map.mpr ⟨(pool, metadata), (catalog.mem_iterPools order _).mpr found, rfl⟩
      simp [membership]

end ArmchairAnalyst.ClientCore

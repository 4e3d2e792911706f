import ArmchairAnalyst.ClientCore.ServedCatalog
import ArmchairAnalyst.ClientCore.Runtime

/-!
# The wire path

What the client projects from the server's two answers, next to what the kernel itself
projects. On the pools that are answered they are the same reserves.
-/

namespace ArmchairAnalyst.ClientCore

open Wire
open Server (servedChain wirePoolQuery poolMetaEntry tokenMetaEntry referencedTokens poolsMeta
  slicesOf)
open MultiChain (ProjectionMetadata projectionMetadata projectedValues reserveOf projectReserves)

section

variable [HexText]

/-! ### The two requests -/

section

variable [DataPlaneCodec]

/-- The body of a successful answer. -/
def successBody (response : Server.HttpResponse) : Option String :=
  if response.status = 200 then some response.body else none

def getPoolsMeta (order : PoolOrder) (snapshot : Server.ServerSnapshot) :
    Option PoolsMetaResponse :=
  (successBody (Server.poolsMetaResponse order snapshot)).bind DataPlaneCodec.metaFromStr

def postSlice (request : SliceRequest) (snapshot : Server.ServerSnapshot) :
    Option SliceResponse :=
  (DataPlaneCodec.requestToString request).bind (fun body =>
    (successBody (Server.sliceResponse body snapshot)).bind DataPlaneCodec.responseFromStr)

/-- Three messages survive their JSON forms. -/
structure JsonRoundTrips (served : PoolsMetaResponse) (request : SliceRequest)
    (slice : SliceResponse) : Prop where
  served : ∃ body, DataPlaneCodec.metaToString served = some body ∧
    DataPlaneCodec.metaFromStr body = some served
  request : ∃ body, DataPlaneCodec.requestToString request = some body ∧
    SliceCodec.requestFromStr body = some request
  slice : ∃ body, SliceCodec.responseToString slice = some body ∧
    DataPlaneCodec.responseFromStr body = some slice

end

/-- The slice that a kernel state answers a request with. -/
def servedSlice [BloomHash] (kernelState : Kernel.State) (request : SliceRequest) :
    SliceResponse :=
  let (pools, frontier) := kernelState.projectedPoolStates servedChain
  { blockHash := hashLowerHex frontier
    confirmations := UInt64.ofNat ((kernelState.blocks.graph.distanceFromHead frontier).getD 0)
    pools := slicesOf pools request.pools }

/-! ### The pools that are answered -/

/-- A pool is answered with a state. -/
def answeredComplete (slice : SliceResponse) (pool : PoolRef) : Bool :=
  slice.pools.any (fun answer => answer.key = wirePoolQuery pool && answer.state ≠ .incomplete)

/-- Both tokens of a pool have decimals in the payload. -/
def pricedIn (served : PoolsMetaResponse) (kernelState : Kernel.State) (pool : PoolRef) : Bool :=
  match kernelState.poolRegistry.verifiedMetadata pool with
  | some metadata => [metadata.token0, metadata.token1].all (fun token =>
      served.tokens.any (fun entry => entry.address = addressLowerHex token))
  | none => false

/-- The kernel's own states of the answered pools, in the order of the pools. -/
def answeredStates [BloomHash] (served : PoolsMetaResponse) (slice : SliceResponse)
    (kernelState : Kernel.State) : List (PoolRef × PoolState) :=
  (kernelState.projectedPoolStates servedChain).1.toList.filter (fun entry =>
    answeredComplete slice entry.1 && pricedIn served kernelState entry.1)

/-! ### Admitted pools -/

omit [HexText] in
theorem listedDecimals_verified {kernelState : Kernel.State}
    (housed : Kernel.Housed servedChain kernelState) {address : Address}
    {decimals : TokenDecimals}
    (listed : listedDecimals kernelState.metadataCatalog address = some decimals) :
    kernelState.tokenRegistry.verifiedMetadata { address, chain := servedChain } =
      some ⟨decimals⟩ := by
  obtain ⟨metadata, found, rfl⟩ := Option.map_eq_some_iff.mp listed
  have stored : (⟨address, servedChain⟩ : TokenAddress) ∈ kernelState.tokenRegistry.verified :=
    (HashMap.mem_iff_exists _ _).mpr ⟨metadata, found⟩
  have foreign : address ≠ 0 := housed.registries.tokens _ stored
  rw [TokenRegistry.verifiedMetadata, if_neg foreign]
  exact found

/-- The entry of a pool with the kernel's own metadata. -/
def PoolEntry.ofMetadata (metadata : ProjectionMetadata) : PoolEntry where
  token0 := metadata.token0
  token1 := metadata.token1
  fee := metadata.fee.image
  token0Decimals := metadata.token0Decimals
  token1Decimals := metadata.token1Decimals

variable {kernelState : Kernel.State} {order : PoolOrder}

/-- The tokens of a verified pool are referenced, so their decimals are all that decides. -/
theorem tokenDecimals_served (texts : HexText.RoundTrips) {pool : PoolRef}
    {metadata : PoolMetadata} (verified : kernelState.poolRegistry.verified[pool]? = some metadata)
    {token : Address} (own : token = metadata.token0 ∨ token = metadata.token1) :
    (tokenDecimals (poolsMeta order kernelState.metadataCatalog).tokens)[token]? =
      listedDecimals kernelState.metadataCatalog token := by
  rw [getElem?_tokenDecimals_served texts, if_pos]
  exact (Server.mem_referencedTokens _ token).mpr
    ⟨(pool, metadata), (MetadataCatalog.mem_iterPools _ order _).mpr verified, own⟩

theorem catalogEntry_admitted (texts : HexText.RoundTrips)
    (housed : Kernel.Housed servedChain kernelState) {pool : PoolRef} {metadata : PoolMetadata}
    (verified : kernelState.poolRegistry.verified[pool]? = some metadata) {entry : PoolEntry}
    (admitted : catalogEntry
      (tokenDecimals (poolsMeta order kernelState.metadataCatalog).tokens) metadata = some entry) :
    ∃ projected, projectionMetadata kernelState servedChain pool = some projected ∧
      entry = .ofMetadata projected := by
  simp only [catalogEntry, tokenDecimals_served texts verified (.inl rfl),
    tokenDecimals_served texts verified (.inr rfl)] at admitted
  cases first : listedDecimals kernelState.metadataCatalog metadata.token0 with
  | none =>
    rw [first] at admitted
    cases admitted
  | some token0Decimals =>
    cases second : listedDecimals kernelState.metadataCatalog metadata.token1 with
    | none =>
      rw [first, second] at admitted
      cases admitted
    | some token1Decimals =>
      rw [first, second] at admitted
      refine ⟨⟨⟨metadata.token0, servedChain⟩, ⟨metadata.token1, servedChain⟩, metadata.fee,
        token0Decimals, token1Decimals⟩, ?_, (Option.some.inj admitted).symm⟩
      have found : kernelState.poolRegistry.verifiedMetadata pool = some metadata := verified
      simp only [projectionMetadata, found, listedDecimals_verified housed first,
        listedDecimals_verified housed second, bind, Option.bind, pure]

/-- The payload lists a token exactly when the catalog has its decimals. -/
theorem payload_lists_iff (texts : HexText.RoundTrips) {pool : PoolRef} {metadata : PoolMetadata}
    (verified : kernelState.poolRegistry.verified[pool]? = some metadata) {token : Address}
    (own : token = metadata.token0 ∨ token = metadata.token1) :
    (poolsMeta order kernelState.metadataCatalog).tokens.any
        (fun entry => entry.address = addressLowerHex token) = true ↔
      (listedDecimals kernelState.metadataCatalog token).isSome := by
  have referenced : token ∈ referencedTokens (kernelState.metadataCatalog.iterPools order) :=
    (Server.mem_referencedTokens _ token).mpr
      ⟨(pool, metadata), (MetadataCatalog.mem_iterPools _ order _).mpr verified, own⟩
  simp only [poolsMeta, List.any_eq_true, List.mem_filterMap, decide_eq_true_eq,
    Std.ExtTreeSet.mem_toList, tokenMetaEntry, listedDecimals, Option.isSome_map]
  constructor
  · rintro ⟨entry, ⟨address, -, listed⟩, same⟩
    obtain ⟨metadata, found, rfl⟩ := Option.map_eq_some_iff.mp listed
    obtain rfl := addressLowerHex_injective texts same
    rw [found]
    rfl
  · intro present
    obtain ⟨metadata, found⟩ := Option.isSome_iff_exists.mp present
    exact ⟨_, ⟨token, referenced, by rw [found]; rfl⟩, rfl⟩

theorem pricedIn_iff (texts : HexText.RoundTrips) {pool : PoolRef} {metadata : PoolMetadata}
    (verified : kernelState.poolRegistry.verified[pool]? = some metadata) :
    pricedIn (poolsMeta order kernelState.metadataCatalog) kernelState pool = true ↔
      (catalogEntry (tokenDecimals (poolsMeta order kernelState.metadataCatalog).tokens)
        metadata).isSome := by
  have found : kernelState.poolRegistry.verifiedMetadata pool = some metadata := verified
  simp only [pricedIn, found, List.all_cons, List.all_nil, Bool.and_true, Bool.and_eq_true,
    payload_lists_iff texts verified (.inl rfl), payload_lists_iff texts verified (.inr rfl),
    catalogEntry, tokenDecimals_served texts verified (.inl rfl),
    tokenDecimals_served texts verified (.inr rfl)]
  cases listedDecimals kernelState.metadataCatalog metadata.token0 with
  | none => simp
  | some token0Decimals =>
    cases listedDecimals kernelState.metadataCatalog metadata.token1 with
    | none => simp
    | some token1Decimals => simp

/-- A pool is admitted when it is verified and both of its tokens have decimals. -/
theorem mem_admittedPools (texts : HexText.RoundTrips) (pool : PoolRef) :
    pool ∈ admittedPools order kernelState.metadataCatalog ↔
      pricedIn (poolsMeta order kernelState.metadataCatalog) kernelState pool = true := by
  simp only [admittedPools, List.mem_map, List.mem_filter, MetadataCatalog.mem_iterPools]
  constructor
  · rintro ⟨⟨_, metadata⟩, ⟨verified, admitted⟩, rfl⟩
    exact (pricedIn_iff texts verified).mpr admitted
  · intro priced
    cases verified : kernelState.poolRegistry.verified[pool]? with
    | none =>
      have missing : kernelState.poolRegistry.verifiedMetadata pool = none := verified
      simp [pricedIn, missing] at priced
    | some metadata =>
      exact ⟨(pool, metadata), ⟨verified, (pricedIn_iff texts verified).mp priced⟩, rfl⟩

theorem admittedPools_nodup (order : PoolOrder) (catalog : MetadataCatalog) :
    (admittedPools order catalog).Nodup := by
  have keys : (catalog.iterPools order).map Prod.fst |>.Nodup := by
    rw [MetadataCatalog.iterPools, ((order.perm _).map Prod.fst).nodup_iff,
      Std.ExtTreeMap.map_fst_toList_eq_keys]
    exact HashMap.keys_nodup catalog.pools
  exact keys.sublist (List.filter_sublist.map Prod.fst)

/-! ### Projecting the answers -/

section

variable [FloatConversion]

/-- The reserves of a pool state under the kernel's own metadata. -/
def reserveFor (kernelState : Kernel.State) (entry : PoolRef × PoolState) : Option Reserves :=
  (projectionMetadata kernelState servedChain entry.1).bind (fun metadata =>
    (projectedValues entry.1 entry.2 metadata).toOption.map (reserveOf entry.1 metadata))

/-- A pool has its metadata, and its state cannot be converted. -/
def FailsToProject (kernelState : Kernel.State) (entry : PoolRef × PoolState)
    (error : PoolReserveProjectionError) : Prop :=
  ∃ metadata, projectionMetadata kernelState servedChain entry.1 = some metadata ∧
    projectedValues entry.1 entry.2 metadata = .error error

omit [HexText] in
theorem reserveFor_poolId {entry : PoolRef × PoolState} {reserve : Reserves}
    (projected : reserveFor kernelState entry = some reserve) : reserve.poolId = entry.1 := by
  obtain ⟨metadata, -, values⟩ := Option.bind_eq_some_iff.mp projected
  obtain ⟨value, -, rfl⟩ := Option.map_eq_some_iff.mp values
  rfl

/-- The pools of a slice that some states complete. -/
def completed (states : HashMap PoolRef PoolState) (pools : List PoolRef) :
    List (PoolRef × PoolState) :=
  pools.filterMap (fun pool => states[pool]?.map (pool, ·))

omit [HexText] [FloatConversion] in
theorem mem_completed (states : HashMap PoolRef PoolState) (pools : List PoolRef)
    (entry : PoolRef × PoolState) :
    entry ∈ completed states pools ↔ entry.1 ∈ pools ∧ states[entry.1]? = some entry.2 := by
  obtain ⟨pool, state⟩ := entry
  simp only [completed, List.mem_filterMap, Option.map_eq_some_iff, Prod.mk.injEq]
  constructor
  · rintro ⟨_, listed, _, found, rfl, rfl⟩
    exact ⟨listed, found⟩
  · rintro ⟨listed, found⟩
    exact ⟨pool, listed, state, found, rfl, rfl⟩

/-- One completed pool after the others of a slice. -/
theorem projectSlices_cons (texts : HexText.RoundTrips) {catalog : Catalog}
    (chained : catalog.chain = servedChain) {pool : PoolRef} (own : pool.chain = servedChain)
    {metadata : ProjectionMetadata} (held : catalog.pools[pool]? = some (.ofMetadata metadata))
    (state : PoolState) (slices : List PoolSlice) :
    catalog.projectSlices
        ({ key := wirePoolQuery pool, state := Server.completenessOf (some state) } :: slices) =
      match projectedValues pool state metadata with
      | .error error => .error (.projection error)
      | .ok value =>
        match catalog.projectSlices slices with
        | .error error => .error error
        | .ok projected => .ok (reserveOf pool metadata value :: projected) := by
  have imaged : ReserveProjection.poolReserveValues pool state metadata.fee.image metadata.token0
      metadata.token1 metadata.token0Decimals metadata.token1Decimals =
      projectedValues pool state metadata := rfl
  simp only [Catalog.projectSlices, Server.completenessOf, chained,
    poolRefOf_wirePoolQuery texts own, held, parsePoolState_wirePoolState texts,
    PoolEntry.ofMetadata, imaged]
  cases projectedValues pool state metadata with
  | error error => rfl
  | ok value => cases catalog.projectSlices slices <;> rfl

/-- A served slice is projected pool by pool, up to the first one that fails. -/
theorem projectSlices_served (texts : HexText.RoundTrips) {catalog : Catalog}
    (chained : catalog.chain = servedChain) (states : HashMap PoolRef PoolState)
    {pools : List PoolRef}
    (held : ∀ pool ∈ pools, pool.chain = servedChain ∧ ∃ metadata,
      projectionMetadata kernelState servedChain pool = some metadata ∧
        catalog.pools[pool]? = some (.ofMetadata metadata)) :
    ((∀ entry ∈ completed states pools, (reserveFor kernelState entry).isSome) ∧
        catalog.projectSlices (slicesOf states (pools.map wirePoolQuery)) =
          .ok ((completed states pools).filterMap (reserveFor kernelState))) ∨
      ∃ entry ∈ completed states pools, ∃ error, FailsToProject kernelState entry error ∧
        catalog.projectSlices (slicesOf states (pools.map wirePoolQuery)) =
          .error (.projection error) := by
  induction pools with
  | nil => exact .inl ⟨by rintro _ ⟨⟩, rfl⟩
  | cons pool pools inductionHypothesis =>
    obtain ⟨⟨own, metadata, found, admitted⟩, later⟩ := List.forall_mem_cons.mp held
    have sliced : slicesOf states ((pool :: pools).map wirePoolQuery) =
        { key := wirePoolQuery pool, state := Server.completenessOf states[pool]? } ::
          slicesOf states (pools.map wirePoolQuery) := by
      simp only [slicesOf, List.map_cons, serverPoolRefOf_wirePoolQuery texts own,
        Option.bind_some]
    rw [sliced]
    cases answer : states[pool]? with
    | none =>
      have skipped : completed states (pool :: pools) = completed states pools := by
        simp [completed, answer]
      rw [skipped]
      exact inductionHypothesis later
    | some state =>
      have first : completed states (pool :: pools) = (pool, state) :: completed states pools := by
        simp [completed, answer]
      rw [first, projectSlices_cons texts chained own admitted]
      cases values : projectedValues pool state metadata with
      | error error =>
        exact .inr ⟨_, List.mem_cons_self, error, ⟨metadata, found, values⟩, rfl⟩
      | ok value =>
        have converted : reserveFor kernelState (pool, state) =
            some (reserveOf pool metadata value) := by
          simp only [reserveFor, found, values, Except.toOption, Option.bind_some, Option.map_some]
        rcases inductionHypothesis later with ⟨all, projected⟩ | ⟨entry, listed, error, fails, failed⟩
        · refine .inl ⟨List.forall_mem_cons.mpr ⟨by rw [converted]; rfl, all⟩, ?_⟩
          rw [projected, List.filterMap_cons_some converted]
        · exact .inr ⟨entry, List.mem_cons_of_mem _ listed, error, fails, by rw [failed]⟩

omit [HexText] in
/-- The kernel's projection of states that all convert. -/
theorem projectReserves_converted {entries : List (PoolRef × PoolState)}
    (all : ∀ entry ∈ entries, (reserveFor kernelState entry).isSome) :
    projectReserves kernelState servedChain entries =
      .ok (some (Catalog.directions (entries.filterMap (reserveFor kernelState)))) := by
  induction entries with
  | nil => rfl
  | cons entry entries inductionHypothesis =>
    obtain ⟨first, later⟩ := List.forall_mem_cons.mp all
    obtain ⟨reserve, converted⟩ := Option.isSome_iff_exists.mp first
    obtain ⟨metadata, found, values⟩ := Option.bind_eq_some_iff.mp converted
    obtain ⟨value, projected, rfl⟩ := Option.map_eq_some_iff.mp values
    have converts : projectedValues entry.1 entry.2 metadata = .ok value := by
      cases result : projectedValues entry.1 entry.2 metadata with
      | error error =>
        rw [result] at projected
        cases projected
      | ok value' =>
        rw [result] at projected
        cases projected
        rfl
    rw [MultiChain.projectReserves_cons found, converts, inductionHypothesis later,
      List.filterMap_cons_some converted]
    rfl

/-! ### Order -/

omit [HexText] in
/-- Sorting by pool puts reserves into the order of the pools. -/
theorem sortByPool_filterMap {entries sorted : List (PoolRef × PoolState)}
    (perm : entries.Perm sorted)
    (ordered : sorted.Pairwise (fun first second => compare first.1 second.1 = .lt)) :
    Catalog.sortByPool (entries.filterMap (reserveFor kernelState)) =
      sorted.filterMap (reserveFor kernelState) := by
  have strict : (sorted.filterMap (reserveFor kernelState)).Pairwise
      (fun first second => compare first.poolId second.poolId = .lt) := by
    refine List.Pairwise.filterMap _ (fun first second before reserve projected other projected' => ?_)
      ordered
    rw [reserveFor_poolId projected, reserveFor_poolId projected']
    exact before
  exact insertionSort_of_perm (·.poolId) (perm.filterMap (reserveFor kernelState)) strict

omit [HexText] [FloatConversion] in
theorem completed_nodup (states : HashMap PoolRef PoolState) {pools : List PoolRef}
    (distinct : pools.Nodup) : (completed states pools).Nodup := by
  refine distinct.filterMap (fun pool other entry found found' => ?_)
  obtain ⟨_, -, rfl⟩ := Option.map_eq_some_iff.mp found
  obtain ⟨_, -, same⟩ := Option.map_eq_some_iff.mp found'
  exact (congrArg Prod.fst same).symm

end

/-! ### Both paths -/

variable [BloomHash]

/-- The request that the client makes of a published state's metadata. -/
def ownRequest (order : PoolOrder) (kernelState : Kernel.State) : SliceRequest :=
  (Catalog.parse (poolsMeta order kernelState.metadataCatalog) servedChain).sliceRequest

omit [BloomHash] in
theorem ownRequest_pools (texts : HexText.RoundTrips)
    (housed : Kernel.Housed servedChain kernelState) :
    (ownRequest order kernelState).pools =
      (admittedPools order kernelState.metadataCatalog).map wirePoolQuery :=
  (parse_served texts order housed.registries.pools).1

omit [BloomHash] in
theorem admittedPools_own (housed : Kernel.Housed servedChain kernelState) {pool : PoolRef}
    (admitted : pool ∈ admittedPools order kernelState.metadataCatalog) :
    pool.chain = servedChain := by
  obtain ⟨entry, kept, rfl⟩ := List.mem_map.mp admitted
  have found := (MetadataCatalog.mem_iterPools _ order entry).mp (List.mem_filter.mp kept).1
  exact housed.registries.pools _ ((HashMap.mem_iff_exists _ _).mpr ⟨_, found⟩)

omit [BloomHash] in
/-- The client holds an admitted pool under the kernel's own metadata. -/
theorem admittedPools_held (texts : HexText.RoundTrips)
    (housed : Kernel.Housed servedChain kernelState) {pool : PoolRef}
    (admitted : pool ∈ admittedPools order kernelState.metadataCatalog) :
    pool.chain = servedChain ∧ ∃ metadata,
      projectionMetadata kernelState servedChain pool = some metadata ∧
        (Catalog.parse (poolsMeta order kernelState.metadataCatalog) servedChain).pools[pool]? =
          some (.ofMetadata metadata) := by
  refine ⟨admittedPools_own housed admitted, ?_⟩
  obtain ⟨⟨_, metadata⟩, kept, rfl⟩ := List.mem_map.mp admitted
  obtain ⟨listed, priced⟩ := List.mem_filter.mp kept
  have verified := (MetadataCatalog.mem_iterPools _ order _).mp listed
  obtain ⟨entry, entered⟩ := Option.isSome_iff_exists.mp priced
  obtain ⟨projected, found, same⟩ := catalogEntry_admitted texts housed verified entered
  refine ⟨projected, found, ?_⟩
  rw [(parse_served texts order housed.registries.pools).2, verified, Option.bind_some, entered,
    same]

/-- An admitted pool is answered with a state exactly when the overlay holds one. -/
theorem answeredComplete_iff (texts : HexText.RoundTrips)
    (housed : Kernel.Housed servedChain kernelState) {pool : PoolRef}
    (admitted : pool ∈ admittedPools order kernelState.metadataCatalog) :
    answeredComplete (servedSlice kernelState (ownRequest order kernelState)) pool = true ↔
      pool ∈ (kernelState.projectedPoolStates servedChain).1 := by
  have chained : ∀ other ∈ admittedPools order kernelState.metadataCatalog,
      other.chain = servedChain := fun other listed => admittedPools_own housed listed
  simp only [answeredComplete, servedSlice, slicesOf, ownRequest_pools texts housed, List.map_map,
    List.any_map, List.any_eq_true, Function.comp_apply, Bool.and_eq_true, decide_eq_true_eq]
  constructor
  · rintro ⟨other, listed, same, complete⟩
    obtain rfl := wirePoolQuery_injective texts
      ((chained other listed).trans (chained pool admitted).symm) same
    rw [serverPoolRefOf_wirePoolQuery texts (chained other listed), Option.bind_some] at complete
    rw [HashMap.mem_iff_exists]
    cases found : (kernelState.projectedPoolStates servedChain).1[other]? with
    | none =>
      rw [found] at complete
      exact absurd rfl complete
    | some state => exact ⟨state, rfl⟩
  · intro present
    obtain ⟨state, found⟩ := (HashMap.mem_iff_exists _ _).mp present
    refine ⟨pool, admitted, rfl, ?_⟩
    rw [serverPoolRefOf_wirePoolQuery texts (chained pool admitted), Option.bind_some, found]
    rintro ⟨⟩

omit [HexText] in
theorem answeredStates_ordered (served : PoolsMetaResponse) (slice : SliceResponse) :
    (answeredStates served slice kernelState).Pairwise
      (fun first second => compare first.1 second.1 = .lt) :=
  Std.ExtTreeMap.ordered_keys_toList.sublist List.filter_sublist

/-- What is answered, in the order of the request and in the order of the pools. -/
theorem completed_perm_answered (texts : HexText.RoundTrips)
    (housed : Kernel.Housed servedChain kernelState) :
    (completed (kernelState.projectedPoolStates servedChain).1
        (admittedPools order kernelState.metadataCatalog)).Perm
      (answeredStates (poolsMeta order kernelState.metadataCatalog)
        (servedSlice kernelState (ownRequest order kernelState)) kernelState) := by
  have distinct : (answeredStates (poolsMeta order kernelState.metadataCatalog)
      (servedSlice kernelState (ownRequest order kernelState)) kernelState).Nodup := by
    have keys : ((kernelState.projectedPoolStates servedChain).1.toList.map Prod.fst).Nodup := by
      rw [Std.ExtTreeMap.map_fst_toList_eq_keys]
      exact HashMap.keys_nodup _
    exact keys.of_map.filter _
  rw [List.perm_ext_iff_of_nodup (completed_nodup _ (admittedPools_nodup order _)) distinct]
  intro entry
  rw [mem_completed, answeredStates, List.mem_filter, HashMap.mem_toList_iff, Bool.and_eq_true,
    ← mem_admittedPools texts]
  constructor
  · rintro ⟨admitted, found⟩
    exact ⟨found, (answeredComplete_iff texts housed admitted).mpr
      ((HashMap.mem_iff_exists _ _).mpr ⟨_, found⟩), admitted⟩
  · rintro ⟨found, -, admitted⟩
    exact ⟨admitted, found⟩

variable [DataPlaneCodec]

omit [HexText] in
theorem getPoolsMeta_published
    (json : ∃ body, DataPlaneCodec.metaToString (poolsMeta order kernelState.metadataCatalog) =
        some body ∧
      DataPlaneCodec.metaFromStr body = some (poolsMeta order kernelState.metadataCatalog)) :
    getPoolsMeta order (Server.serverSnapshot (.running kernelState)) =
      some (poolsMeta order kernelState.metadataCatalog) := by
  obtain ⟨body, written, read⟩ := json
  simp only [getPoolsMeta, Server.serverSnapshot, Server.poolsMetaResponse, written, successBody,
    if_true, Option.bind_some, read]

theorem postSlice_published (texts : HexText.RoundTrips)
    (housed : Kernel.Housed servedChain kernelState)
    (json : JsonRoundTrips (poolsMeta order kernelState.metadataCatalog)
      (ownRequest order kernelState) (servedSlice kernelState (ownRequest order kernelState))) :
    postSlice (ownRequest order kernelState) (Server.serverSnapshot (.running kernelState)) =
      some (servedSlice kernelState (ownRequest order kernelState)) := by
  obtain ⟨body, written, read⟩ := json.request
  obtain ⟨answer, sent, received⟩ := json.slice
  have resolved : ∀ query ∈ (ownRequest order kernelState).pools,
      (Server.poolRefOf query).isSome := by
    intro query asked
    rw [ownRequest_pools texts housed] at asked
    obtain ⟨pool, admitted, rfl⟩ := List.mem_map.mp asked
    rw [serverPoolRefOf_wirePoolQuery texts (admittedPools_own housed admitted)]
    rfl
  have answered := Server.poolSlices_eq (kernelState.projectedPoolStates servedChain).1 resolved
  have replied : Server.sliceReply (kernelState.projectedPoolStates servedChain).2
      (kernelState.blocks.graph.distanceFromHead
        (kernelState.projectedPoolStates servedChain).2)
      (slicesOf (kernelState.projectedPoolStates servedChain).1
        (ownRequest order kernelState).pools) = ⟨200, answer⟩ := by
    unfold Server.sliceReply
    dsimp only
    rw [servedSlice] at sent
    rw [sent]
  simp only [postSlice, written, Option.bind_some, Server.sliceResponse, Server.serverSnapshot,
    read, answered, replied, successBody, if_true, received]

omit [DataPlaneCodec] in
/-- The client projects the answered pools in their order, or reports one that fails. -/
theorem project_published [FloatConversion] (order : PoolOrder) (texts : HexText.RoundTrips)
    (housed : Kernel.Housed servedChain kernelState) :
    let served := poolsMeta order kernelState.metadataCatalog
    let slice := servedSlice kernelState (ownRequest order kernelState)
    let answered := answeredStates served slice kernelState
    ((∀ entry ∈ answered, (reserveFor kernelState entry).isSome) ∧
        (Catalog.parse served servedChain).project slice =
          .ok (Catalog.directions (answered.filterMap (reserveFor kernelState)))) ∨
      ∃ entry ∈ answered, ∃ error, FailsToProject kernelState entry error ∧
        (Catalog.parse served servedChain).project slice = .error (.projection error) := by
  intro served slice answered
  have perm : (completed (kernelState.projectedPoolStates servedChain).1
      (admittedPools order kernelState.metadataCatalog)).Perm answered :=
    completed_perm_answered texts housed
  have sliced : slice.pools = slicesOf (kernelState.projectedPoolStates servedChain).1
      ((admittedPools order kernelState.metadataCatalog).map wirePoolQuery) := by
    rw [← ownRequest_pools texts housed]
    rfl
  rcases projectSlices_served texts (Catalog.parse_chain served servedChain)
    (kernelState.projectedPoolStates servedChain).1
    (fun _ admitted => admittedPools_held texts housed admitted) with
    ⟨all, projected⟩ | ⟨entry, listed, error, fails, failed⟩
  · refine .inl ⟨fun entry listed => all entry (perm.mem_iff.mpr listed), ?_⟩
    rw [Catalog.project, sliced, projected]
    dsimp only
    rw [sortByPool_filterMap perm (answeredStates_ordered served slice)]
  · refine .inr ⟨entry, perm.mem_iff.mp listed, error, fails, ?_⟩
    rw [Catalog.project, sliced, failed]

/-- The client's projection of the server's answers is the kernel's own projection of the
answered pools, and fails only where a value of one of them cannot be converted. -/
theorem wirePath_eq_domainPath [FloatConversion]
    (published : Server.Published (.running kernelState)) (order : PoolOrder)
    (texts : HexText.RoundTrips)
    (json : JsonRoundTrips (poolsMeta order kernelState.metadataCatalog)
      (ownRequest order kernelState) (servedSlice kernelState (ownRequest order kernelState))) :
    ∃ served slice,
      getPoolsMeta order (Server.serverSnapshot (.running kernelState)) = some served ∧
      postSlice (Catalog.parse served servedChain).sliceRequest
        (Server.serverSnapshot (.running kernelState)) = some slice ∧
      (∀ reserves, (Catalog.parse served servedChain).project slice = .ok reserves ↔
        projectReserves kernelState servedChain (answeredStates served slice kernelState) =
          .ok (some reserves)) ∧
      (∀ failure, (Catalog.parse served servedChain).project slice = .error failure →
        ∃ entry ∈ answeredStates served slice kernelState, ∃ error,
          FailsToProject kernelState entry error ∧ failure = .projection error) ∧
      (answeredStates served slice kernelState).Pairwise
        (fun first second => compare first.1 second.1 = .lt) := by
  have housed := published.housed
  refine ⟨_, _, getPoolsMeta_published json.served, postSlice_published texts housed json, ?_, ?_,
    answeredStates_ordered _ _⟩
  · intro reserves
    rcases project_published order texts housed with
      ⟨all, projected⟩ | ⟨entry, listed, error, fails, failed⟩
    · rw [projected, projectReserves_converted all]
      simp
    · rw [failed]
      refine ⟨by rintro ⟨⟩, fun same => ?_⟩
      obtain ⟨metadata, value, found, values⟩ :=
        (MultiChain.projectReserves_ready_iff kernelState servedChain _).mp ⟨reserves, same⟩ entry
          listed
      obtain ⟨metadata', found', values'⟩ := fails
      obtain rfl := Option.some.inj (found.symm.trans found')
      rw [values] at values'
      cases values'
  · intro failure failing
    rcases project_published order texts housed with
      ⟨-, projected⟩ | ⟨entry, listed, error, fails, failed⟩
    · rw [projected] at failing
      cases failing
    · rw [failed] at failing
      cases failing
      exact ⟨entry, listed, error, fails, rfl⟩

end

/-! ### One pool over the wire -/

def sampleMetaText : String :=
  "\x7b\"pools\":[\x7b\"protocol\":\"uniswap_v3\",\"address\":\"" ++ addressLowerHex samplePool ++
    "\",\"token0\":\"" ++ addressLowerHex usdcAddress ++ "\",\"token1\":\"" ++
    addressLowerHex wethAddress ++ "\",\"fee_pips\":500,\"tick_spacing\":10\x7d],\"tokens\":[" ++
    "\x7b\"address\":\"" ++ addressLowerHex usdcAddress ++ "\",\"decimals\":6\x7d," ++
    "\x7b\"address\":\"" ++ addressLowerHex wethAddress ++ "\",\"decimals\":18\x7d]\x7d"

def cachedSeed : Server.RegistrySeed :=
  Server.loadRegistrySeed
    ((∅ : HashMap ProtocolPoolKey PoolMetadata).insert (.uniswapV3 samplePool)
      { token0 := usdcAddress, token1 := wethAddress, fee := .tiered .fee500 })
    (((∅ : HashMap TokenAddress TokenMetadata).insert ⟨usdcAddress, servedChain⟩
      ⟨⟨6, by decide⟩⟩).insert ⟨wethAddress, servedChain⟩ nativeTokenMetadata)

/-- The messages of the sample as JSON. -/
@[reducible] def sampleCodec : DataPlaneCodec where
  toSliceCodec := Server.SliceCodec.tabulated
  requestToString request :=
    if request = ⟨[Server.sampleQuery]⟩ then some Server.sampleBody else none
  responseFromStr body :=
    if Server.SliceCodec.tabulated.responseToString sampleSlice = some body then some sampleSlice
    else none
  metaToString served := if served = sampleMeta then some sampleMetaText else none
  metaFromStr body := if body = sampleMetaText then some sampleMeta else none

/-- A server with the cached metadata of a pool sees a swap above its anchor. -/
def publishedSample : Kernel.State :=
  letI : BloomHash := BloomHash.tabulated
  (run (Kernel.transition servedChain)
    (Kernel.State.activateFromSeed 0x10 100 ∅ cachedSeed.poolRegistry cachedSeed.tokenRegistry []).1
    [.headObserved 0x11 0x10 (.ofBits [565, 531, 172]) 101,
     .logObserved 0x11 [{ pool := .uniswapV3 samplePool, logIndex := 0
                          event := .swap (2 ^ 96) sampleState.tick (10 ^ 18) }]]).1

theorem publishedSample_published :
    letI : BloomHash := BloomHash.tabulated
    Server.Published (.running publishedSample) := by
  let _ : BloomHash := BloomHash.tabulated
  have seeded : Server.Published (.awaitingAnchor cachedSeed) := by
    refine Server.Published.next (.init rfl : Server.Published Server.serverInit.1)
      (.registrySeed cachedSeed) ⟨_, _, ?_, rfl⟩
    intro token listed
    simp only [Std.ExtTreeMap.mem_insert, Std.LawfulEqOrd.compare_eq_iff_eq,
      Std.ExtTreeMap.not_mem_empty, or_false] at listed
    rcases listed with rfl | rfl <;> decide
  exact (seeded.next (.finalizedHeader (some ⟨0x10, 100⟩)) trivial).kernelRun _

theorem publishedSample_meta : poolsMeta .ascending publishedSample.metadataCatalog = sampleMeta := by
  decide +kernel

theorem publishedSample_request :
    letI : HexText := .decoded
    ownRequest .ascending publishedSample = ⟨[Server.sampleQuery]⟩ := by
  decide +kernel

theorem publishedSample_slice :
    letI : HexText := .decoded
    letI : BloomHash := BloomHash.tabulated
    servedSlice publishedSample ⟨[Server.sampleQuery]⟩ = sampleSlice := by
  decide +kernel

theorem publishedSample_json :
    letI : HexText := .decoded
    letI : BloomHash := BloomHash.tabulated
    letI : DataPlaneCodec := sampleCodec
    JsonRoundTrips (poolsMeta .ascending publishedSample.metadataCatalog)
      (ownRequest .ascending publishedSample)
      (servedSlice publishedSample (ownRequest .ascending publishedSample)) := by
  rw [publishedSample_meta, publishedSample_request, publishedSample_slice]
  obtain ⟨body, written⟩ : ∃ body,
    Server.SliceCodec.tabulated.responseToString sampleSlice = some body := ⟨_, rfl⟩
  exact @JsonRoundTrips.mk sampleCodec _ _ _ ⟨_, if_pos rfl, if_pos rfl⟩
    ⟨_, if_pos rfl, if_pos rfl⟩ ⟨body, written, if_pos written⟩

/-- The pool of the sample arrives with the kernel's own reserves. -/
theorem wirePath_eq_domainPath_sample :
    letI : HexText := .decoded
    letI : BloomHash := BloomHash.tabulated
    letI : DataPlaneCodec := sampleCodec
    letI : FloatConversion := .whole
    ∃ served slice,
      getPoolsMeta .ascending (Server.serverSnapshot (.running publishedSample)) = some served ∧
      postSlice (Catalog.parse served servedChain).sliceRequest
        (Server.serverSnapshot (.running publishedSample)) = some slice ∧
      ∀ reserves, (Catalog.parse served servedChain).project slice = .ok reserves ↔
        projectReserves publishedSample servedChain (answeredStates served slice publishedSample) =
          .ok (some reserves) := by
  obtain ⟨served, slice, fetched, posted, same, -⟩ := @wirePath_eq_domainPath .decoded _
    BloomHash.tabulated sampleCodec .whole publishedSample_published .ascending
    HexText.decoded_roundTrips publishedSample_json
  exact ⟨served, slice, fetched, posted, same⟩

end ArmchairAnalyst.ClientCore

import ArmchairAnalyst.Wire
import ArmchairAnalyst.TickMath
import ArmchairAnalyst.PoolReserves

/-!
# The client's catalog

The pools that the client can project, resolved once from the server's metadata, and
the slice request that asks for exactly those. A slice is projected against it.
-/

namespace ArmchairAnalyst.ClientCore

open Wire

/-- A wire field that did not parse. -/
structure HexFault where
  field : String
  value : String
  deriving DecidableEq

inductive CatalogFault
  | hexParse (field value : String)
  | missingDecimals (pool : PoolRef) (token : Address)
  deriving DecidableEq

def HexFault.toCatalogFault (fault : HexFault) : CatalogFault :=
  .hexParse fault.field fault.value

structure PoolEntry where
  token0 : TokenAddress
  token1 : TokenAddress
  fee : PoolFee
  token0Decimals : TokenDecimals
  token1Decimals : TokenDecimals

structure Catalog where
  chain : ChainKey
  pools : HashMap PoolRef PoolEntry
  request : SliceRequest
  excluded : List CatalogFault

section

variable [HexText]

def parseAddress (value field : String) : Except HexFault Address :=
  match HexText.addressFromStr value with
  | some address => .ok address
  | none => .error { field, value }

def poolRefOf (key : PoolQuery) (chain : ChainKey) : Except HexFault PoolRef :=
  match key with
  | .uniswapV3 address =>
    match parseAddress address "pool.address" with
    | .ok address => .ok { key := .uniswapV3 address, chain }
    | .error fault => .error fault
  | .uniswapV4 poolId =>
    match HexText.hashFromStr poolId with
    | some hash => .ok { key := .uniswapV4 hash, chain }
    | none => .error { field := "pool.pool_id", value := poolId }

def parsePoolState (state : WirePoolState) : Except HexFault PoolState :=
  match HexText.u160FromStrRadix (strip0x state.sqrtPriceX96) with
  | none => .error { field := "sqrt_price_x96", value := state.sqrtPriceX96 }
  | some sqrtPriceX96 =>
    match HexText.u128FromStrRadix (strip0x state.liquidity) with
    | none => .error { field := "liquidity", value := state.liquidity }
    | some liquidity =>
      match I24.tryFrom state.tick.toInt with
      | none => .error { field := "tick", value := toString state.tick }
      | some tick => .ok { sqrtPriceX96, tick, liquidity }

/-! ### Resolving the metadata -/

/-- A token entry that does not parse or does not validate is left out. -/
def withTokenEntry (decimals : HashMap Address TokenDecimals) (token : TokenMetaEntry) :
    HashMap Address TokenDecimals :=
  match HexText.addressFromStr token.address,
    TokenDecimals.tryFromU256 (BitVec.ofNat 256 token.decimals.toNat) with
  | some address, .ok value => decimals.insert address value
  | _, _ => decimals

def tokenDecimals (tokens : List TokenMetaEntry) : HashMap Address TokenDecimals :=
  tokens.foldl withTokenEntry ∅

def resolveEntry (chain : ChainKey) (entry : PoolMetaEntry) :
    Except HexFault (PoolRef × Address × Address) :=
  match poolRefOf entry.key chain with
  | .error fault => .error fault
  | .ok pool =>
    match parseAddress entry.token0 "pool.token0" with
    | .error fault => .error fault
    | .ok token0 =>
      match parseAddress entry.token1 "pool.token1" with
      | .error fault => .error fault
      | .ok token1 => .ok (pool, token0, token1)

namespace Catalog

def withPoolEntry (decimals : HashMap Address TokenDecimals) (catalog : Catalog)
    (entry : PoolMetaEntry) : Catalog :=
  match resolveEntry catalog.chain entry with
  | .error fault => { catalog with excluded := catalog.excluded ++ [fault.toCatalogFault] }
  | .ok (pool, token0, token1) =>
    match decimals[token0]?, decimals[token1]? with
    | some token0Decimals, some token1Decimals =>
      { catalog with
        pools := catalog.pools.insert pool
          { token0 := { address := token0, chain := catalog.chain }
            token1 := { address := token1, chain := catalog.chain }
            fee := .static entry.feePips entry.tickSpacing
            token0Decimals
            token1Decimals }
        request := { pools := catalog.request.pools ++ [entry.key] } }
    | some _, none =>
      { catalog with excluded := catalog.excluded ++ [.missingDecimals pool token1] }
    | none, _ =>
      { catalog with excluded := catalog.excluded ++ [.missingDecimals pool token0] }

/-- Every entry is either admitted or excluded with its reason. -/
def parse (pools : PoolsMetaResponse) (chain : ChainKey) : Catalog :=
  pools.pools.foldl (withPoolEntry (tokenDecimals pools.tokens))
    { chain, pools := ∅, request := { pools := [] }, excluded := [] }

def sliceRequest (catalog : Catalog) : SliceRequest := catalog.request

end Catalog

end

/-! ### Projecting a slice -/

section

variable [ReserveProjection]

abbrev Reserves := PoolReserves TokenAddress PoolRef ReserveProjection.F32

inductive WireAdapterError
  | hexParse (field value : String)
  | projection (error : ReserveProjection.PoolReserveProjectionError)

def HexFault.toWireAdapterError (fault : HexFault) : WireAdapterError :=
  .hexParse fault.field fault.value

variable [HexText]

namespace Catalog

/-- The reserves of the complete pools of the catalog in the order of the slice. -/
def projectSlices (catalog : Catalog) : List PoolSlice → Except WireAdapterError (List Reserves)
  | [] => .ok []
  | slicePool :: slicePools =>
    match slicePool.state with
    | .incomplete => catalog.projectSlices slicePools
    | .complete state =>
      match poolRefOf slicePool.key catalog.chain with
      | .error fault => .error fault.toWireAdapterError
      | .ok pool =>
        match catalog.pools[pool]? with
        | none => catalog.projectSlices slicePools
        | some entry =>
          match parsePoolState state with
          | .error fault => .error fault.toWireAdapterError
          | .ok poolState =>
            match ReserveProjection.poolReserveValues pool poolState entry.fee entry.token0
              entry.token1 entry.token0Decimals entry.token1Decimals with
            | .error error => .error (.projection error)
            | .ok value =>
              match catalog.projectSlices slicePools with
              | .error error => .error error
              | .ok projected =>
                .ok ({ token0 := entry.token0, token1 := entry.token1, poolId := pool, value } ::
                  projected)

/-- A stable sort by pool. -/
def sortByPool (projected : List Reserves) : List Reserves :=
  projected.insertionSort (fun first second => (compare first.poolId second.poolId).isLE)

/-- Both directions of every reserve. -/
def directions (projected : List Reserves) : List Reserves :=
  projected.flatMap (fun reserve => [reserve, reserve.inverse])

def project (catalog : Catalog) (slice : SliceResponse) :
    Except WireAdapterError (List Reserves) :=
  match catalog.projectSlices slice.pools with
  | .error error => .error error
  | .ok projected => .ok (directions (sortByPool projected))

end Catalog

end

/-! ### The request of a catalog -/

section

variable [HexText]

namespace Catalog

/-- The request names the pools of the catalog and no others. -/
def RequestsItsPools (catalog : Catalog) : Prop :=
  ∀ pool, pool ∈ catalog.pools ↔
    ∃ query ∈ catalog.sliceRequest.pools, poolRefOf query catalog.chain = .ok pool

/-- Every query of the request names a pool. -/
def RequestResolves (catalog : Catalog) : Prop :=
  ∀ query ∈ catalog.sliceRequest.pools, ∃ pool, poolRefOf query catalog.chain = .ok pool

theorem resolveEntry_pool {chain : ChainKey} {entry : PoolMetaEntry} {pool : PoolRef}
    {token0 token1 : Address} (resolved : resolveEntry chain entry = .ok (pool, token0, token1)) :
    poolRefOf entry.key chain = .ok pool := by
  unfold resolveEntry at resolved
  split at resolved
  · cases resolved
  · rename_i other found
    split at resolved
    · cases resolved
    · split at resolved
      · cases resolved
      · cases resolved
        exact found

/-- An entry is excluded with its reason, or its pool is admitted and asked for. -/
theorem withPoolEntry_cases (decimals : HashMap Address TokenDecimals) (catalog : Catalog)
    (entry : PoolMetaEntry) :
    (∃ fault, withPoolEntry decimals catalog entry =
      { catalog with excluded := catalog.excluded ++ [fault] }) ∨
    ∃ pool token0 token1 token0Decimals token1Decimals,
      resolveEntry catalog.chain entry = .ok (pool, token0, token1) ∧
      decimals[token0]? = some token0Decimals ∧ decimals[token1]? = some token1Decimals ∧
      withPoolEntry decimals catalog entry =
        { catalog with
          pools := catalog.pools.insert pool
            { token0 := { address := token0, chain := catalog.chain }
              token1 := { address := token1, chain := catalog.chain }
              fee := .static entry.feePips entry.tickSpacing
              token0Decimals
              token1Decimals }
          request := { pools := catalog.request.pools ++ [entry.key] } } := by
  unfold withPoolEntry
  cases resolved : resolveEntry catalog.chain entry with
  | error fault => exact .inl ⟨_, rfl⟩
  | ok found =>
    obtain ⟨pool, token0, token1⟩ := found
    dsimp only
    cases first : decimals[token0]? with
    | none => exact .inl ⟨_, rfl⟩
    | some token0Decimals =>
      cases second : decimals[token1]? with
      | none => exact .inl ⟨_, rfl⟩
      | some token1Decimals => exact .inr ⟨pool, token0, token1, _, _, rfl, first, second, rfl⟩

theorem withPoolEntry_chain (decimals : HashMap Address TokenDecimals) (catalog : Catalog)
    (entry : PoolMetaEntry) : (withPoolEntry decimals catalog entry).chain = catalog.chain := by
  rcases withPoolEntry_cases decimals catalog entry with
    ⟨fault, excluded⟩ | ⟨_, _, _, _, _, -, -, -, admitted⟩
  · rw [excluded]
  · rw [admitted]

theorem parse_chain (response : PoolsMetaResponse) (chain : ChainKey) :
    (parse response chain).chain = chain := by
  unfold parse
  apply List.foldlRecOn (motive := fun catalog : Catalog => catalog.chain = chain)
  · rfl
  · exact fun catalog held entry _ => (withPoolEntry_chain _ catalog entry).trans held

theorem withPoolEntry_requests {catalog : Catalog} (requests : catalog.RequestsItsPools)
    (decimals : HashMap Address TokenDecimals) (entry : PoolMetaEntry) :
    (withPoolEntry decimals catalog entry).RequestsItsPools := by
  rcases withPoolEntry_cases decimals catalog entry with
    ⟨fault, excluded⟩ | ⟨pool, token0, token1, _, _, resolved, -, -, admitted⟩
  · rw [excluded]
    exact requests
  · rw [admitted]
    have named := resolveEntry_pool resolved
    intro other
    have known := requests other
    simp only [sliceRequest, List.mem_append, List.mem_singleton] at known ⊢
    rw [Std.ExtTreeMap.mem_insert, Std.LawfulEqOrd.compare_eq_iff_eq, known]
    constructor
    · rintro (rfl | ⟨query, listed, same⟩)
      · exact ⟨entry.key, .inr rfl, named⟩
      · exact ⟨query, .inl listed, same⟩
    · rintro ⟨query, listed | rfl, same⟩
      · exact .inr ⟨query, listed, same⟩
      · exact .inl (Except.ok.inj (named.symm.trans same))

theorem withPoolEntry_resolves {catalog : Catalog} (resolves : catalog.RequestResolves)
    (decimals : HashMap Address TokenDecimals) (entry : PoolMetaEntry) :
    (withPoolEntry decimals catalog entry).RequestResolves := by
  rcases withPoolEntry_cases decimals catalog entry with
    ⟨fault, excluded⟩ | ⟨pool, token0, token1, _, _, resolved, -, -, admitted⟩
  · rw [excluded]
    exact resolves
  · rw [admitted]
    intro query listed
    rcases List.mem_append.mp listed with earlier | last
    · exact resolves query earlier
    · obtain rfl := List.mem_singleton.mp last
      exact ⟨pool, resolveEntry_pool resolved⟩

/-- A catalog asks for exactly the pools that it admits. -/
theorem parse_requests (pools : PoolsMetaResponse) (chain : ChainKey) :
    (parse pools chain).RequestsItsPools ∧ (parse pools chain).RequestResolves := by
  unfold parse
  constructor
  · apply List.foldlRecOn (motive := RequestsItsPools)
    · intro pool
      simp [sliceRequest]
    · exact fun catalog requests entry _ => withPoolEntry_requests requests _ entry
  · apply List.foldlRecOn (motive := RequestResolves)
    · intro query listed
      cases listed
    · exact fun catalog resolves entry _ => withPoolEntry_resolves resolves _ entry

end Catalog

end

end ArmchairAnalyst.ClientCore

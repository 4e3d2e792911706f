import ArmchairAnalyst.Server.Serve

/-!
# Serving the metadata

The tracked set as the client learns of it: every verified pool with its tokens and its
fee, and the decimals of the tokens that these pools reference.
-/

namespace ArmchairAnalyst.Server

open Wire

/-- The wire identity of a pool, without its chain. -/
def wirePoolQuery (pool : PoolRef) : PoolQuery :=
  match pool.key with
  | .uniswapV3 address => .uniswapV3 (addressLowerHex address)
  | .uniswapV4 poolId => .uniswapV4 (hashLowerHex poolId)

def poolMetaEntry (entry : PoolRef × PoolMetadata) : PoolMetaEntry where
  key := wirePoolQuery entry.1
  token0 := addressLowerHex entry.2.token0
  token1 := addressLowerHex entry.2.token1
  feePips := entry.2.fee.pips
  tickSpacing := entry.2.fee.tickSpacing

def tokenMetaEntry (catalog : MetadataCatalog) (address : Address) : Option TokenMetaEntry :=
  (catalog.tokenMetadata { address, chain := servedChain }).map (fun metadata =>
    { address := addressLowerHex address, decimals := UInt8.ofNat metadata.decimals.value })

/-- The tokens of some pools, in the order of their addresses. -/
def referencedTokens (pools : List (PoolRef × PoolMetadata)) : HashSet Address :=
  HashSet.collect (pools.flatMap (fun entry => [entry.2.token0, entry.2.token1]))

/-- A token without validated decimals is left out; its pools are listed all the same. -/
def poolsMeta (order : PoolOrder) (catalog : MetadataCatalog) : PoolsMetaResponse :=
  let pools := catalog.iterPools order
  { pools := pools.map poolMetaEntry
    tokens := (referencedTokens pools).toList.filterMap (tokenMetaEntry catalog) }

def poolsMetaResponse [DataPlaneCodec] (order : PoolOrder) : ServerSnapshot → HttpResponse
  | .awaitingAnchor => ⟨503, "\x7b\"status\":\"awaiting_anchor\"\x7d"⟩
  | .running _ _ _ catalog =>
    match DataPlaneCodec.metaToString (poolsMeta order catalog) with
    | some body => ⟨200, body⟩
    | none => ⟨500, ""⟩

theorem mem_referencedTokens (pools : List (PoolRef × PoolMetadata)) (token : Address) :
    token ∈ referencedTokens pools ↔
      ∃ entry ∈ pools, token = entry.2.token0 ∨ token = entry.2.token1 := by
  simp [referencedTokens, List.mem_flatMap]

/-! ### What the server publishes -/

/-- The seed of a warm start: the cached metadata of this chain. -/
def loadRegistrySeed (poolMetadata : HashMap ProtocolPoolKey PoolMetadata)
    (tokenMetadata : HashMap TokenAddress TokenMetadata) : RegistrySeed where
  poolRegistry := TrustedPoolRegistry.new.withMetadataResults servedChain
    (poolMetadata.map (fun _ value => .ok value))
  tokenRegistry := TokenRegistry.new.withMetadataResults
    (tokenMetadata.map (fun _ value => .ok value))

/-- A seed is what the cache holds, and the native currency is never cached. -/
def ServerInput.FromRuntime : ServerInput → Prop
  | .registrySeed seed => ∃ poolMetadata tokenMetadata,
      (∀ token ∈ (tokenMetadata : HashMap TokenAddress TokenMetadata), token.address ≠ 0) ∧
        seed = loadRegistrySeed poolMetadata tokenMetadata
  | _ => True

/-- The states of a server that its own runtime drives. -/
def Published [BloomHash] : ServerState → Prop :=
  Reachable serverTransition (· = serverInit.1) (fun _ input => input.FromRuntime)

theorem loadRegistrySeed_owned {poolMetadata : HashMap ProtocolPoolKey PoolMetadata}
    {tokenMetadata : HashMap TokenAddress TokenMetadata}
    (foreign : ∀ token ∈ tokenMetadata, token.address ≠ 0) :
    Kernel.Owned servedChain ((loadRegistrySeed poolMetadata tokenMetadata).poolRegistry,
      (loadRegistrySeed poolMetadata tokenMetadata).tokenRegistry) := by
  have pools := (Kernel.Owned.new servedChain).withPoolResults
    (poolMetadata.map (fun _ value => .ok value))
  refine pools.withTokenResults (fun token listed => foreign token ?_)
  simpa using listed

/-- The registries of a server, whether it waits for its anchor or runs. -/
def ServerState.Housed : ServerState → Prop
  | .awaitingSeed => True
  | .awaitingAnchor seed => Kernel.Owned servedChain (seed.poolRegistry, seed.tokenRegistry)
  | .running kernelState => Kernel.Housed servedChain kernelState

theorem housed_transition [BloomHash] {state : ServerState} {input : ServerInput}
    (housed : state.Housed) (fromRuntime : input.FromRuntime) :
    (serverTransition state input).1.Housed := by
  cases state with
  | awaitingSeed =>
    cases input with
    | registrySeed seed =>
      obtain ⟨poolMetadata, tokenMetadata, foreign, rfl⟩ := fromRuntime
      exact loadRegistrySeed_owned foreign
    | finalizedHeader _ | kernel _ | tick _ => trivial
  | awaitingAnchor seed =>
    cases input with
    | finalizedHeader anchor =>
      cases anchor with
      | none => exact housed
      | some anchor => exact Kernel.Housed.activateFromSeed housed anchor.hash anchor.number ∅ []
    | registrySeed _ | kernel _ | tick _ => exact housed
  | running kernelState =>
    have next : ∀ event, Kernel.Housed servedChain
        (Kernel.transition servedChain kernelState event).1 :=
      fun event => Kernel.Housed.transition housed event
    cases input with
    | registrySeed _ => exact housed
    | finalizedHeader anchor =>
      cases anchor with
      | none => exact housed
      | some anchor => exact next (.finalizedBlockObserved anchor.hash anchor.number)
    | kernel event => exact next event
    | tick order => exact next (.tick order)

theorem Published.housed [BloomHash] {kernelState : Kernel.State}
    (published : Published (.running kernelState)) : Kernel.Housed servedChain kernelState := by
  refine Reachable.invariant ServerState.Housed published ?_
    (fun _ _ _ housed fromRuntime => housed_transition housed fromRuntime)
  rintro state rfl
  trivial

theorem Published.next [BloomHash] {state : ServerState} (published : Published state)
    (input : ServerInput) (fromRuntime : input.FromRuntime) :
    Published (serverTransition state input).1 :=
  Reachable.step published fromRuntime

/-- A server with a loaded seed and an anchor takes any events to its kernel. -/
theorem Published.kernelRun [BloomHash] {kernelState : Kernel.State}
    (published : Published (.running kernelState)) (events : List Kernel.Event) :
    Published (.running (run (Kernel.transition servedChain) kernelState events).1) := by
  induction events generalizing kernelState with
  | nil => exact published
  | cons event events inductionHypothesis =>
    exact inductionHypothesis (published.next (.kernel event) trivial)

end ArmchairAnalyst.Server

import ArmchairAnalyst.Server.Core
import ArmchairAnalyst.Wire
import ArmchairAnalyst.Kernel.MetadataCatalog
import ArmchairAnalyst.Kernel.GroundTruth
import ArmchairAnalyst.MultiChainKernel

/-!
# Serving slices

A slice is answered from the overlay that was published with the snapshot. What
the finalized base holds is only served for the pools that the overlay touches.
-/

namespace ArmchairAnalyst.Server

open Wire

/-- The facts that slices and the metadata are answered from. -/
inductive ServerSnapshot
  | awaitingAnchor
  | running (frontier : BlockHash) (behind : Option Nat) (pools : HashMap PoolRef PoolState)
      (catalog : MetadataCatalog)

structure HttpResponse where
  status : UInt16
  body : String
  deriving DecidableEq

def serverSnapshot [BloomHash] : ServerState → ServerSnapshot
  | .awaitingSeed | .awaitingAnchor _ => .awaitingAnchor
  | .running kernelState =>
    let (pools, frontier) := kernelState.projectedPoolStates servedChain
    .running frontier (kernelState.blocks.graph.distanceFromHead frontier) pools
      kernelState.metadataCatalog

def poolRefOf [HexText] : PoolQuery → Option PoolRef
  | .uniswapV3 address => (HexText.addressFromStr address).map (fun address =>
      { key := .uniswapV3 address, chain := servedChain })
  | .uniswapV4 poolId => (HexText.hashFromStr poolId).map (fun poolId =>
      { key := .uniswapV4 poolId, chain := servedChain })

def wirePoolState (state : PoolState) : WirePoolState where
  sqrtPriceX96 := lowerHex state.sqrtPriceX96.toNat
  tick := Int32.ofInt state.tick.value
  liquidity := lowerHex state.liquidity.toNat

def badRequest : HttpResponse := ⟨400, ""⟩

def completenessOf : Option PoolState → PoolCompleteness
  | some state => .complete (wirePoolState state)
  | none => .incomplete

/-- One answer for each query in turn, unless a query names no pool. -/
def poolSlices [HexText] (pools : HashMap PoolRef PoolState) :
    List PoolQuery → Option (List PoolSlice)
  | [] => some []
  | query :: queries =>
    match poolRefOf query with
    | none => none
    | some poolRef => (poolSlices pools queries).map
        ({ key := query, state := completenessOf pools[poolRef]? } :: ·)

/-- The answer with its slices, on the block that they are valid at. -/
def sliceReply [SliceCodec] (frontier : BlockHash) (behind : Option Nat)
    (slices : List PoolSlice) : HttpResponse :=
  let response : SliceResponse :=
    { blockHash := hashLowerHex frontier
      confirmations := UInt64.ofNat (behind.getD 0)
      pools := slices }
  match SliceCodec.responseToString response with
  | some body => ⟨200, body⟩
  | none => ⟨500, ""⟩

def sliceResponse [HexText] [SliceCodec] (body : String) : ServerSnapshot → HttpResponse
  | .awaitingAnchor => ⟨503, "\x7b\"status\":\"awaiting_anchor\"\x7d"⟩
  | .running frontier behind pools _ =>
    match SliceCodec.requestFromStr body with
    | none => badRequest
    | some request =>
      match poolSlices pools request.pools with
      | none => badRequest
      | some slices => sliceReply frontier behind slices

/-! ### What the overlay leaves out -/

section

variable [HexText]

/-- The state that a pool reference is served with. -/
def slicesOf (states : HashMap PoolRef PoolState) (queries : List PoolQuery) : List PoolSlice :=
  queries.map (fun query =>
    { key := query, state := completenessOf ((poolRefOf query).bind (states[·]?)) })

theorem poolSlices_eq (states : HashMap PoolRef PoolState) {queries : List PoolQuery}
    (resolved : ∀ query ∈ queries, (poolRefOf query).isSome) :
    poolSlices states queries = some (slicesOf states queries) := by
  induction queries with
  | nil => rfl
  | cons query queries inductionHypothesis =>
    obtain ⟨first, later⟩ := List.forall_mem_cons.mp resolved
    obtain ⟨pool, found⟩ := Option.isSome_iff_exists.mp first
    simp only [poolSlices, found, inductionHypothesis later, slicesOf, List.map_cons,
      Option.map_some, Option.bind_some]

variable [BloomHash]

/-- The view that the reserves are projected from: the overlay on top of the base. -/
def mergedPoolStates (kernelState : Kernel.State) : HashMap PoolRef PoolState :=
  kernelState.blocks.finalizedSnapshot ∪ (kernelState.projectedPoolStates servedChain).1

/-- Logs between the anchor and the fold frontier are about the pool, and its base
state can be folded over them. -/
def FoldsForward (kernelState : Kernel.State) (pool : PoolRef) : Prop :=
  let events := eventsFor pool.key (kernelState.blocks.graph.projectedLogs
    (kernelState.poolRegistry.verifiedPools servedChain) (poolManagerAddress servedChain))
  events ≠ [] ∧ (derivePoolState kernelState.blocks.finalizedSnapshot[pool]? events).isSome

omit [HexText] in
/-- The overlay is as complete as the merged view on the pools that it folds forward. -/
theorem overlay_served_iff {kernelState : Kernel.State}
    (wellFormed : kernelState.blocks.graph.WellFormed) (pool : PoolRef) :
    completenessOf (kernelState.projectedPoolStates servedChain).1[pool]? =
        completenessOf (mergedPoolStates kernelState)[pool]? ↔
      (pool ∈ kernelState.blocks.finalizedSnapshot → FoldsForward kernelState pool) := by
  have merged : (mergedPoolStates kernelState)[pool]? =
      ((kernelState.projectedPoolStates servedChain).1[pool]?).or
        kernelState.blocks.finalizedSnapshot[pool]? := Std.ExtTreeMap.getElem?_union
  have overlay := BlocksGraph.getElem?_projectedOverlay wellFormed
    kernelState.blocks.finalizedSnapshot (kernelState.poolRegistry.verifiedPools servedChain)
    (poolManagerAddress servedChain) pool
  have covered := HashMap.mem_iff_exists kernelState.blocks.finalizedSnapshot pool
  rw [merged]
  cases based : kernelState.blocks.finalizedSnapshot[pool]? with
  | none => simp [covered, based]
  | some state =>
    have touched : (kernelState.projectedPoolStates servedChain).1[pool]?.isSome ↔
        FoldsForward kernelState pool := by
      unfold FoldsForward
      rw [Kernel.State.projectedPoolStates, overlay, based]
      by_cases empty : eventsFor pool.key (kernelState.blocks.graph.projectedLogs
          (kernelState.poolRegistry.verifiedPools servedChain) (poolManagerAddress servedChain)) = []
      · simp [empty]
      · simp [empty]
    rw [← touched]
    cases (kernelState.projectedPoolStates servedChain).1[pool]? with
    | none => simp [covered, based, completenessOf]
    | some served => simp

/-- Every well-formed slice request is answered in its own order with its own keys, and
with the merged states exactly when the overlay folds every requested base state forward. -/
theorem slice_is_merged_iff [SliceCodec] {kernelState : Kernel.State}
    (reached : Reached (.running kernelState)) {body : String} {request : SliceRequest}
    (parsed : SliceCodec.requestFromStr body = some request)
    (resolved : ∀ query ∈ request.pools, (poolRefOf query).isSome) :
    ∃ slices,
      sliceResponse body (serverSnapshot (.running kernelState)) =
        sliceReply (kernelState.projectedPoolStates servedChain).2
          (kernelState.blocks.graph.distanceFromHead
            (kernelState.projectedPoolStates servedChain).2) slices ∧
      poolSlices (kernelState.projectedPoolStates servedChain).1 request.pools = some slices ∧
      (slices = slicesOf (mergedPoolStates kernelState) request.pools ↔
        ∀ query ∈ request.pools, ∀ pool, poolRefOf query = some pool →
          pool ∈ kernelState.blocks.finalizedSnapshot → FoldsForward kernelState pool) := by
  have answered := poolSlices_eq (kernelState.projectedPoolStates servedChain).1 resolved
  refine ⟨_, ?_, answered, ?_⟩
  · simp only [sliceResponse, serverSnapshot, parsed, answered]
  · unfold slicesOf
    rw [List.map_inj_left]
    apply forall₂_congr
    intro query asked
    obtain ⟨pool, found⟩ := Option.isSome_iff_exists.mp (resolved query asked)
    simp only [found, Option.bind_some, PoolSlice.mk.injEq, true_and, Option.some.injEq,
      forall_eq']
    exact overlay_served_iff reached.kernel.built.wellFormed pool

end

/-! ### One pool served and withheld -/

def sampleQuery : PoolQuery := .uniswapV3 "0x88e6a0c2ddd26feeb64f039a2c41296fcb3f5640"

def sampleBody : String :=
  "\x7b\"pools\":[\x7b\"protocol\":\"uniswap_v3\",\"address\":\"0x88e6a0c2ddd26feeb64f039a2c41296fcb3f5640\"\x7d]\x7d"

/-- The readers on the texts of the sample. -/
@[reducible] def HexText.tabulated : HexText where
  addressFromStr text :=
    if text = "0x88e6a0c2ddd26feeb64f039a2c41296fcb3f5640" then
      some 0x88e6a0c2ddd26feeb64f039a2c41296fcb3f5640
    else none
  hashFromStr _ := none
  u160FromStrRadix _ := none
  u128FromStrRadix _ := none

/-- One slice of a v3 pool as JSON. -/
def sliceText (slice : PoolSlice) : String :=
  match slice.key, slice.state with
  | .uniswapV3 address, .complete state =>
    "\x7b\"protocol\":\"uniswap_v3\",\"address\":\"" ++ address ++
      "\",\"completeness\":\"complete\",\"state\":\x7b\"sqrt_price_x96\":\"" ++
      state.sqrtPriceX96 ++ "\",\"tick\":" ++ toString state.tick ++ ",\"liquidity\":\"" ++
      state.liquidity ++ "\"\x7d\x7d"
  | .uniswapV3 address, .incomplete =>
    "\x7b\"protocol\":\"uniswap_v3\",\"address\":\"" ++ address ++
      "\",\"completeness\":\"incomplete\"\x7d"
  | .uniswapV4 _, _ => ""

@[reducible] def SliceCodec.tabulated : SliceCodec where
  requestFromStr body := if body = sampleBody then some ⟨[sampleQuery]⟩ else none
  responseToString response := some ("\x7b\"block_hash\":\"" ++ response.blockHash ++
    "\",\"confirmations\":" ++ toString response.confirmations ++ ",\"pools\":[" ++
    String.intercalate "," (response.pools.map sliceText) ++ "]\x7d")

/-- A server that has run over a list of events. -/
def servedSample (events : List Kernel.Event) : Kernel.State :=
  letI : BloomHash := BloomHash.tabulated
  (run (Kernel.transition servedChain)
    (Kernel.State.activateFromSeed 0x10 100 ∅ .new .new []).1 events).1

theorem servedSample_reached (events : List Kernel.Event) :
    letI : BloomHash := BloomHash.tabulated
    Reached (.running (servedSample events)) := by
  let _ : BloomHash := BloomHash.tabulated
  exact (Reached.activated ⟨.new, .new⟩ ⟨0x10, 100⟩).kernelRun events

/-- A pool with a log above the anchor gets its anchor state. -/
def seededEvents : List Kernel.Event :=
  Kernel.GroundTruth.sampleEvents.take 3 ++
    [.poolDataReceived 3 ((∅ : HashMap PoolRef PoolDataResult).insert samplePool (.ok sampleState))]

theorem seededEvents_forward :
    letI : BloomHash := BloomHash.tabulated
    FoldsForward (servedSample seededEvents) samplePool := by
  let _ : BloomHash := BloomHash.tabulated
  constructor
  · decide +kernel
  · decide +kernel

theorem slice_is_merged_iff_seeded :
    letI : BloomHash := BloomHash.tabulated
    letI : HexText := HexText.tabulated
    poolSlices ((servedSample seededEvents).projectedPoolStates servedChain).1 [sampleQuery] =
      some (slicesOf (mergedPoolStates (servedSample seededEvents)) [sampleQuery]) := by
  obtain ⟨slices, -, answered, merged⟩ := @slice_is_merged_iff HexText.tabulated
    BloomHash.tabulated SliceCodec.tabulated _ (servedSample_reached seededEvents) sampleBody
    ⟨[sampleQuery]⟩ (by decide +kernel) (by decide +kernel)
  rw [answered, merged.mpr]
  intro query asked pool found _
  obtain rfl := List.mem_singleton.mp asked
  have same : samplePool = pool := Option.some.inj ((by decide +kernel :
    some samplePool = @poolRefOf HexText.tabulated sampleQuery).trans found)
  exact same ▸ seededEvents_forward

/-- Finality folds the logs of a served pool into the base, and the pool is withheld. -/
theorem finality_withholds_a_pool :
    letI : BloomHash := BloomHash.tabulated
    letI : HexText := HexText.tabulated
    let before := servedSample (Kernel.GroundTruth.sampleEvents.take 5)
    let after := servedSample Kernel.GroundTruth.sampleEvents
    Reached (.running before) ∧ Reached (.running after) ∧
      poolSlices (before.projectedPoolStates servedChain).1 [sampleQuery] =
        some (slicesOf (mergedPoolStates before) [sampleQuery]) ∧
      poolSlices (after.projectedPoolStates servedChain).1 [sampleQuery] ≠
        some (slicesOf (mergedPoolStates after) [sampleQuery]) ∧
      poolSlices (after.projectedPoolStates servedChain).1 [sampleQuery] =
        some [{ key := sampleQuery, state := .incomplete }] := by
  refine ⟨servedSample_reached _, servedSample_reached _, ?_, ?_, ?_⟩
  all_goals decide +kernel

end ArmchairAnalyst.Server

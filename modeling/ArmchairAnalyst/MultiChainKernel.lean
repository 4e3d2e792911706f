import ArmchairAnalyst.Bootstrap
import ArmchairAnalyst.PoolReserves
import ArmchairAnalyst.Kernel.Transition

/-!
# The multi-chain kernel

Every configured chain is bootstrapping or active. Events are routed to their
chain, and an active chain whose fold frontier has advanced dispatches the merged
reserves of all active chains to the optimizer.
-/

namespace ArmchairAnalyst.MultiChain

open Bootstrap (BootstrapPolicy BootstrapOutcome FillerHash)

/-- The payloads of a subscription, the only ones that are buffered during a bootstrap. -/
inductive SubscriptionData
  | newHead (hash parentHash : BlockHash) (logsBloom : Bloom) (number : UInt64)
  | poolLog (blockHash : BlockHash) (logs : List PoolLog)

def SubscriptionData.intoKernelEvent : SubscriptionData → Kernel.Event
  | newHead hash parentHash logsBloom number => .headObserved hash parentHash logsBloom number
  | poolLog blockHash logs => .logObserved blockHash logs

inductive ChainLifecycle
  | bootstrapping (state : Bootstrap.State) (buffered : List SubscriptionData)
  | active (state : Kernel.State)

structure State where
  chains : BTreeMap ChainKey ChainLifecycle
  lastOptimizedBlock : BTreeMap ChainKey BlockHash

inductive Event
  | finalizedHeaderReceived (chain : ChainKey) (blockHash : BlockHash) (number : UInt64)
  | finalizedHeaderUnavailable (chain : ChainKey)
  | subscriptionData (chain : ChainKey) (data : SubscriptionData)
  | chainEvent (chain : ChainKey) (event : Kernel.Event)
  | bootstrapEvent (chain : ChainKey) (event : Bootstrap.Event)
  | optimizationStepCompleted
  | tick (orders : ChainKey → IterationOrder)

/-! ### Policies -/

structure FinalizedRefreshPolicy where
  targetLen : Nat
  retryStride : Nat

def finalizedRetentionMargin : ChainKey → Nat
  | .ethereum => 8
  | .arbitrum => 64
  | .base => 32
  | .optimism => 32
  | .polygon => 64
  | .bnb => 32
  | .avalanche => 16

def finalizedRefreshRetryStride : ChainKey → Nat
  | .ethereum => 8
  | .arbitrum => 32
  | .base => 16
  | .optimism => 16
  | .polygon => 32
  | .bnb => 16
  | .avalanche => 8

def finalizedRefreshPolicy (chain : ChainKey) : FinalizedRefreshPolicy where
  targetLen := approxFinalizedBlockAge chain + finalizedRetentionMargin chain
  retryStride := finalizedRefreshRetryStride chain

/-- The reorg-prone blocks nearest the tip that are left out of the seeded graph. -/
def bootstrapTipTrim : ChainKey → UInt64
  | .ethereum => 4
  | .arbitrum => 8
  | .base => 8
  | .optimism => 8
  | .polygon => 16
  | .bnb => 12
  | .avalanche => 6

def bootstrapDeadlineTicks : UInt64 := 180

def bootstrapPolicy (chain : ChainKey) : BootstrapPolicy where
  tipTrim := bootstrapTipTrim chain
  deadlineTicks := bootstrapDeadlineTicks

def finalizedRefreshBucket (len targetLen retryStride : Nat) : Nat :=
  (len - targetLen) / retryStride

/-- Whether the path from the anchor has grown into a new refresh bucket. -/
def shouldFetchFinalizedHeader (beforeLen afterLen : Option Nat) (targetLen retryStride : Nat) :
    Bool :=
  match afterLen with
  | none => false
  | some afterLen =>
    if afterLen < targetLen then false
    else
      match beforeLen with
      | none => true
      | some beforeLen =>
        if beforeLen < targetLen then true
        else
          decide (finalizedRefreshBucket beforeLen targetLen retryStride <
            finalizedRefreshBucket afterLen targetLen retryStride)

/-! ### Projections -/

section

variable [BloomHash] [ReserveProjection]

structure OptimizationStateUpdate where
  blockHash : BlockHash
  poolStates : HashMap PoolRef PoolState

def optimizationUpdate (state : Kernel.State) (chain : ChainKey) : OptimizationStateUpdate :=
  let (poolStates, blockHash) := state.projectedPoolStates chain
  { blockHash, poolStates }

def optimizationUpdateIfChanged (state : Kernel.State) (chain : ChainKey)
    (lastDispatched : Option BlockHash) : Option OptimizationStateUpdate :=
  (state.blocks.graph.projectedPoolStatesIfChanged state.blocks.finalizedSnapshot
    (state.poolRegistry.verifiedPools chain) (poolManagerAddress chain) lastDispatched).map
      (fun (poolStates, blockHash) => { blockHash, poolStates })

abbrev Reserves := PoolReserves TokenAddress PoolRef ReserveProjection.F32

structure ChainPoolReserves where
  blockHash : BlockHash
  reserves : List Reserves

structure OptimizationPoolReserves where
  blockHashes : BTreeMap ChainKey BlockHash
  reserves : List Reserves

structure ProjectionMetadata where
  token0 : TokenAddress
  token1 : TokenAddress
  fee : PoolFee
  token0Decimals : TokenDecimals
  token1Decimals : TokenDecimals

/-- The verified metadata of a pool with the verified decimals of its tokens. -/
def projectionMetadata (state : Kernel.State) (chain : ChainKey) (pool : PoolRef) :
    Option ProjectionMetadata := do
  let metadata ← state.poolRegistry.verifiedMetadata pool
  let token0 : TokenAddress := ⟨metadata.token0, chain⟩
  let token1 : TokenAddress := ⟨metadata.token1, chain⟩
  let token0Metadata ← state.tokenRegistry.verifiedMetadata token0
  let token1Metadata ← state.tokenRegistry.verifiedMetadata token1
  return ⟨token0, token1, metadata.fee, token0Metadata.decimals, token1Metadata.decimals⟩

def sortedPoolStatesForProjection (finalizedPoolStates updatePoolStates : HashMap PoolRef PoolState) :
    List (PoolRef × PoolState) :=
  (finalizedPoolStates ∪ updatePoolStates).toList

/-- Both directions of each pool in turn. A pool without metadata stops the whole
projection, as does a value that cannot be converted. -/
def projectReserves (state : Kernel.State) (chain : ChainKey) :
    List (PoolRef × PoolState) →
      Except ReserveProjection.PoolReserveProjectionError (Option (List Reserves))
  | [] => .ok (some [])
  | (pool, poolState) :: rest =>
    match projectionMetadata state chain pool with
    | none => .ok none
    | some metadata => do
      let value ← ReserveProjection.poolReserveValues pool poolState metadata.fee metadata.token0
        metadata.token1 metadata.token0Decimals metadata.token1Decimals
      let reserve : Reserves :=
        { token0 := metadata.token0, token1 := metadata.token1, poolId := pool, value }
      let reserves ← projectReserves state chain rest
      return reserves.map (fun reserves => reserve :: reserve.inverse :: reserves)

def poolReservesForOptimization (state : State) (chain : ChainKey)
    (update : OptimizationStateUpdate) :
    Except ReserveProjection.PoolReserveProjectionError (Option ChainPoolReserves) :=
  match state.chains[chain]? with
  | some (.active chainState) => do
    let reserves ← projectReserves chainState chain
      (sortedPoolStatesForProjection chainState.blocks.finalizedSnapshot update.poolStates)
    return reserves.map (fun reserves => { blockHash := update.blockHash, reserves })
  | _ => .ok none

/-- Adds an active chain's own projection, or the one given for it, to the merge. -/
def mergeChain (state : State) (precomputedChain : ChainKey) (precomputed : ChainPoolReserves)
    (merged : OptimizationPoolReserves) (entry : ChainKey × ChainLifecycle) :
    OptimizationPoolReserves :=
  match entry.2 with
  | .bootstrapping _ _ => merged
  | .active chainState =>
    if entry.1 = precomputedChain then
      { blockHashes := merged.blockHashes.insert entry.1 precomputed.blockHash
        reserves := merged.reserves ++ precomputed.reserves }
    else
      match poolReservesForOptimization state entry.1 (optimizationUpdate chainState entry.1) with
      | .ok (some chainReserves) =>
        { blockHashes := merged.blockHashes.insert entry.1 chainReserves.blockHash
          reserves := merged.reserves ++ chainReserves.reserves }
      | _ => merged

def mergedOptimizationReserves (state : State) (precomputedChain : ChainKey)
    (precomputed : ChainPoolReserves) : OptimizationPoolReserves :=
  state.chains.toList.foldl (mergeChain state precomputedChain precomputed)
    { blockHashes := ∅, reserves := [] }

/-! ### Effects -/

inductive Effect
  | fetchFinalizedHeader (chain : ChainKey)
  | chainEffect (chain : ChainKey) (effect : Kernel.Effect)
  | bootstrapEffect (chain : ChainKey) (effect : Bootstrap.Effect)
  | runOptimization (input : OptimizationPoolReserves)

def wrapBootstrapEffects (chain : ChainKey) (effects : List Bootstrap.Effect) : List Effect :=
  effects.map (.bootstrapEffect chain)

def wrapChainEffects (chain : ChainKey) (effects : List Kernel.Effect) : List Effect :=
  effects.map (.chainEffect chain)

def State.init (chains : List ChainKey) : State × List Effect :=
  chains.foldl (fun (state, effects) chain =>
    let (bootstrapState, bootstrapEffects) := Bootstrap.init (bootstrapPolicy chain)
    ({ state with chains := state.chains.insert chain (.bootstrapping bootstrapState []) },
      effects ++ wrapBootstrapEffects chain bootstrapEffects))
    ({ chains := ∅, lastOptimizedBlock := ∅ }, [])

/-- Runs a handler on a chain's lifecycle; a chain without a result is dropped. -/
def withChainLifecycle (state : State) (chain : ChainKey)
    (f : ChainLifecycle → Option ChainLifecycle × List Effect) : State × List Effect :=
  match state.chains[chain]? with
  | some lifecycle =>
    let (lifecycle, effects) := f lifecycle
    match lifecycle with
    | some lifecycle =>
      ({ state with chains := (state.chains.erase chain).insert chain lifecycle }, effects)
    | none => ({ state with chains := state.chains.erase chain }, effects)
  | none => (state, [])

def finalizedHeaderReceived (state : State) (chain : ChainKey) (blockHash : BlockHash)
    (number : UInt64) : State × List Effect :=
  withChainLifecycle state chain (fun lifecycle =>
    match lifecycle with
    | .active chainState =>
      let (chainState, effects) :=
        Kernel.transition chain chainState (.finalizedBlockObserved blockHash number)
      (some (.active chainState), wrapChainEffects chain effects)
    | other => (some other, []))

def activateBootstrapOutcome (outcome : BootstrapOutcome) : Kernel.State × List Kernel.Effect :=
  Kernel.State.activateFromSeed outcome.anchor.hash outcome.anchor.number outcome.poolSnapshots
    outcome.poolRegistry outcome.tokenRegistry outcome.seedBlocks

/-- Folds the buffered subscription data through a newly activated kernel. -/
def replayBufferedSubscriptionData (chain : ChainKey) (chainState : Kernel.State)
    (buffered : List SubscriptionData) : Kernel.State × List Effect :=
  buffered.foldl (fun (chainState, effects) data =>
    let (chainState, kernelEffects) := Kernel.transition chain chainState data.intoKernelEvent
    (chainState, effects ++ wrapChainEffects chain kernelEffects)) (chainState, [])

def advanceBootstrap [FillerHash] (chain : ChainKey) (bootstrapState : Bootstrap.State)
    (buffered : List SubscriptionData) (event : Bootstrap.Event) :
    Option ChainLifecycle × List Effect :=
  let (bootstrapState, bootstrapEffects) := Bootstrap.transition chain bootstrapState event
  let effects := wrapBootstrapEffects chain bootstrapEffects
  match Bootstrap.completion bootstrapState with
  | some (.ready outcome) =>
    let (chainState, activationEffects) := activateBootstrapOutcome outcome
    let (chainState, replayEffects) := replayBufferedSubscriptionData chain chainState buffered
    (some (.active chainState),
      effects ++ wrapChainEffects chain activationEffects ++ replayEffects)
  | some .abandoned => (none, effects)
  | none => (some (.bootstrapping bootstrapState buffered), effects)

def bootstrapEvent [FillerHash] (state : State) (chain : ChainKey) (event : Bootstrap.Event) :
    State × List Effect :=
  withChainLifecycle state chain (fun lifecycle =>
    match lifecycle with
    | .bootstrapping bootstrapState buffered =>
      advanceBootstrap chain bootstrapState buffered event
    | other => (some other, []))

/-- What follows a kernel transition that made progress: the finalized header is fetched
when the path has grown, and an advanced frontier with a ready projection is dispatched. -/
def afterProgress (state : State) (chain : ChainKey) (before : Kernel.State)
    (result : Kernel.State × List Kernel.Effect) : State × List Effect :=
  let policy := finalizedRefreshPolicy chain
  let shouldFetchFinalized := shouldFetchFinalizedHeader
    (before.blocks.graph.distanceFromHead before.blocks.graph.anchor.hash)
    (result.1.blocks.graph.distanceFromHead result.1.blocks.graph.anchor.hash)
    policy.targetLen policy.retryStride
  let effects := wrapChainEffects chain result.2 ++
    (if shouldFetchFinalized then [.fetchFinalizedHeader chain] else [])
  let update := optimizationUpdateIfChanged result.1 chain state.lastOptimizedBlock[chain]?
  let state : State :=
    { state with chains := (state.chains.erase chain).insert chain (.active result.1) }
  match update with
  | none => (state, effects)
  | some update =>
    match poolReservesForOptimization state chain update with
    | .ok (some chainReserves) =>
      let state : State :=
        { state with
          lastOptimizedBlock := state.lastOptimizedBlock.insert chain update.blockHash }
      let input := mergedOptimizationReserves state chain chainReserves
      if input.reserves.isEmpty then (state, effects)
      else (state, effects ++ [.runOptimization input])
    | _ => (state, effects)

def chainEvent (state : State) (chain : ChainKey) (event : Kernel.Event) : State × List Effect :=
  match state.chains[chain]? with
  | some (.active chainState) =>
    match Kernel.transitionOutcome chain chainState event with
    | .inert chainState =>
      ({ state with chains := (state.chains.erase chain).insert chain (.active chainState) }, [])
    | .progressed chainState' effects => afterProgress state chain chainState (chainState', effects)
  | some existing => ({ state with chains := (state.chains.erase chain).insert chain existing }, [])
  | none => (state, [])

def bufferSubscriptionData (state : State) (chain : ChainKey) (data : SubscriptionData) :
    State × List Effect :=
  withChainLifecycle state chain (fun lifecycle =>
    match lifecycle with
    | .bootstrapping bootstrapState buffered =>
      (some (.bootstrapping bootstrapState (buffered ++ [data])), [])
    | other => (some other, []))

def subscriptionData (state : State) (chain : ChainKey) (data : SubscriptionData) :
    State × List Effect :=
  match state.chains[chain]? with
  | some (.bootstrapping _ _) => bufferSubscriptionData state chain data
  | _ => chainEvent state chain data.intoKernelEvent

def tickChain [FillerHash] (orders : ChainKey → IterationOrder)
    (result : BTreeMap ChainKey ChainLifecycle × List Effect)
    (entry : ChainKey × ChainLifecycle) : BTreeMap ChainKey ChainLifecycle × List Effect :=
  match entry.2 with
  | .bootstrapping bootstrapState buffered =>
    let (lifecycle, effects) :=
      advanceBootstrap entry.1 bootstrapState buffered (.tick (orders entry.1))
    match lifecycle with
    | some lifecycle => (result.1.insert entry.1 lifecycle, result.2 ++ effects)
    | none => (result.1, result.2 ++ effects)
  | .active chainState =>
    let (chainState, effects) := Kernel.transition entry.1 chainState (.tick (orders entry.1))
    (result.1.insert entry.1 (.active chainState), result.2 ++ wrapChainEffects entry.1 effects)

def tick [FillerHash] (state : State) (orders : ChainKey → IterationOrder) :
    State × List Effect :=
  let (chains, effects) := state.chains.toList.foldl (tickChain orders) (∅, [])
  ({ state with chains }, effects)

def transition [FillerHash] (state : State) : Event → State × List Effect
  | .finalizedHeaderReceived chain blockHash number =>
    finalizedHeaderReceived state chain blockHash number
  | .finalizedHeaderUnavailable _ => (state, [])
  | .subscriptionData chain data => subscriptionData state chain data
  | .chainEvent chain event => chainEvent state chain event
  | .bootstrapEvent chain event => bootstrapEvent state chain event
  | .optimizationStepCompleted => (state, [])
  | .tick orders => tick state orders

end

end ArmchairAnalyst.MultiChain

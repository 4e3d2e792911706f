import ArmchairAnalyst.Kernel.PendingRequests

/-!
# The kernel transition

One event is applied to the state and answered with the requests the runtime has
to send. The schedulers at the end of most transitions derive follow-up requests
from the state and change nothing but the requests in flight.
-/

namespace ArmchairAnalyst.Kernel

/-- The blocks graph with its finalized base. -/
structure Blocks where
  graph : BlocksGraph
  finalizedSnapshot : HashMap PoolRef PoolState

structure State where
  pendingRequests : PendingRequests
  poolRegistry : TrustedPoolRegistry
  tokenRegistry : TokenRegistry
  tick : Tick
  streamedLogs : HashMap BlockHash (BTreeMap UInt64 PoolLog)
  blocks : Blocks
  wsMissCount : UInt64

inductive Event
  | headObserved (hash parentHash : BlockHash) (logsBloom : Bloom) (number : UInt64)
  | finalizedBlockObserved (blockHash : BlockHash) (number : UInt64)
  | blockHeaderReceived (requestId : UInt64) (hash parentHash : BlockHash) (logsBloom : Bloom)
      (number : UInt64)
  | blockHeaderNotFound (requestId : UInt64)
  | canonicalHeaderAtHeightReceived (requestId : UInt64) (hash : BlockHash) (number : UInt64)
  | blockLogsReceived (requestId : UInt64) (logs : List PoolLog)
  | blockLogsRangeReceived (requestId : UInt64) (blocks : List (BlockHash × List PoolLog))
  | logObserved (blockHash : BlockHash) (logs : List PoolLog)
  | poolMetadataReceived (requestId : UInt64)
      (metadata : HashMap ProtocolPoolKey PoolMetadataResult)
  | tokenMetadataReceived (requestId : UInt64)
      (metadata : HashMap TokenAddress TokenMetadataResult)
  | poolDataReceived (requestId : UInt64) (pools : HashMap PoolRef PoolDataResult)
  | requestFailed (requestId : RequestId)
  | tick (order : IterationOrder)

/-- Requests are the only effects. -/
abbrev Effect := IssuedRequest

def maxStreamedLogBlocks : Nat := 1024

def streamSettleDepth : Nat := 2

def finalizedPoolSeedChunk : Nat := 100

namespace Blocks

def new (finalizedHash : BlockHash) (finalizedNumber : UInt64)
    (finalizedSnapshot : HashMap PoolRef PoolState) : Blocks where
  graph := BlocksGraph.new finalizedHash finalizedNumber
  finalizedSnapshot := finalizedSnapshot

def seedPool (snapshot : HashMap PoolRef PoolState) (entry : PoolRef × PoolDataResult) :
    HashMap PoolRef PoolState :=
  match entry.2 with
  | .ok poolState => snapshot.insert entry.1 poolState
  | .error _ => snapshot

/-- Merges states read at the anchor; an answer for another block is dropped. -/
def withFinalizedPoolSeeds (blocks : Blocks) (at_ : BlockHash)
    (results : HashMap PoolRef PoolDataResult) : Blocks :=
  if at_ ≠ blocks.graph.anchor.hash then blocks
  else { blocks with finalizedSnapshot := results.toList.foldl seedPool blocks.finalizedSnapshot }

end Blocks

/-! ### Requests -/

/-- Issues one request and appends it to the effects. -/
def issueRequest (output : State × List Effect) (kind : RequestKind) (payload : kind.Payload) :
    State × List Effect :=
  let (pendingRequests, requestId) :=
    output.1.pendingRequests.issueRequest kind payload output.1.tick
  ({ output.1 with pendingRequests }, output.2 ++ [⟨kind, requestId, payload⟩])

/-- Asks for a missing header unless it is being asked for already. -/
def requestMissingHeader (output : State × List Effect) (missingHash : BlockHash) :
    State × List Effect :=
  if PendingRequests.hasPendingHeaderRequest output.1.pendingRequests missingHash then output
  else issueRequest output .blockHeader ⟨missingHash⟩

namespace State

def init (finalizedHash : BlockHash) (finalizedNumber : UInt64) : State where
  pendingRequests := RequestStore.new
  poolRegistry := TrustedPoolRegistry.new
  tokenRegistry := TokenRegistry.new
  tick := Tick.initial
  streamedLogs := ∅
  blocks := Blocks.new finalizedHash finalizedNumber ∅
  wsMissCount := 0

/-- Starts from a bootstrap outcome and asks for the headers its window lacks. -/
def activateFromSeed (finalizedHash : BlockHash) (finalizedNumber : UInt64)
    (finalizedPoolSnapshots : HashMap PoolRef PoolState) (poolRegistry : TrustedPoolRegistry)
    (tokenRegistry : TokenRegistry) (seedBlocks : List SeedBlock) : State × List Effect :=
  let graph := BlocksGraph.fromSeed finalizedHash finalizedNumber seedBlocks
  let state : State :=
    { pendingRequests := RequestStore.new
      poolRegistry
      tokenRegistry
      tick := Tick.initial
      streamedLogs := ∅
      blocks := { graph, finalizedSnapshot := finalizedPoolSnapshots }
      wsMissCount := 0 }
  graph.missingParents.foldl (fun output missingHash =>
    issueRequest output .blockHeader ⟨missingHash⟩) (state, [])

def mapGraph (state : State) (f : BlocksGraph → BlocksGraph) : State :=
  { state with blocks := { state.blocks with graph := f state.blocks.graph } }

def projectedPoolStates [BloomHash] (state : State) (chain : ChainKey) :
    HashMap PoolRef PoolState × BlockHash :=
  state.blocks.graph.projectedPoolStates state.blocks.finalizedSnapshot
    (state.poolRegistry.verifiedPools chain) (poolManagerAddress chain)

/-! ### Feeding the graph -/

/-- Keeps logs of a block that is not in the graph yet, for a bounded number of blocks. -/
def withStreamedLogsBuffered (state : State) (blockHash : BlockHash) (logs : List PoolLog) :
    State :=
  if maxStreamedLogBlocks ≤ state.streamedLogs.size ∧ blockHash ∉ state.streamedLogs then state
  else
    { state with
      streamedLogs := state.streamedLogs.insert blockHash
        (state.streamedLogs[blockHash]?.getD ∅ ∪ keyByLogIndex logs) }

def withLogStreamed (state : State) (blockHash : BlockHash) (logs : List PoolLog) : State :=
  state.mapGraph (·.withStreamedLogs blockHash logs)

/-- Moves the buffered logs of a block into the graph once the block is there. -/
def withStreamedLogsDrained (state : State) (blockHash : BlockHash) : State :=
  if blockHash ∉ state.blocks.graph.nodes then state
  else
    match state.streamedLogs[blockHash]? with
    | some logs =>
      { state with streamedLogs := state.streamedLogs.erase blockHash }.withLogStreamed blockHash
        (HashMap.values logs)
    | none => state

def withLogHeadObserved (state : State) (hash parentHash : BlockHash) (number : UInt64)
    (bloom : Bloom) (maxPending : Nat) : State × Admission :=
  let (graph, admission) :=
    state.blocks.graph.withBlockCapped hash parentHash number bloom maxPending
  let graph :=
    match admission with
    | .selfParent => graph
    | _ => graph.withObservedHead hash
  ((state.mapGraph (fun _ => graph)).withStreamedLogsDrained hash, admission)

def withLogHeaderReceived (state : State) (hash parentHash : BlockHash) (number : UInt64)
    (bloom : Bloom) (maxPending : Nat) : State :=
  (state.mapGraph (fun graph =>
    (graph.withBlockCapped hash parentHash number bloom maxPending).1)).withStreamedLogsDrained hash

def withLogComplete (state : State) (blockHash : BlockHash) (logs : List PoolLog) : State :=
  let (graph, wsMiss) := state.blocks.graph.withCompleteLogs blockHash logs
  { state.mapGraph (fun _ => graph) with
    wsMissCount := if wsMiss then state.wsMissCount + 1 else state.wsMissCount }

def withFinalizedPoolSeeds (state : State) (at_ : BlockHash)
    (results : HashMap PoolRef PoolDataResult) : State :=
  { state with blocks := state.blocks.withFinalizedPoolSeeds at_ results }

/-- Advances the anchor; requests for pruned blocks and buffered logs go with them. -/
def withFinalizedBlockObserved [BloomHash] (state : State) (chain : ChainKey)
    (blockHash : BlockHash) : State :=
  let (graph, finalizedSnapshot) := state.blocks.graph.finalizedTo blockHash
    state.blocks.finalizedSnapshot (state.poolRegistry.verifiedPools chain)
    (poolManagerAddress chain)
  let blocks : Blocks := { graph, finalizedSnapshot }
  if graph.anchor.hash ≠ state.blocks.graph.anchor.hash then
    { state with
      pendingRequests :=
        PendingRequests.retainingBlockTargets state.pendingRequests graph.nodeHashes
      streamedLogs := ∅
      blocks }
  else { state with blocks }

/-- The authoritative logs of a range: every answered block, then every covered block
without an answer, which is thereby proven empty. -/
def withLogsRange (state : State) (covered : HashSet BlockHash)
    (blocks : List (BlockHash × List PoolLog)) : State :=
  let state := blocks.foldl (fun state block => state.withLogComplete block.1 block.2) state
  let responded := HashSet.collect (blocks.map (·.1))
  (covered.toList.filter (fun hash => !responded.contains hash)).foldl
    (fun state hash => state.withLogComplete hash []) state

end State

/-! ### Schedulers -/

def trustedAddresses (chain : ChainKey) (registry : TrustedPoolRegistry) : HashSet Address :=
  match poolManagerAddress chain with
  | some manager => (registry.verifiedAddresses chain).insert manager
  | none => registry.verifiedAddresses chain

/-- Asks for the logs of settled blocks for which nothing was streamed. -/
def scheduleUnknownCanonicalLogRequests [BloomHash] (chain : ChainKey)
    (output : State × List Effect) : State × List Effect :=
  let holes := output.1.blocks.graph.unknownLogHoleHashes
    (trustedAddresses chain output.1.poolRegistry)
    (PendingRequests.pendingBlockLogHashes output.1.pendingRequests) streamSettleDepth
  holes.foldl (fun output blockHash => issueRequest output .blockLogs ⟨blockHash⟩) output

/-- Asks for the logs of the ranges that keep a finalized target from being folded. -/
def scheduleMissingLogRangeRequests [BloomHash] (chain : ChainKey) (target : BlockHash)
    (output : State × List Effect) : State × List Effect :=
  let ranges := output.1.blocks.graph.missingCompleteRangesTo target
    (output.1.poolRegistry.verifiedPools chain) (poolManagerAddress chain)
    (PendingRequests.pendingLogRangeNumbers output.1.pendingRequests)
  ranges.foldl (fun output range =>
    issueRequest output .logsRange (GetLogsRange.ofMissingRange range)) output

/-- The candidates of one block that are neither known nor being asked for. -/
def requestPoolCandidates (chain : ChainKey)
    (pass : (State × List Effect) × HashSet ProtocolPoolKey)
    (block : BlockHash × HashSet ProtocolPoolKey) :
    (State × List Effect) × HashSet ProtocolPoolKey :=
  let requested := HashSet.collect (block.2.toList.filter (fun candidate =>
    !pass.1.1.poolRegistry.isKnown chain candidate && !pass.2.contains candidate))
  if requested.isEmpty then pass
  else
    (issueRequest pass.1 .poolMetadata { at_ := block.1, candidates := requested },
      pass.2 ∪ requested)

def scheduleUnknownCanonicalPoolMetadataRequests (chain : ChainKey)
    (candidatesFromHead : List (BlockHash × HashSet ProtocolPoolKey))
    (output : State × List Effect) : State × List Effect :=
  (candidatesFromHead.foldl (requestPoolCandidates chain)
    (output, PendingRequests.pendingPoolMetadataCandidates output.1.pendingRequests)).1

/-- The tokens of the verified pools among a block's candidates. -/
def candidateTokens (chain : ChainKey) (registry : TrustedPoolRegistry)
    (candidates : HashSet ProtocolPoolKey) : List TokenAddress :=
  ((candidates.toList.filterMap (registry.verifiedPool chain)).filterMap
    registry.verifiedMetadata).flatMap
      (fun metadata => [⟨metadata.token0, chain⟩, ⟨metadata.token1, chain⟩])

def requestCandidateTokens (chain : ChainKey)
    (pass : (State × List Effect) × HashSet TokenAddress)
    (block : BlockHash × HashSet ProtocolPoolKey) :
    (State × List Effect) × HashSet TokenAddress :=
  let tokens := HashSet.collect
    ((candidateTokens chain pass.1.1.poolRegistry block.2).filter (fun token =>
      !pass.1.1.tokenRegistry.isKnown token && !pass.2.contains token))
  if tokens.isEmpty then pass
  else (issueRequest pass.1 .tokenMetadata { at_ := block.1, tokens }, pass.2 ∪ tokens)

def scheduleUnknownCanonicalTokenMetadataRequests (chain : ChainKey)
    (candidatesFromHead : List (BlockHash × HashSet ProtocolPoolKey))
    (output : State × List Effect) : State × List Effect :=
  (candidatesFromHead.foldl (requestCandidateTokens chain)
    (output, PendingRequests.pendingTokenMetadataTokens output.1.pendingRequests)).1

/-- The verified pools without a finalized state, in order, up to one chunk. -/
def uncoveredPools (chain : ChainKey) (state : State) : List PoolRef :=
  (((state.poolRegistry.verifiedPools chain).toList.filter (fun pool =>
    !state.blocks.finalizedSnapshot.contains pool &&
      !(PendingRequests.pendingPoolDataPools state.pendingRequests).contains pool)).take
    finalizedPoolSeedChunk)

/-- Asks for anchor states of uncovered pools while no block is being fetched. -/
def scheduleFinalizedPoolSeedRequests (chain : ChainKey) (output : State × List Effect) :
    State × List Effect :=
  if PendingRequests.hasPendingBlockBackfill output.1.pendingRequests then output
  else
    let candidates := uncoveredPools chain output.1
    if candidates.isEmpty then output
    else
      issueRequest output .poolData
        { at_ := output.1.blocks.graph.anchor.hash, pools := HashSet.collect candidates }

def scheduleMissingHeaderRequests (output : State × List Effect) : State × List Effect :=
  output.1.blocks.graph.missingParents.foldl requestMissingHeader output

/-- Every follow-up scheduler, headers first. -/
def scheduleUnknownCanonicalRequests [BloomHash] (chain : ChainKey)
    (output : State × List Effect) : State × List Effect :=
  let output := scheduleMissingHeaderRequests output
  let output := scheduleUnknownCanonicalLogRequests chain output
  let candidatesFromHead := output.1.blocks.graph.poolLogCandidatesFromHead
  let output := scheduleUnknownCanonicalPoolMetadataRequests chain candidatesFromHead output
  let output := scheduleUnknownCanonicalTokenMetadataRequests chain candidatesFromHead output
  scheduleFinalizedPoolSeedRequests chain output

def saturatingSucc (number : UInt64) : UInt64 := if number + 1 = 0 then number else number + 1

/-- Whether a block that landed pending at or just above the anchor speaks against it. -/
def orphanSuspected (state : State) (admittedHash : BlockHash) (number : UInt64) : Bool :=
  decide (number ≤ saturatingSucc state.blocks.graph.anchor.number) &&
    state.blocks.graph.isPending admittedHash &&
    !PendingRequests.hasPendingFinalityProbe state.pendingRequests

def withFinalityProbeIfOrphanSuspected (admittedHash : BlockHash) (number : UInt64)
    (output : State × List Effect) : State × List Effect :=
  if orphanSuspected output.1 admittedHash number then
    issueRequest output .canonicalHeader ⟨output.1.blocks.graph.anchor.number⟩
  else output

/-! ### The transition -/

inductive TransitionOutcome
  | inert (state : State)
  | progressed (state : State) (effects : List Effect)

def TransitionOutcome.ofOutput (output : State × List Effect) : TransitionOutcome :=
  .progressed output.1 output.2

/-- Removes the request an answer names. -/
def State.take (state : State) (kind : RequestKind) (requestId : UInt64) :
    State × Option (PendingPayload kind.Payload) :=
  let (pendingRequests, pending) := state.pendingRequests.takeRequest kind requestId
  ({ state with pendingRequests }, pending)

def headObserved [BloomHash] (chain : ChainKey) (state : State) (hash parentHash : BlockHash)
    (logsBloom : Bloom) (number : UInt64) : TransitionOutcome :=
  let headBefore := state.blocks.graph.observedHead
  let (state, admission) := state.withLogHeadObserved hash parentHash number logsBloom
    (maxPendingBlocks chain)
  match admission with
  | .selfParent => .ofOutput (requestMissingHeader (state, []) hash)
  | .duplicateBlock =>
    if hash = headBefore then .inert state
    else
      .ofOutput (withFinalityProbeIfOrphanSuspected hash number
        (scheduleUnknownCanonicalRequests chain (state, [])))
  | _ =>
    .ofOutput (withFinalityProbeIfOrphanSuspected hash number
      (scheduleUnknownCanonicalRequests chain (state, [])))

def blockHeaderReceived [BloomHash] (chain : ChainKey) (state : State) (requestId : UInt64)
    (hash parentHash : BlockHash) (logsBloom : Bloom) (number : UInt64) :
    State × List Effect :=
  let state := state.withLogHeaderReceived hash parentHash number logsBloom
    (maxPendingBlocks chain)
  let (state, pending) := state.take .blockHeader requestId
  let output :=
    match pending with
    | some request =>
      -- An answer for another block leaves the request to be made again.
      if request.payload.blockHash ≠ hash then
        issueRequest (state, []) .blockHeader request.payload
      else (state, [])
    | none => (state, [])
  withFinalityProbeIfOrphanSuspected hash number (scheduleUnknownCanonicalRequests chain output)

def canonicalHeaderAtHeightReceived (state : State) (requestId : UInt64) (hash : BlockHash)
    (number : UInt64) : State × List Effect :=
  let (state, _) := state.take .canonicalHeader requestId
  if number = state.blocks.graph.anchor.number ∧ hash ≠ state.blocks.graph.anchor.hash then
    State.activateFromSeed hash number ∅ state.poolRegistry state.tokenRegistry []
  else (state, [])

/-- An answer is applied to its pending payload and followed by the schedulers; an
answer to no pending request changes nothing. -/
def answered [BloomHash] (chain : ChainKey) (state : State) (kind : RequestKind)
    (requestId : UInt64) (apply_ : State → kind.Payload → State) : State × List Effect :=
  let (state, pending) := state.take kind requestId
  match pending with
  | some request => scheduleUnknownCanonicalRequests chain (apply_ state request.payload, [])
  | none => (state, [])

def blockLogsReceived [BloomHash] (chain : ChainKey) (state : State) (requestId : UInt64)
    (logs : List PoolLog) : State × List Effect :=
  answered chain state .blockLogs requestId (fun state payload =>
    state.withLogComplete payload.blockHash logs)

def blockLogsRangeReceived [BloomHash] (chain : ChainKey) (state : State) (requestId : UInt64)
    (blocks : List (BlockHash × List PoolLog)) : State × List Effect :=
  answered chain state .logsRange requestId (fun state payload =>
    state.withLogsRange payload.covered blocks)

def logObserved [BloomHash] (chain : ChainKey) (state : State) (blockHash : BlockHash)
    (logs : List PoolLog) : State × List Effect :=
  if blockHash ∈ state.blocks.graph.nodes then
    scheduleUnknownCanonicalRequests chain (state.withLogStreamed blockHash logs, [])
  else (state.withStreamedLogsBuffered blockHash logs, [])

def poolMetadataReceived [BloomHash] (chain : ChainKey) (state : State) (requestId : UInt64)
    (metadata : HashMap ProtocolPoolKey PoolMetadataResult) : State × List Effect :=
  answered chain state .poolMetadata requestId (fun state payload =>
    let metadata := metadata.filter (fun candidate _ => payload.candidates.contains candidate)
    { state with poolRegistry := state.poolRegistry.withMetadataResults chain metadata })

def tokenMetadataReceived [BloomHash] (chain : ChainKey) (state : State) (requestId : UInt64)
    (metadata : HashMap TokenAddress TokenMetadataResult) : State × List Effect :=
  answered chain state .tokenMetadata requestId (fun state payload =>
    let metadata := metadata.filter (fun token _ => payload.tokens.contains token)
    { state with tokenRegistry := state.tokenRegistry.withMetadataResults metadata })

def poolDataReceived [BloomHash] (chain : ChainKey) (state : State) (requestId : UInt64)
    (pools : HashMap PoolRef PoolDataResult) : State × List Effect :=
  answered chain state .poolData requestId (fun state payload =>
    state.withFinalizedPoolSeeds payload.at_ pools)

def requestFailed (state : State) (requestId : RequestId) : State × List Effect :=
  let (pendingRequests, issued) := state.pendingRequests.retry requestId state.tick
  ({ state with pendingRequests }, issued.toList)

def ticked (state : State) (order : IterationOrder) : State × List Effect :=
  let tick := state.tick.next
  let (pendingRequests, issued) := PendingRequests.retryExpired order state.pendingRequests tick
  ({ state with pendingRequests, tick }, issued)

def transitionOutcome [BloomHash] (chain : ChainKey) (state : State) :
    Event → TransitionOutcome
  | .headObserved hash parentHash logsBloom number =>
    headObserved chain state hash parentHash logsBloom number
  | .finalizedBlockObserved blockHash _ =>
    .ofOutput (scheduleMissingLogRangeRequests chain blockHash
      (state.withFinalizedBlockObserved chain blockHash, []))
  | .blockHeaderReceived requestId hash parentHash logsBloom number =>
    .ofOutput (blockHeaderReceived chain state requestId hash parentHash logsBloom number)
  | .blockHeaderNotFound requestId => .ofOutput ((state.take .blockHeader requestId).1, [])
  | .canonicalHeaderAtHeightReceived requestId hash number =>
    .ofOutput (canonicalHeaderAtHeightReceived state requestId hash number)
  | .blockLogsReceived requestId logs => .ofOutput (blockLogsReceived chain state requestId logs)
  | .blockLogsRangeReceived requestId blocks =>
    .ofOutput (blockLogsRangeReceived chain state requestId blocks)
  | .logObserved blockHash logs => .ofOutput (logObserved chain state blockHash logs)
  | .poolMetadataReceived requestId metadata =>
    .ofOutput (poolMetadataReceived chain state requestId metadata)
  | .tokenMetadataReceived requestId metadata =>
    .ofOutput (tokenMetadataReceived chain state requestId metadata)
  | .poolDataReceived requestId pools => .ofOutput (poolDataReceived chain state requestId pools)
  | .requestFailed requestId => .ofOutput (requestFailed state requestId)
  | .tick order => .ofOutput (ticked state order)

def transition [BloomHash] (chain : ChainKey) (state : State) (event : Event) :
    State × List Effect :=
  match transitionOutcome chain state event with
  | .inert state => (state, [])
  | .progressed state effects => (state, effects)

end ArmchairAnalyst.Kernel

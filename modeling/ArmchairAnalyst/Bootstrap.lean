import ArmchairAnalyst.Kernel.PendingRequests

/-!
# The bootstrap of a chain

Before a chain is active its finalized anchor, the pool logs above it, the
metadata of the pools they name and the decimals of their tokens are fetched in
turn. At a deadline the chain is activated with what has been fetched so far.
-/

namespace ArmchairAnalyst.Bootstrap

open Kernel (GetPoolMetadata GetTokenMetadata)

structure BootstrapPolicy where
  tipTrim : UInt64
  deadlineTicks : UInt64

structure FinalizedAnchor where
  hash : BlockHash
  number : UInt64
  deriving DecidableEq

/-- A block of a ranged log answer. -/
structure RangeLogBlock where
  number : UInt64
  hash : BlockHash
  logs : List PoolLog

/-- The keccak hash that names the block bridging the gap between two real ones. -/
class FillerHash where
  fillerHash : BlockHash → BlockHash → BlockHash

/-! ### The seeded graph -/

structure GraphSeed where
  blocks : List SeedBlock

/-- The blocks above the anchor, the first one of each number, in ascending order. -/
def recentBlocks (window : List RangeLogBlock) (anchor : FinalizedAnchor) :
    BTreeMap UInt64 RangeLogBlock :=
  window.foldl (fun recent block =>
    if anchor.number < block.number then recent.insertIfNew block.number block else recent) ∅

def saturatingSub (a b : UInt64) : UInt64 := if b ≤ a then a - b else 0

/-- Links each retained block to the previous one, over a filler where numbers are skipped. -/
def linkBlocks [FillerHash] (previousNumber : UInt64) (previousHash : BlockHash) :
    List (UInt64 × RangeLogBlock) → List SeedBlock
  | [] => []
  | (number, block) :: rest =>
    if number = previousNumber + 1 then
      { hash := block.hash, parent := previousHash, number, logs := block.logs } ::
        linkBlocks number block.hash rest
    else
      let filler := FillerHash.fillerHash previousHash block.hash
      { hash := filler, parent := previousHash, number := number - 1, logs := [] } ::
        { hash := block.hash, parent := filler, number, logs := block.logs } ::
        linkBlocks number block.hash rest

def GraphSeed.fromWindow [FillerHash] (window : List RangeLogBlock) (anchor : FinalizedAnchor)
    (tipTrim : UInt64) : GraphSeed :=
  let recent := recentBlocks window anchor
  match recent.maxKey? with
  | none => ⟨[]⟩
  | some maxNumber =>
    let highestRetained := saturatingSub maxNumber tipTrim
    let retained := recent.toList.filter (fun entry => decide (entry.1 ≤ highestRetained))
    ⟨linkBlocks anchor.number anchor.hash retained⟩

/-! ### Requests -/

structure GetFinalizedHeader where

structure GetPoolCandidatesInRange where
  fromBlock : UInt64
  scanTip : Option UInt64

inductive RequestKind
  | finalizedHeader | poolCandidates | poolMetadata | tokenMetadata
  deriving DecidableEq, Repr

@[reducible] def RequestKind.Payload : RequestKind → Type
  | .finalizedHeader => GetFinalizedHeader
  | .poolCandidates => GetPoolCandidatesInRange
  | .poolMetadata => GetPoolMetadata
  | .tokenMetadata => GetTokenMetadata

abbrev PendingRequests := RequestStore RequestKind.Payload

abbrev IssuedRequest := AnyIssuedRequest RequestKind.Payload

abbrev RequestId := AnyRequestId RequestKind

def PendingRequests.expiryOrder : List RequestKind :=
  [.finalizedHeader, .poolCandidates, .poolMetadata, .tokenMetadata]

def PendingRequests.retryExpired (order : IterationOrder) (requests : PendingRequests)
    (tick : Tick) : PendingRequests × List IssuedRequest :=
  requests.retryAll tick (PendingRequests.expiryOrder.flatMap (fun kind =>
    (requests.expiredRequestIds order kind tick).map (fun id => ⟨kind, id⟩)))

/-! ### Phases -/

/-- The metadata answers, of which the successful ones are the verified pools. -/
structure VerifiedPools where
  metadata : HashMap ProtocolPoolKey PoolMetadataResult

def VerifiedPools.referencedTokens (verified : VerifiedPools) (chain : ChainKey) :
    HashSet TokenAddress :=
  HashSet.collect ((HashMap.values verified.metadata).flatMap (fun result =>
    match result with
    | .ok metadata => [⟨metadata.token0, chain⟩, ⟨metadata.token1, chain⟩]
    | .error _ => []))

def VerifiedPools.intoRegistry (verified : VerifiedPools) (chain : ChainKey) :
    TrustedPoolRegistry :=
  TrustedPoolRegistry.new.withMetadataResults chain verified.metadata

structure BootstrapOutcome where
  anchor : FinalizedAnchor
  poolSnapshots : HashMap PoolRef PoolState
  poolRegistry : TrustedPoolRegistry
  tokenRegistry : TokenRegistry
  seedBlocks : List SeedBlock

inductive Completion
  | ready (outcome : BootstrapOutcome)
  | abandoned

inductive Phase
  | anchoringChain
  | discovering (anchor : FinalizedAnchor) (blocks : List RangeLogBlock)
  | validatingPools (anchor : FinalizedAnchor) (seed : GraphSeed)
  | resolvingTokens (anchor : FinalizedAnchor) (seed : GraphSeed) (verified : VerifiedPools)
  | ready (outcome : BootstrapOutcome)
  | abandoned

structure State where
  pending : PendingRequests
  phase : Phase
  policy : BootstrapPolicy
  startedAt : Tick
  tick : Tick

inductive Event
  | finalizedHeaderReceived (requestId : UInt64) (anchor : FinalizedAnchor)
  | poolCandidatesReceived (requestId : UInt64) (blocks : List RangeLogBlock) (scanTip : UInt64)
      (nextFrom : Option UInt64)
  | poolMetadataReceived (requestId : UInt64)
      (metadata : HashMap ProtocolPoolKey PoolMetadataResult)
  | tokenMetadataReceived (requestId : UInt64)
      (metadata : HashMap TokenAddress TokenMetadataResult)
  | requestFailed (requestId : RequestId)
  | tick (order : IterationOrder)

abbrev Effect := IssuedRequest

/-- Enters a phase with the request that the phase waits for. -/
def State.advance (state : State) (phase : Phase) (kind : RequestKind)
    (payload : kind.Payload) : State × List Effect :=
  let (pending, requestId) := state.pending.issueRequest kind payload state.tick
  ({ state with pending, phase }, [⟨kind, requestId, payload⟩])

def init (policy : BootstrapPolicy) : State × List Effect :=
  State.advance
    { pending := RequestStore.new
      phase := .anchoringChain
      policy
      startedAt := Tick.initial
      tick := Tick.initial } .anchoringChain .finalizedHeader {}

def completion (state : State) : Option Completion :=
  match state.phase with
  | .ready outcome => some (.ready outcome)
  | .abandoned => some .abandoned
  | _ => none

def State.take (state : State) (kind : RequestKind) (requestId : UInt64) :
    State × Option (PendingPayload kind.Payload) :=
  let (pending, taken) := state.pending.takeRequest kind requestId
  ({ state with pending }, taken)

/-- The terminal phase at the deadline, with the facts the current phase has accumulated. -/
def degraded [FillerHash] (chain : ChainKey) (tipTrim : UInt64) : Phase → Phase
  | .anchoringChain => .abandoned
  | .discovering anchor blocks => .ready
      { anchor
        poolSnapshots := ∅
        poolRegistry := TrustedPoolRegistry.new
        tokenRegistry := TokenRegistry.new
        seedBlocks := (GraphSeed.fromWindow blocks anchor tipTrim).blocks }
  | .validatingPools anchor seed => .ready
      { anchor
        poolSnapshots := ∅
        poolRegistry := TrustedPoolRegistry.new
        tokenRegistry := TokenRegistry.new
        seedBlocks := seed.blocks }
  | .resolvingTokens anchor seed verified => .ready
      { anchor
        poolSnapshots := ∅
        poolRegistry := verified.intoRegistry chain
        tokenRegistry := TokenRegistry.new
        seedBlocks := seed.blocks }
  | terminal => terminal

def finalizedHeaderReceived (state : State) (requestId : UInt64) (anchor : FinalizedAnchor) :
    State × List Effect :=
  match state.take .finalizedHeader requestId, state.phase with
  | (state, some _), .anchoringChain =>
    state.advance (.discovering anchor []) .poolCandidates
      { fromBlock := anchor.number, scanTip := none }
  | (state, _), _ => (state, [])

def poolCandidatesReceived [FillerHash] (state : State) (requestId : UInt64)
    (blocks : List RangeLogBlock) (scanTip : UInt64) (nextFrom : Option UInt64) :
    State × List Effect :=
  match state.take .poolCandidates requestId, state.phase with
  | (state, some _), .discovering anchor accumulated =>
    let accumulated := accumulated ++ blocks
    match nextFrom with
    | some fromBlock =>
      state.advance (.discovering anchor accumulated) .poolCandidates
        { fromBlock, scanTip := some scanTip }
    | none =>
      state.advance
        (.validatingPools anchor (GraphSeed.fromWindow accumulated anchor state.policy.tipTrim))
        .poolMetadata
        { at_ := anchor.hash
          candidates := HashSet.collect (accumulated.flatMap (fun block =>
            block.logs.map (·.pool))) }
  | (state, _), _ => (state, [])

def poolMetadataReceived (chain : ChainKey) (state : State) (requestId : UInt64)
    (metadata : HashMap ProtocolPoolKey PoolMetadataResult) : State × List Effect :=
  match state.take .poolMetadata requestId, state.phase with
  | (state, some _), .validatingPools anchor seed =>
    let verified : VerifiedPools := ⟨metadata⟩
    state.advance (.resolvingTokens anchor seed verified) .tokenMetadata
      { at_ := anchor.hash, tokens := verified.referencedTokens chain }
  | (state, _), _ => (state, [])

def tokenMetadataReceived (chain : ChainKey) (state : State) (requestId : UInt64)
    (metadata : HashMap TokenAddress TokenMetadataResult) : State × List Effect :=
  match state.take .tokenMetadata requestId, state.phase with
  | (state, some _), .resolvingTokens anchor seed verified =>
    ({ state with
        phase := .ready
          { anchor
            poolSnapshots := ∅
            poolRegistry := verified.intoRegistry chain
            tokenRegistry := TokenRegistry.new.withMetadataResults metadata
            seedBlocks := seed.blocks } }, [])
  | (state, _), _ => (state, [])

def requestFailed (state : State) (requestId : RequestId) : State × List Effect :=
  let (pending, issued) := state.pending.retry requestId state.tick
  ({ state with pending }, issued.toList)

def ticked [FillerHash] (chain : ChainKey) (state : State) (order : IterationOrder) :
    State × List Effect :=
  let tick := state.tick.next
  match state.phase with
  | .ready _ | .abandoned => ({ state with tick }, [])
  | phase =>
    if state.policy.deadlineTicks ≤ tick.elapsedSince state.startedAt then
      ({ state with tick, phase := degraded chain state.policy.tipTrim phase }, [])
    else
      let (pending, issued) := PendingRequests.retryExpired order state.pending tick
      ({ state with pending, tick }, issued)

def transition [FillerHash] (chain : ChainKey) (state : State) : Event → State × List Effect
  | .finalizedHeaderReceived requestId anchor => finalizedHeaderReceived state requestId anchor
  | .poolCandidatesReceived requestId blocks scanTip nextFrom =>
    poolCandidatesReceived state requestId blocks scanTip nextFrom
  | .poolMetadataReceived requestId metadata =>
    poolMetadataReceived chain state requestId metadata
  | .tokenMetadataReceived requestId metadata =>
    tokenMetadataReceived chain state requestId metadata
  | .requestFailed requestId => requestFailed state requestId
  | .tick order => ticked chain state order

end ArmchairAnalyst.Bootstrap

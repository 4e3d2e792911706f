import ArmchairAnalyst.RequestTracking
import ArmchairAnalyst.Kernel.BlocksGraph
import ArmchairAnalyst.Kernel.PoolRegistry
import ArmchairAnalyst.Kernel.TokenRegistry

/-!
# The kernel's requests
-/

namespace ArmchairAnalyst.Kernel

structure GetBlockLogs where
  blockHash : BlockHash

structure GetBlockHeader where
  blockHash : BlockHash
  deriving DecidableEq

structure GetPoolMetadata where
  at_ : BlockHash
  candidates : HashSet ProtocolPoolKey

structure GetTokenMetadata where
  at_ : BlockHash
  tokens : HashSet TokenAddress

structure GetPoolData where
  at_ : BlockHash
  pools : HashSet PoolRef

structure GetLogsRange where
  fromBlock : UInt64
  toBlock : UInt64
  covered : HashSet BlockHash

def GetLogsRange.ofMissingRange (range : MissingRange) : GetLogsRange where
  fromBlock := range.fromBlock
  toBlock := range.toBlock
  covered := HashSet.collect range.hashes

/-- The block numbers of the inclusive window. -/
def GetLogsRange.numbers (range : GetLogsRange) : List UInt64 :=
  (List.range (range.toBlock.toNat + 1 - range.fromBlock.toNat)).map
    (fun i => range.fromBlock + UInt64.ofNat i)

structure GetCanonicalHeaderAtHeight where
  number : UInt64

inductive RequestKind
  | blockHeader | blockLogs | poolMetadata | tokenMetadata | poolData | logsRange
  | canonicalHeader
  deriving DecidableEq, Repr

@[reducible] def RequestKind.Payload : RequestKind → Type
  | .blockHeader => GetBlockHeader
  | .blockLogs => GetBlockLogs
  | .poolMetadata => GetPoolMetadata
  | .tokenMetadata => GetTokenMetadata
  | .poolData => GetPoolData
  | .logsRange => GetLogsRange
  | .canonicalHeader => GetCanonicalHeaderAtHeight

abbrev PendingRequests := RequestStore RequestKind.Payload

abbrev IssuedRequest := AnyIssuedRequest RequestKind.Payload

abbrev RequestId := AnyRequestId RequestKind

namespace PendingRequests

/-- The payloads of one kind in flight. -/
def payloads (requests : PendingRequests) (kind : RequestKind) : List kind.Payload :=
  (HashMap.values (requests.collection kind)).map (·.payload)

/-- The kinds in the order in which expired requests are retried. -/
def expiryOrder : List RequestKind :=
  [.blockHeader, .blockLogs, .poolMetadata, .tokenMetadata, .poolData, .logsRange,
    .canonicalHeader]

def expiredIds (order : IterationOrder) (requests : PendingRequests) (tick : Tick) :
    List RequestId :=
  expiryOrder.flatMap (fun kind =>
    (requests.expiredRequestIds order kind tick).map (fun id => ⟨kind, id⟩))

def retryExpired (order : IterationOrder) (requests : PendingRequests) (tick : Tick) :
    PendingRequests × List IssuedRequest :=
  requests.retryAll tick (expiredIds order requests tick)

def hasPendingFinalityProbe (requests : PendingRequests) : Bool :=
  !(requests.collection .canonicalHeader).isEmpty

def pendingBlockLogHashes (requests : PendingRequests) : HashSet BlockHash :=
  HashSet.collect ((payloads requests .blockLogs).map (fun payload => payload.blockHash))

def hasPendingHeaderRequest (requests : PendingRequests) (hash : BlockHash) : Bool :=
  (payloads requests .blockHeader).any (fun payload => payload.blockHash == hash)

def pendingPoolMetadataCandidates (requests : PendingRequests) : HashSet ProtocolPoolKey :=
  HashSet.collect ((payloads requests .poolMetadata).flatMap
    (fun payload => payload.candidates.toList))

def pendingTokenMetadataTokens (requests : PendingRequests) : HashSet TokenAddress :=
  HashSet.collect ((payloads requests .tokenMetadata).flatMap
    (fun payload => payload.tokens.toList))

def pendingPoolDataPools (requests : PendingRequests) : HashSet PoolRef :=
  HashSet.collect ((payloads requests .poolData).flatMap (fun payload => payload.pools.toList))

def pendingLogRangeNumbers (requests : PendingRequests) : HashSet UInt64 :=
  HashSet.collect ((payloads requests .logsRange).flatMap (fun payload => payload.numbers))

def hasPendingBlockBackfill (requests : PendingRequests) : Bool :=
  !(requests.collection .blockHeader).isEmpty || !(requests.collection .blockLogs).isEmpty ||
    !(requests.collection .logsRange).isEmpty

/-- Drops every request whose target block is gone. A range survives while one of its
covered blocks does, and the finality probe always does. -/
def retainingBlockTargets (requests : PendingRequests) (retained : HashSet BlockHash) :
    PendingRequests :=
  (((((requests.retain .blockHeader (fun payload => retained.contains payload.blockHash)).retain
    .blockLogs (fun payload => retained.contains payload.blockHash)).retain
    .poolMetadata (fun payload => retained.contains payload.at_)).retain
    .tokenMetadata (fun payload => retained.contains payload.at_)).retain
    .poolData (fun payload => retained.contains payload.at_)).retain
    .logsRange (fun payload => payload.covered.toList.any (fun hash => retained.contains hash))

theorem evolves_retainingBlockTargets (requests : PendingRequests)
    (retained : HashSet BlockHash) :
    RequestStore.Evolves requests [] (retainingBlockTargets requests retained) := by
  refine .trans (.trans (.trans (.trans (.trans (.retain _ _ _) (.retain _ _ _))
    (.retain _ _ _)) (.retain _ _ _)) (.retain _ _ _)) (.retain _ _ _)

/-- A payload is listed when a request in flight carries it. -/
theorem mem_payloads (requests : PendingRequests) (kind : RequestKind) (payload : kind.Payload) :
    payload ∈ payloads requests kind ↔ ∃ id, requests.InFlight ⟨kind, id, payload⟩ := by
  simp only [payloads, List.mem_map, HashMap.mem_values, RequestStore.InFlight]
  constructor
  · rintro ⟨pending, ⟨id, found⟩, rfl⟩
    exact ⟨id, pending.dispatchedAt, found⟩
  · rintro ⟨id, tick, found⟩
    exact ⟨⟨payload, tick⟩, ⟨id, found⟩, rfl⟩

end PendingRequests

end ArmchairAnalyst.Kernel

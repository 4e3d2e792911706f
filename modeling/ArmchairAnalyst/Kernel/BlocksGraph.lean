import ArmchairAnalyst.Library.RootedPath
import ArmchairAnalyst.PoolLog

/-!
# The graph of recent blocks

The tree of non-finalized blocks above the finalized anchor. A block is connected
when its ancestry down to the anchor is present and pending otherwise. Loops that
the program guards with a visited set, or runs until a worklist is empty, take
the number of nodes as their bound.
-/

namespace ArmchairAnalyst

structure AnchorId where
  hash : BlockHash
  number : UInt64
  deriving DecidableEq, Repr

/-- A block hash that names a connected node. -/
abbrev ConnectedHash := BlockHash

inductive AnchoredRef
  | anchor
  | block (hash : ConnectedHash)
  deriving DecidableEq, Repr

/-- The logs of a block, with how far they can be trusted. -/
inductive BlockLogs
  | unknown
  | streamed (logs : BTreeMap UInt64 PoolLog)
  | complete (logs : BTreeMap UInt64 PoolLog)

structure BlockData where
  number : UInt64
  logsBloom : Option Bloom
  logs : BlockLogs

structure ConnectedNode where
  parent : AnchoredRef
  data : BlockData

structure PendingNode where
  parent : BlockHash
  data : BlockData

inductive Node
  | connected (node : ConnectedNode)
  | pending (node : PendingNode)

structure BlocksGraph where
  anchor : AnchorId
  nodes : HashMap BlockHash Node
  observedHead : BlockHash

/-- The outcome of an admission. -/
inductive Admission
  | admitted
  | selfParent
  | anchorReadmitted
  | duplicateBlock
  | conflictingParent
  | pendingBufferFull
  deriving DecidableEq, Repr

/-- An inclusive range of block numbers with the hashes of its holes. -/
structure MissingRange where
  fromBlock : UInt64
  toBlock : UInt64
  hashes : List BlockHash

/-- Which logs a fold may read. -/
inductive Authority
  | requireComplete
  | allowStreamed
  deriving DecidableEq, Repr

abbrev BloomPatterns := List Bloom

def BloomPatterns.of [BloomHash] (addresses : HashSet Address) : BloomPatterns :=
  addresses.toList.map BloomHash.accrue

/-- Whether a block may carry a log of a watched address. A block without a bloom
cannot be cleared. -/
def bloomMayTouch (bloom : Option Bloom) (watched : BloomPatterns) : Bool :=
  if watched.isEmpty then false
  else
    match bloom with
    | some bloom => watched.any (fun pattern => Bloom.contains bloom pattern)
    | none => true

def keyByLogIndex (logs : List PoolLog) : BTreeMap UInt64 PoolLog :=
  Std.ExtTreeMap.ofList (logs.map (fun log => (log.logIndex, log))) compare

def readableLogs : BlockLogs → Authority → Option (BTreeMap UInt64 PoolLog)
  | .complete logs, _ => some logs
  | .streamed logs, .allowStreamed => some logs
  | _, _ => none

/-- The logs a fold of this authority reads from a block, in index order. -/
def readLogs (logs : BlockLogs) (authority : Authority) : List PoolLog :=
  match readableLogs logs authority with
  | some logs => HashMap.values logs
  | none => []

/-- The contract of each v3 pool and, when there is a v4 pool, the chain's manager. -/
def watchedAddresses (verified : HashSet PoolRef) (v4Manager : Option Address) :
    HashSet Address :=
  HashSet.collect (verified.toList.filterMap (fun pool =>
    match pool.key with
    | .uniswapV3 address => some address
    | .uniswapV4 _ => v4Manager))

def connectedParentHash (parent : AnchoredRef) (anchor : BlockHash) : BlockHash :=
  match parent with
  | .anchor => anchor
  | .block hash => hash

/-- The parent within the tree, none for a child of the anchor. -/
def AnchoredRef.up : AnchoredRef → Option BlockHash
  | .anchor => none
  | .block hash => some hash

def Node.data : Node → BlockData
  | .connected node => node.data
  | .pending node => node.data

def Node.mapData (f : BlockData → BlockData) : Node → Node
  | .connected node => .connected { node with data := f node.data }
  | .pending node => .pending { node with data := f node.data }

def Node.isPending : Node → Bool
  | .connected _ => false
  | .pending _ => true

def BlockData.isUnknown (data : BlockData) : Bool :=
  match data.logs with
  | .unknown => true
  | _ => false

def BlockData.candidates (data : BlockData) : HashSet ProtocolPoolKey :=
  match data.logs with
  | .unknown => ∅
  | .streamed logs | .complete logs => HashSet.collect ((HashMap.values logs).map (·.pool))

/-- A block of the bootstrap window: it has no header, and its logs are authoritative. -/
structure SeedBlock where
  hash : BlockHash
  parent : BlockHash
  number : UInt64
  logs : List PoolLog

namespace BlocksGraph

def maxPendingBlocks : Nat := 1024

def new (anchor : BlockHash) (anchorNumber : UInt64) : BlocksGraph where
  anchor := { hash := anchor, number := anchorNumber }
  nodes := ∅
  observedHead := anchor

def connected (graph : BlocksGraph) (hash : BlockHash) : Option ConnectedNode :=
  match graph.nodes[hash]? with
  | some (.connected node) => some node
  | _ => none

def pendingCount (graph : BlocksGraph) : Nat :=
  (graph.nodes.filter (fun _ node => node.isPending)).size

def nodeParentHash (graph : BlocksGraph) : Node → BlockHash
  | .connected node => connectedParentHash node.parent graph.anchor.hash
  | .pending node => node.parent

/-! ### Admission -/

/-- The pending nodes whose raw parent is a given block. -/
def pendingChildren (nodes : HashMap BlockHash Node) (hash : BlockHash) : List BlockHash :=
  nodes.toList.filterMap (fun entry =>
    match entry.2 with
    | .pending node => if node.parent = hash then some entry.1 else none
    | .connected _ => none)

def promoteChild (parent : ConnectedHash) (nodes : HashMap BlockHash Node)
    (child : BlockHash) : HashMap BlockHash Node :=
  match nodes[child]? with
  | some (.pending node) =>
    (nodes.erase child).insert child (.connected { parent := .block parent, data := node.data })
  | _ => nodes.erase child

/-- The worklist is a stack: children are pushed in turn and the last one is popped first. -/
def promoteFrontier : Nat → HashMap BlockHash Node → List ConnectedHash → HashMap BlockHash Node
  | 0, nodes, _ => nodes
  | _ + 1, nodes, [] => nodes
  | fuel + 1, nodes, hash :: frontier =>
    let children := pendingChildren nodes hash
    promoteFrontier fuel (children.foldl (promoteChild hash) nodes) (children.reverse ++ frontier)

/-- Connects every pending descendant of a newly connected block. -/
def promoteReachable (graph : BlocksGraph) (newlyConnected : ConnectedHash) : BlocksGraph :=
  { graph with
    nodes := promoteFrontier (graph.nodes.size + 1) graph.nodes [newlyConnected] }

/-- Whether a block with this parent lands connected. -/
def connects (graph : BlocksGraph) (parent : BlockHash) : Bool :=
  parent == graph.anchor.hash || (graph.connected parent).isSome

def withDataCapped (graph : BlocksGraph) (hash parent : BlockHash) (data : BlockData)
    (maxPending : Nat) : BlocksGraph × Admission :=
  if hash = parent then (graph, .selfParent)
  else if hash = graph.anchor.hash then (graph, .anchorReadmitted)
  else
    match graph.nodes[hash]? with
    | some existing =>
      (graph, if graph.nodeParentHash existing = parent then .duplicateBlock
        else .conflictingParent)
    | none =>
      if graph.connects parent then
        let parentRef := if parent = graph.anchor.hash then .anchor else .block parent
        let nodes := graph.nodes.insert hash (.connected { parent := parentRef, data })
        (promoteReachable { graph with nodes } hash, .admitted)
      else if maxPending ≤ graph.pendingCount then (graph, .pendingBufferFull)
      else
        let nodes := graph.nodes.insert hash (.pending { parent, data })
        ({ graph with nodes }, .admitted)

def withBlockCapped (graph : BlocksGraph) (hash parent : BlockHash) (number : UInt64)
    (bloom : Bloom) (maxPending : Nat) : BlocksGraph × Admission :=
  graph.withDataCapped hash parent { number, logsBloom := some bloom, logs := .unknown } maxPending

def fromSeed (anchor : BlockHash) (anchorNumber : UInt64) (blocks : List SeedBlock) :
    BlocksGraph :=
  blocks.foldl (fun graph block =>
    (graph.withDataCapped block.hash block.parent
      { number := block.number, logsBloom := none, logs := .complete (keyByLogIndex block.logs) }
      maxPendingBlocks).1) (BlocksGraph.new anchor anchorNumber)

def withObservedHead (graph : BlocksGraph) (hash : BlockHash) : BlocksGraph :=
  if hash = graph.anchor.hash ∨ hash ∈ graph.nodes then { graph with observedHead := hash }
  else graph

/-! ### Logs -/

/-- Changes the payload of a present block. -/
def modifyData (graph : BlocksGraph) (hash : BlockHash) (f : BlockData → BlockData) :
    BlocksGraph :=
  match graph.nodes[hash]? with
  | some node => { graph with nodes := graph.nodes.insert hash (node.mapData f) }
  | none => graph

/-- Streamed logs grow a streamed set and never replace an authoritative one. -/
def streamInto (logs : List PoolLog) (data : BlockData) : BlockData :=
  match data.logs with
  | .complete _ => data
  | .streamed existing => { data with logs := .streamed (existing ∪ keyByLogIndex logs) }
  | .unknown => { data with logs := .streamed (keyByLogIndex logs) }

def withStreamedLogs (graph : BlocksGraph) (hash : BlockHash) (logs : List PoolLog) :
    BlocksGraph :=
  graph.modifyData hash (streamInto logs)

/-- Whether authoritative logs differ in their indices from what was streamed. -/
def streamedLogMismatch (graph : BlocksGraph) (hash : BlockHash) (logs : List PoolLog) : Bool :=
  match graph.nodes[hash]? with
  | none => false
  | some node =>
    match node.data.logs with
    | .streamed existing =>
      decide (HashSet.collect existing.keys ≠ HashSet.collect (logs.map (·.logIndex)))
    | .unknown | .complete _ => false

def completeWith (logs : List PoolLog) (data : BlockData) : BlockData :=
  { data with logs := .complete (keyByLogIndex logs) }

def withCompleteLogs (graph : BlocksGraph) (hash : BlockHash) (logs : List PoolLog) :
    BlocksGraph × Bool :=
  (graph.modifyData hash (completeWith logs), graph.streamedLogMismatch hash logs)

/-! ### Walks -/

/-- Where a connected node hangs in the tree below the anchor. -/
def connectedUp (graph : BlocksGraph) (hash : BlockHash) : Option (Option BlockHash) :=
  (graph.connected hash).map (·.parent.up)

/-- The chain from the anchor to a connected block; empty for any other block. -/
def connectedOldestToNewest (graph : BlocksGraph) (target : ConnectedHash) :
    List ConnectedHash :=
  (walkUp graph.connectedUp (graph.nodes.size + 1) target).reverse

def canonicalOldestToNewest (graph : BlocksGraph) : List ConnectedHash :=
  match graph.connected graph.observedHead with
  | some _ => graph.connectedOldestToNewest graph.observedHead
  | none => []

/-- The gap roots: absent parents of pending nodes, sorted and without duplicates. -/
def missingParents (graph : BlocksGraph) : List BlockHash :=
  (HashSet.collect ((HashMap.values graph.nodes).filterMap (fun node =>
    match node with
    | .pending pending =>
      if pending.parent ≠ graph.anchor.hash ∧ pending.parent ∉ graph.nodes then
        some pending.parent
      else none
    | .connected _ => none))).toList

/-- The walk towards the anchor over connected and pending nodes; `none` on a cycle. -/
def presentChain (graph : BlocksGraph) :
    Nat → HashSet BlockHash → BlockHash → Option (List (BlockHash × BlockData))
  | 0, _, _ => none
  | fuel + 1, visited, current =>
    if current = graph.anchor.hash then some []
    else if current ∈ visited then none
    else
      match graph.nodes[current]? with
      | none => some []
      | some node =>
        (presentChain graph fuel (visited.insert current) (graph.nodeParentHash node)).map
          ((current, node.data) :: ·)

/-- The present chain below the observed head, newest first, empty on a cycle. -/
def presentChainFromHead (graph : BlocksGraph) : List (BlockHash × BlockData) :=
  (graph.presentChain (graph.nodes.size + 1) ∅ graph.observedHead).getD []

def unknownLogHoleHashes [BloomHash] (graph : BlocksGraph) (trusted : HashSet Address)
    (exclude : HashSet BlockHash) (minDepth : Nat) : List BlockHash :=
  let patterns := BloomPatterns.of trusted
  (graph.presentChainFromHead.zipIdx.filter (fun entry =>
    decide (minDepth ≤ entry.2) && entry.1.2.isUnknown &&
      !exclude.contains entry.1.1 && bloomMayTouch entry.1.2.logsBloom patterns)).map (·.1.1)

/-- The pools named by stored logs on the present chain, one non-empty set per block. -/
def poolLogCandidatesFromHead (graph : BlocksGraph) :
    List (BlockHash × HashSet ProtocolPoolKey) :=
  graph.presentChainFromHead.filterMap (fun entry =>
    let candidates := entry.2.candidates
    if candidates.isEmpty then none else some (entry.1, candidates))

/-- The number of present blocks from a block down to a reference; `none` off its chain. -/
def distance (graph : BlocksGraph) (reference : BlockHash) :
    Nat → HashSet BlockHash → BlockHash → Option Nat
  | 0, _, _ => none
  | fuel + 1, visited, current =>
    if current = reference then some 0
    else if current ∈ visited then none
    else
      match graph.nodes[current]? with
      | none => none
      | some node =>
        (distance graph reference fuel (visited.insert current) (graph.nodeParentHash node)).map
          (· + 1)

def distanceFromHead (graph : BlocksGraph) (reference : BlockHash) : Option Nat :=
  graph.distance reference (graph.nodes.size + 1) ∅ graph.observedHead

def nodeHashes (graph : BlocksGraph) : HashSet BlockHash := HashMap.keySet graph.nodes

def isPending (graph : BlocksGraph) (hash : BlockHash) : Bool :=
  match graph.nodes[hash]? with
  | some node => node.isPending
  | none => false

def connectedPathData (graph : BlocksGraph) (target : ConnectedHash) : List BlockData :=
  (graph.connectedOldestToNewest target).filterMap (fun hash =>
    (graph.connected hash).map (·.data))

/-- The target when it is a connected block on the canonical chain. -/
def canonicalConnectedTarget (graph : BlocksGraph) (target : BlockHash) : Option ConnectedHash :=
  match graph.connected target with
  | none => none
  | some _ => graph.canonicalOldestToNewest.find? (· == target)

/-! ### Missing ranges -/

def isHole (watched : BloomPatterns) (excludeNumbers : HashSet UInt64) (data : BlockData) :
    Bool :=
  (readableLogs data.logs .requireComplete).isNone && bloomMayTouch data.logsBloom watched &&
    !excludeNumbers.contains data.number

/-- Appends a hole to the last range when it is adjacent, and opens a range otherwise. -/
def pushHole (ranges : List MissingRange) (hash : BlockHash) (number : UInt64) :
    List MissingRange :=
  match ranges.getLast? with
  | some last =>
    if number = last.toBlock + 1 then
      ranges.dropLast ++ [{ last with toBlock := number, hashes := last.hashes ++ [hash] }]
    else ranges ++ [{ fromBlock := number, toBlock := number, hashes := [hash] }]
  | none => [{ fromBlock := number, toBlock := number, hashes := [hash] }]

def missingRangesAlong (graph : BlocksGraph) (watched : BloomPatterns)
    (excludeNumbers : HashSet UInt64) :
    List MissingRange → List ConnectedHash → List MissingRange
  | ranges, [] => ranges
  | ranges, hash :: rest =>
    match graph.connected hash with
    | none => ranges
    | some node =>
      if isHole watched excludeNumbers node.data then
        missingRangesAlong graph watched excludeNumbers (pushHole ranges hash node.data.number) rest
      else missingRangesAlong graph watched excludeNumbers ranges rest

def missingCompleteRangesTo [BloomHash] (graph : BlocksGraph) (target : BlockHash)
    (verified : HashSet PoolRef) (v4Manager : Option Address) (excludeNumbers : HashSet UInt64) :
    List MissingRange :=
  match graph.canonicalConnectedTarget target with
  | none => []
  | some target =>
    graph.missingRangesAlong (BloomPatterns.of (watchedAddresses verified v4Manager))
      excludeNumbers [] (graph.connectedOldestToNewest target)

/-! ### Folds -/

/-- The logs a fold reads on the path to a block, in fold order. -/
def readablePathLogs (graph : BlocksGraph) (target : ConnectedHash) (authority : Authority) :
    List PoolLog :=
  (graph.connectedPathData target).flatMap (fun data => readLogs data.logs authority)

def pushEvent (buckets : HashMap ProtocolPoolKey (List PoolLogEvent)) (log : PoolLog) :
    HashMap ProtocolPoolKey (List PoolLogEvent) :=
  buckets.insert log.pool (buckets[log.pool]?.getD [] ++ [log.event])

def foldBasePool (buckets : HashMap ProtocolPoolKey (List PoolLogEvent))
    (overlay : HashMap PoolRef PoolState) (entry : PoolRef × PoolState) :
    HashMap PoolRef PoolState :=
  match buckets[entry.1.key]? with
  | some run =>
    match derivePoolState (some entry.2) run with
    | some folded => overlay.insert entry.1 folded
    | none => overlay
  | none => overlay

def seedVerifiedPool (buckets : HashMap ProtocolPoolKey (List PoolLogEvent))
    (base overlay : HashMap PoolRef PoolState) (pool : PoolRef) : HashMap PoolRef PoolState :=
  if pool ∈ base then overlay
  else
    match buckets[pool.key]? with
    | some run =>
      match derivePoolState none run with
      | some folded => overlay.insert pool folded
      | none => overlay
    | none => overlay

/-- The pools whose state the path to a block changes, folded over a base. -/
def foldedOverlay (graph : BlocksGraph) (base : HashMap PoolRef PoolState)
    (verified : HashSet PoolRef) (target : ConnectedHash) (authority : Authority) :
    HashMap PoolRef PoolState :=
  let buckets := (graph.readablePathLogs target authority).foldl pushEvent ∅
  let overlay := base.toList.foldl (foldBasePool buckets) ∅
  verified.toList.foldl (seedVerifiedPool buckets base) overlay

def foldedPoolStates (graph : BlocksGraph) (base : HashMap PoolRef PoolState)
    (verified : HashSet PoolRef) (target : ConnectedHash) (authority : Authority) :
    HashMap PoolRef PoolState :=
  base ∪ graph.foldedOverlay base verified target authority

/-- Whether a fold of this authority cannot pass a block. -/
def blocksFold (watched : BloomPatterns) (authority : Authority) (data : BlockData) : Bool :=
  (readableLogs data.logs authority).isNone && bloomMayTouch data.logsBloom watched

def foldableFrontierAlong (graph : BlocksGraph) (watched : BloomPatterns)
    (authority : Authority) : ConnectedHash → List ConnectedHash → ConnectedHash
  | frontier, [] => frontier
  | frontier, hash :: rest =>
    match graph.connected hash with
    | none => frontier
    | some node =>
      if blocksFold watched authority node.data then frontier
      else foldableFrontierAlong graph watched authority hash rest

/-- The last block before the first one the fold cannot pass, or the anchor. -/
def foldableFrontier (graph : BlocksGraph) (target : ConnectedHash) (watched : BloomPatterns)
    (authority : Authority) : ConnectedHash :=
  graph.foldableFrontierAlong watched authority graph.anchor.hash
    (graph.connectedOldestToNewest target)

def projectedFoldFrontier [BloomHash] (graph : BlocksGraph) (verified : HashSet PoolRef)
    (v4Manager : Option Address) : Option ConnectedHash :=
  match graph.connected graph.observedHead with
  | none => none
  | some _ =>
    some (graph.foldableFrontier graph.observedHead
      (BloomPatterns.of (watchedAddresses verified v4Manager)) .allowStreamed)

def projectedPoolStates [BloomHash] (graph : BlocksGraph) (base : HashMap PoolRef PoolState)
    (verified : HashSet PoolRef) (v4Manager : Option Address) :
    HashMap PoolRef PoolState × BlockHash :=
  match graph.projectedFoldFrontier verified v4Manager with
  | none => (∅, graph.anchor.hash)
  | some frontier => (graph.foldedOverlay base verified frontier .allowStreamed, frontier)

def projectedPoolStatesIfChanged [BloomHash] (graph : BlocksGraph)
    (base : HashMap PoolRef PoolState) (verified : HashSet PoolRef) (v4Manager : Option Address)
    (lastDispatched : Option BlockHash) : Option (HashMap PoolRef PoolState × BlockHash) :=
  let frontier := graph.projectedFoldFrontier verified v4Manager
  let frontierHash := frontier.getD graph.anchor.hash
  if lastDispatched = some frontierHash then none
  else
    let overlay :=
      match frontier with
      | some frontier => graph.foldedOverlay base verified frontier .allowStreamed
      | none => ∅
    some (overlay, frontierHash)

/-! ### Finalization -/

/-- Whether the connected ancestry of a block passes through another one. -/
def connectedDescendsFrom (nodes : HashMap BlockHash Node) (ancestor : BlockHash) :
    Nat → HashSet BlockHash → BlockHash → Bool
  | 0, _, _ => false
  | fuel + 1, visited, current =>
    if current = ancestor then true
    else if current ∈ visited then false
    else
      match nodes[current]? with
      | some (.connected node) =>
        match node.parent with
        | .anchor => false
        | .block parent =>
          connectedDescendsFrom nodes ancestor fuel (visited.insert current) parent
      | _ => false

/-- The connected proper descendants of the new anchor survive a re-root. -/
def survives (nodes : HashMap BlockHash Node) (newAnchor hash : BlockHash) (node : Node) : Bool :=
  !node.isPending && hash != newAnchor &&
    connectedDescendsFrom nodes newAnchor (nodes.size + 1) ∅ hash

/-- A child of the new anchor hangs under the root after the re-root. -/
def reroot (newAnchor : BlockHash) : Node → Node
  | .connected node =>
    if node.parent = .block newAnchor then .connected { node with parent := .anchor }
    else .connected node
  | .pending node => .pending node

def reanchoredTo (graph : BlocksGraph) (newAnchor : ConnectedHash)
    (base : HashMap PoolRef PoolState) (verified : HashSet PoolRef) :
    BlocksGraph × HashMap PoolRef PoolState :=
  if newAnchor = graph.anchor.hash then (graph, base)
  else
    match graph.connected newAnchor with
    | none => (graph, base)
    | some node =>
      let snapshot := graph.foldedPoolStates base verified newAnchor .requireComplete
      let nodes := (graph.nodes.filter (survives graph.nodes newAnchor)).map
        (fun _ node => reroot newAnchor node)
      let observedHead :=
        if graph.observedHead = newAnchor ∨ graph.observedHead ∈ nodes then graph.observedHead
        else newAnchor
      ({ anchor := { hash := newAnchor, number := node.data.number }, nodes, observedHead },
        snapshot)

/-- Advances the anchor towards a target as far as the path to it can be folded. -/
def finalizedTo [BloomHash] (graph : BlocksGraph) (target : BlockHash)
    (base : HashMap PoolRef PoolState) (verified : HashSet PoolRef)
    (v4Manager : Option Address) : BlocksGraph × HashMap PoolRef PoolState :=
  match graph.canonicalConnectedTarget target with
  | none => (graph, base)
  | some target =>
    let frontier := graph.foldableFrontier target
      (BloomPatterns.of (watchedAddresses verified v4Manager)) .requireComplete
    graph.reanchoredTo frontier base verified

end BlocksGraph

end ArmchairAnalyst

import ArmchairAnalyst.Kernel.FinalizationProofs
import ArmchairAnalyst.Kernel.TrackedPools

/-!
# The finalized base is the truth at the anchor

A ground truth assigns every block hash its header, its pool logs and the state of
every pool after it. When headers and answers are true, streamed logs may be
anything: whatever reaches the base was folded from authoritative logs, or from
blocks whose bloom proves that no tracked pool was touched.
-/

namespace ArmchairAnalyst

/-! ### Self-seeded runs -/

/-- A run that seeds itself ends in the same state whatever it starts from. -/
theorem foldEvents_selfSeeded {base : Option PoolState} {events : List PoolLogEvent}
    {state : PoolState} {after : Option PoolState}
    (seeded : foldEvents none events = some (some state))
    (folded : foldEvents base events = some after) : after = some state := by
  induction events generalizing base with
  | nil => simp at seeded
  | cons event events inductionHypothesis =>
    obtain ⟨middle, first, rest⟩ := Option.bind_eq_some_iff.mp seeded
    obtain ⟨middle', first', rest'⟩ := Option.bind_eq_some_iff.mp folded
    cases event with
    | initializePool sqrtPriceX96 tick =>
      obtain rfl := Option.some.inj first
      obtain rfl := Option.some.inj first'
      exact Option.some.inj (rest'.symm.trans rest)
    | swap sqrtPriceX96 tick liquidity =>
      obtain rfl := Option.some.inj first
      obtain rfl := Option.some.inj first'
      exact Option.some.inj (rest'.symm.trans rest)
    | mint tickLower tickUpper amount =>
      obtain rfl := Option.some.inj first
      exact inductionHypothesis rest rest'
    | burn tickLower tickUpper amount =>
      obtain rfl := Option.some.inj first
      exact inductionHypothesis rest rest'

/-- Every pool of a chain is watched under some address. -/
theorem watchedAddress_isSome (chain : ChainKey) (pool : PoolRef) :
    ∃ address, watchedAddress (poolManagerAddress chain) pool = some address := by
  unfold watchedAddress
  cases pool.key with
  | uniswapV3 address => exact ⟨address, rfl⟩
  | uniswapV4 poolId => cases chain <;> exact ⟨_, rfl⟩

namespace Kernel

/-- True headers, logs and pool states. The bloom of a block announces the emitter of
each of its logs, and a pool's states are linked by folds that do not overflow. -/
structure GroundTruth [BloomHash] (chain : ChainKey) where
  parent : BlockHash → BlockHash
  number : BlockHash → UInt64
  logsBloom : BlockHash → Bloom
  logs : BlockHash → BTreeMap UInt64 PoolLog
  state : BlockHash → PoolRef → Option PoolState
  announced : ∀ hash, ∀ log ∈ HashMap.values (logs hash), ∀ pool : PoolRef, pool.key = log.pool →
    ∀ address, watchedAddress (poolManagerAddress chain) pool = some address →
      Bloom.contains (logsBloom hash) (BloomHash.accrue address) = true
  derived : ∀ hash pool, state hash pool = derivePoolState (state (parent hash) pool)
    (eventsFor pool.key (HashMap.values (logs hash)))
  noOverflow : ∀ hash (pool : PoolRef), foldEvents (state (parent hash) pool)
    (eventsFor pool.key (HashMap.values (logs hash))) ≠ none

namespace GroundTruth

section

variable [BloomHash] {chain : ChainKey} (truth : GroundTruth chain)

/-- The events that agree with the truth. Streamed logs, finality observations, metadata
and canonical headers are unrestricted, an answer only counts for the payload in flight. -/
def Allows (state : State) : Event → Prop
  | .headObserved hash parentHash logsBloom number =>
    parentHash = truth.parent hash ∧ logsBloom = truth.logsBloom hash ∧
      number = truth.number hash
  | .blockHeaderReceived _ hash parentHash logsBloom number =>
    parentHash = truth.parent hash ∧ logsBloom = truth.logsBloom hash ∧
      number = truth.number hash
  | .blockLogsReceived requestId logs =>
    ∀ payload, state.pendingRequests.InFlight ⟨.blockLogs, requestId, payload⟩ →
      keyByLogIndex logs = truth.logs payload.blockHash
  | .blockLogsRangeReceived requestId blocks =>
    ∀ payload, state.pendingRequests.InFlight ⟨.logsRange, requestId, payload⟩ →
      (∀ block ∈ blocks, keyByLogIndex block.2 = truth.logs block.1) ∧
      ∀ hash ∈ payload.covered, truth.logs hash ≠ ∅ → hash ∈ blocks.map Prod.fst
  | .poolDataReceived requestId pools =>
    ∀ payload, state.pendingRequests.InFlight ⟨.poolData, requestId, payload⟩ →
      ∀ pool poolState, pools[pool]? = some (.ok poolState) →
        pool ∈ payload.pools ∧ truth.state payload.at_ pool = some poolState
  | _ => True

/-! ### True paths -/

/-- The fold of a block's true logs leads from its parent's state to its own. -/
theorem folds (hash : BlockHash) (pool : PoolRef) :
    foldEvents (truth.state (truth.parent hash) pool)
      (eventsFor pool.key (HashMap.values (truth.logs hash))) = some (truth.state hash pool) := by
  obtain ⟨after, folded⟩ := Option.ne_none_iff_exists'.mp (truth.noOverflow hash pool)
  rw [truth.derived hash pool, derivePoolState, folded]
  rfl

/-- The true events of a pool in a list of blocks. -/
def events (pool : PoolRef) (hashes : List BlockHash) : List PoolLogEvent :=
  hashes.flatMap (fun hash => eventsFor pool.key (HashMap.values (truth.logs hash)))

/-- What the graph stores about a block is true. -/
def Agrees (hash parent : BlockHash) (data : BlockData) : Prop :=
  parent = truth.parent hash ∧ data.logsBloom = some (truth.logsBloom hash) ∧
    ∀ logs, data.logs = .complete logs → logs = truth.logs hash

/-- The true events of a connected path lead from the anchor's state to the block's. -/
theorem folds_path {graph : BlocksGraph} (agrees : BlocksGraph.AllBlocks truth.Agrees graph)
    {hash : BlockHash} {path : List BlockHash} (rooted : RootedPath graph.connectedUp hash path)
    (pool : PoolRef) :
    foldEvents (truth.state graph.anchor.hash pool) (truth.events pool path.reverse) =
      some (truth.state hash pool) := by
  induction rooted with
  | @root hash attached =>
    obtain ⟨node, found⟩ := (BlocksGraph.connectedUp_isSome graph hash).mp (by simp [attached])
    have parent := (agrees hash _ found).1
    rw [BlocksGraph.connectedUp_of_connected found] at attached
    have atRoot : node.parent = .anchor := by
      cases shape : node.parent with
      | anchor => rfl
      | block p => simp [shape, AnchoredRef.up] at attached
    have same : graph.anchor.hash = truth.parent hash := by
      simpa [BlocksGraph.nodeParentHash, atRoot, connectedParentHash] using parent
    rw [same]
    simpa [events] using truth.folds hash pool
  | @child hash p path attached higher inductionHypothesis =>
    obtain ⟨node, found⟩ := (BlocksGraph.connectedUp_isSome graph hash).mp (by simp [attached])
    have parent := (agrees hash _ found).1
    rw [BlocksGraph.connectedUp_of_connected found] at attached
    have below : node.parent = .block p := by
      cases shape : node.parent with
      | anchor => simp [shape, AnchoredRef.up] at attached
      | block q => simpa [shape, AnchoredRef.up] using attached
    have same : p = truth.parent hash := by
      simpa [BlocksGraph.nodeParentHash, below, connectedParentHash] using parent
    have split : truth.events pool (hash :: path).reverse =
        truth.events pool path.reverse ++
          eventsFor pool.key (HashMap.values (truth.logs hash)) := by
      simp [events]
    rw [split, foldEvents_append, inductionHypothesis, same]
    exact truth.folds hash pool

/-- A block that does not stop the authoritative fold shows it the true events of every
tracked pool. -/
theorem eventsFor_blockReads {graph : BlocksGraph}
    (agrees : BlocksGraph.AllBlocks truth.Agrees graph) {verified : HashSet PoolRef}
    {hash : BlockHash}
    (passes : graph.stopsAt
      (BloomPatterns.of (watchedAddresses verified (poolManagerAddress chain)))
      .requireComplete hash = false)
    {pool : PoolRef} (tracked : pool ∈ verified) :
    eventsFor pool.key (graph.blockReads .requireComplete hash) =
      eventsFor pool.key (HashMap.values (truth.logs hash)) := by
  unfold BlocksGraph.stopsAt at passes
  cases found : graph.connected hash with
  | none => simp [found] at passes
  | some node =>
    obtain ⟨-, bloom, complete⟩ := agrees hash _
      ((BlocksGraph.connected_eq_some graph hash node).mp found)
    simp only [found, BlocksGraph.blocksFold] at passes
    by_cases readable : (readableLogs node.data.logs .requireComplete).isNone
    · have clear : bloomMayTouch node.data.logsBloom
          (BloomPatterns.of (watchedAddresses verified (poolManagerAddress chain))) = false := by
        simpa [readable] using passes
      have unread : graph.blockReads .requireComplete hash = [] := by
        simp only [BlocksGraph.blockReads, found, readLogs, Option.isNone_iff_eq_none.mp readable]
      rw [unread, eventsFor_nil]
      symm
      apply eventsFor_eq_nil
      intro log membership samePool
      obtain ⟨address, watches⟩ := watchedAddress_isSome chain pool
      have contained := truth.announced hash log membership pool samePool.symm address watches
      have touched := bloomMayTouch_of_contains
        ((mem_watchedAddresses verified _ address).mpr ⟨pool, tracked, watches⟩) contained
      have header : node.data.logsBloom = some (truth.logsBloom hash) := bloom
      rw [header, touched] at clear
      simp at clear
    · cases stored : node.data.logs with
      | unknown => simp [stored, readableLogs] at readable
      | streamed logs => simp [stored, readableLogs] at readable
      | complete logs =>
        obtain rfl := complete logs stored
        simp [BlocksGraph.blockReads, found, stored, readLogs, readableLogs]

/-! ### True blocks -/

/-- Graph and base agree with the truth, and only tracked pools have a base. -/
structure Holds (registry : TrustedPoolRegistry) (blocks : Blocks) : Prop where
  wellFormed : blocks.graph.WellFormed
  agrees : BlocksGraph.AllBlocks truth.Agrees blocks.graph
  base : ∀ pool poolState, blocks.finalizedSnapshot[pool]? = some poolState →
    pool ∈ registry.verifiedPools chain ∧
      truth.state blocks.graph.anchor.hash pool = some poolState

variable {truth}

theorem Holds.finalize {registry : TrustedPoolRegistry} {blocks : Blocks}
    (held : truth.Holds registry blocks) (target : BlockHash) :
    truth.Holds registry (blocks.update chain registry (.finalize target)) := by
  have wellFormed := held.wellFormed.finalizedTo target blocks.finalizedSnapshot
    (registry.verifiedPools chain) (poolManagerAddress chain)
  have agrees := held.agrees.finalizedTo held.wellFormed target blocks.finalizedSnapshot
    (registry.verifiedPools chain) (poolManagerAddress chain)
  refine ⟨wellFormed, agrees, ?_⟩
  simp only [Blocks.update]
  rcases BlocksGraph.finalizedTo_cases held.wellFormed target blocks.finalizedSnapshot
    (registry.verifiedPools chain) (poolManagerAddress chain) with
    idle | ⟨newAnchor, node, older, newer, finalizes, moved⟩
  · rw [idle]
    exact held.base
  · rw [moved]
    intro pool poolState found
    have anchored : (blocks.graph.rerooted newAnchor node).anchor.hash = newAnchor := rfl
    simp only at found
    rw [anchored]
    rw [BlocksGraph.getElem?_foldedPoolStates] at found
    have rooted : RootedPath blocks.graph.connectedUp newAnchor (older ++ [newAnchor]).reverse := by
      have whole := finalizes.rooted
      have reversed : (older ++ newAnchor :: newer).reverse =
          newer.reverse ++ newAnchor :: older.reverse := by simp
      rw [reversed] at whole
      simpa using whole.suffix
    have reads : blocks.graph.readablePathLogs newAnchor .requireComplete =
        (older ++ [newAnchor]).flatMap (blocks.graph.blockReads .requireComplete) := by
      rw [BlocksGraph.readablePathLogs_eq, BlocksGraph.connectedOldestToNewest_eq rooted,
        List.reverse_reverse]
    by_cases tracked : pool ∈ registry.verifiedPools chain
    · refine ⟨tracked, ?_⟩
      have sameEvents : eventsFor pool.key
          (blocks.graph.readablePathLogs newAnchor .requireComplete) =
          truth.events pool (older ++ [newAnchor]) := by
        rw [reads]
        have passes := finalizes.passes
        generalize older ++ [newAnchor] = hashes at passes
        induction hashes with
        | nil => rfl
        | cons hash hashes inductionHypothesis =>
          rw [List.flatMap_cons, eventsFor_append, inductionHypothesis
            (fun x membership => passes x (by simp [membership])),
            truth.eventsFor_blockReads held.agrees (passes hash (by simp)) tracked]
          rfl
      have folded := truth.folds_path held.agrees rooted pool
      rw [List.reverse_reverse, ← sameEvents] at folded
      cases based : blocks.finalizedSnapshot[pool]? with
      | some before =>
        have atAnchor := (held.base pool before based).2
        rw [atAnchor, ← based] at folded
        rw [mergedState_eq_join tracked folded] at found
        exact found
      | none =>
        simp only [mergedState, based, tracked, if_true] at found
        have seeded : foldEvents none (eventsFor pool.key
            (blocks.graph.readablePathLogs newAnchor .requireComplete)) =
            some (some poolState) := by
          exact Option.join_eq_some_iff.mp found
        exact foldEvents_selfSeeded seeded folded
    · have uncovered : blocks.finalizedSnapshot[pool]? = none := by
        by_contra covered
        obtain ⟨state, based⟩ := Option.ne_none_iff_exists'.mp covered
        exact tracked (held.base pool state based).1
      rw [mergedState_untracked uncovered tracked] at found
      simp at found

/-- An update that agrees with the truth. -/
def Justifies (truth : GroundTruth chain) (registry : TrustedPoolRegistry) : Update → Prop
  | .withBlock hash parent _ bloom => parent = truth.parent hash ∧ bloom = truth.logsBloom hash
  | .complete hash logs => keyByLogIndex logs = truth.logs hash
  | .seed at_ results =>
    ∀ pool poolState, results[pool]? = some (.ok poolState) →
      pool ∈ registry.verifiedPools chain ∧ truth.state at_ pool = some poolState
  | _ => True

omit [BloomHash] in
theorem seedPools_lookup {entries : List (PoolRef × PoolDataResult)}
    {snapshot : HashMap PoolRef PoolState} {pool : PoolRef} {poolState : PoolState}
    (found : (entries.foldl Blocks.seedPool snapshot)[pool]? = some poolState) :
    (pool, .ok poolState) ∈ entries ∨ snapshot[pool]? = some poolState := by
  induction entries generalizing snapshot with
  | nil => exact .inr found
  | cons entry entries inductionHypothesis =>
    rcases inductionHypothesis found with listed | earlier
    · exact .inl (List.mem_cons_of_mem _ listed)
    · obtain ⟨seeded, result⟩ := entry
      cases result with
      | error failure => exact .inr earlier
      | ok seed =>
        by_cases same : seeded = pool
        · subst same
          obtain rfl : seed = poolState := by simpa [Blocks.seedPool] using earlier
          exact .inl List.mem_cons_self
        · simp only [Blocks.seedPool] at earlier
          exact .inr (by grind)

theorem Holds.seed {registry : TrustedPoolRegistry} {blocks : Blocks}
    (held : truth.Holds registry blocks) {at_ : BlockHash}
    {results : HashMap PoolRef PoolDataResult}
    (justified : truth.Justifies registry (.seed at_ results)) :
    truth.Holds registry (blocks.update chain registry (.seed at_ results)) := by
  simp only [Blocks.update, Blocks.withFinalizedPoolSeeds]
  split
  · exact held
  · rename_i current
    refine ⟨held.wellFormed, held.agrees, fun pool poolState found => ?_⟩
    rcases seedPools_lookup found with listed | earlier
    · have answered := justified pool poolState ((HashMap.mem_toList_iff results _).mp listed)
      rw [not_not.mp current] at answered
      exact answered
    · exact held.base pool poolState earlier

theorem streamInto_agrees {hash parent : BlockHash} {data : BlockData} (logs : List PoolLog)
    (agrees : truth.Agrees hash parent data) :
    truth.Agrees hash parent (BlocksGraph.streamInto logs data) := by
  unfold BlocksGraph.streamInto
  split
  · exact agrees
  · exact ⟨agrees.1, agrees.2.1, by simp⟩
  · exact ⟨agrees.1, agrees.2.1, by simp⟩

/-- Every true update keeps graph and base true. -/
theorem Holds.update {registry : TrustedPoolRegistry} {blocks : Blocks}
    (held : truth.Holds registry blocks) {update : Update}
    (justified : truth.Justifies registry update) :
    truth.Holds registry (blocks.update chain registry update) := by
  obtain ⟨wellFormed, agrees, base⟩ := held
  cases update with
  | withBlock hash parent number bloom =>
    obtain ⟨rfl, rfl⟩ := justified
    refine ⟨wellFormed.withBlockCapped _ _ _ _ _,
      agrees.withDataCapped _ (fun _ _ _ => ⟨rfl, rfl, by simp⟩), ?_⟩
    simpa [Blocks.update, BlocksGraph.withBlockCapped] using base
  | observeHead hash =>
    refine ⟨wellFormed.withObservedHead hash, agrees.withObservedHead hash, ?_⟩
    simpa [Blocks.update, BlocksGraph.withObservedHead_anchor] using base
  | stream hash logs =>
    refine ⟨wellFormed.withStreamedLogs hash logs,
      agrees.modifyData (fun _ _ => streamInto_agrees logs), ?_⟩
    simpa [Blocks.update, BlocksGraph.withStreamedLogs] using base
  | complete hash logs =>
    refine ⟨wellFormed.withCompleteLogs hash logs, agrees.modifyData ?_, ?_⟩
    · intro parent data agreed
      refine ⟨agreed.1, agreed.2.1, fun stored complete => ?_⟩
      obtain rfl := BlockLogs.complete.inj complete
      exact justified
    · simpa [Blocks.update, BlocksGraph.withCompleteLogs] using base
  | finalize target => exact Holds.finalize ⟨wellFormed, agrees, base⟩ target
  | seed at_ results => exact Holds.seed ⟨wellFormed, agrees, base⟩ justified

theorem Holds.mono {registry registry' : TrustedPoolRegistry} {blocks : Blocks}
    (held : truth.Holds registry blocks)
    (grows : ∀ pool ∈ registry.verifiedPools chain, pool ∈ registry'.verifiedPools chain) :
    truth.Holds registry' blocks :=
  ⟨held.wellFormed, held.agrees, fun pool poolState found =>
    ⟨grows pool (held.base pool poolState found).1, (held.base pool poolState found).2⟩⟩

/-- The updates of a true event are true, as long as seeds were only asked for tracked pools. -/
theorem performs_justified {state : State} {event : Event} {update : Update}
    (seeds : RequestStore.AllPayloads (SeedsTracked chain state.poolRegistry)
      state.pendingRequests)
    (allowed : truth.Allows state event) (performs : Performs state event update) :
    truth.Justifies state.poolRegistry update := by
  cases performs with
  | headAdmitted hash parent bloom number => exact ⟨allowed.1, allowed.2.1⟩
  | headerAdmitted id hash parent bloom number => exact ⟨allowed.1, allowed.2.1⟩
  | completed logs inFlight => exact allowed _ inFlight
  | answered inFlight listed => exact (allowed _ inFlight).1 _ listed
  | @unanswered id payload blocks hash inFlight covered missing =>
    have empty : truth.logs hash = ∅ := by
      by_contra nonempty
      obtain ⟨block, listed, rfl⟩ :=
        List.mem_map.mp ((allowed _ inFlight).2 hash covered nonempty)
      exact missing block listed rfl
    rw [Justifies, empty]
    rfl
  | seeded pools inFlight =>
    intro pool poolState answered
    obtain ⟨requested, true_⟩ := allowed _ inFlight pool poolState answered
    exact ⟨seeds _ inFlight pool requested, true_⟩
  | headMoved => trivial
  | headDrained => trivial
  | headerDrained => trivial
  | finalized => trivial
  | streamed => trivial

variable (truth) in
/-- The invariant of a run among true events. -/
structure Sound (state : State) : Prop where
  holds : truth.Holds state.poolRegistry state.blocks
  seeds : RequestStore.AllPayloads (SeedsTracked chain state.poolRegistry) state.pendingRequests

theorem init_sound (anchor : BlockHash) (anchorNumber : UInt64) :
    truth.Sound (State.init anchor anchorNumber) where
  holds := by
    refine ⟨BlocksGraph.new_wellFormed _ _, BlocksGraph.allBlocks_new _ _, ?_⟩
    simp [State.init, Blocks.new]
  seeds := fun request inFlight => absurd inFlight (RequestStore.not_inFlight_new request)

theorem Sound.transition {state : State} {event : Event} (sound : truth.Sound state)
    (allowed : truth.Allows state event) : truth.Sound (transition chain state event).1 where
  holds := by
    have kept : truth.Holds state.poolRegistry (Kernel.transition chain state event).1.blocks :=
      transition_keeps (truth.Holds state.poolRegistry)
        (fun update performs blocks held =>
          held.update (performs_justified sound.seeds allowed performs))
        (fun hash number => ⟨BlocksGraph.new_wellFormed _ _, BlocksGraph.allBlocks_new _ _,
          by simp [Blocks.new]⟩)
        sound.holds
    exact kept.mono (transition_verified_mono chain state event)
  seeds := transition_seedsTracked chain sound.seeds event

/-- In every state reached among true events, each pool of the finalized base has the
state the truth gives it at the anchor. -/
theorem finalizedSnapshot_eq_truth (truth : GroundTruth chain) (anchor : BlockHash)
    (anchorNumber : UInt64) {state : State}
    (reached : Reachable (Kernel.transition chain) (· = State.init anchor anchorNumber)
      truth.Allows state) :
    ∀ (pool : PoolRef) (poolState : PoolState),
      state.blocks.finalizedSnapshot[pool]? = some poolState →
      truth.state state.blocks.graph.anchor.hash pool = some poolState := by
  have sound : truth.Sound state := by
    refine reached.invariant truth.Sound ?_ (fun _ _ _ sound allowed => sound.transition allowed)
    rintro _ rfl
    exact init_sound anchor anchorNumber
  exact fun pool poolState found => (sound.holds.base pool poolState found).2

end

/-! ### A truth with one swap -/

/-- The block 0x11 carries one swap, and no other block carries a log. -/
def sampleLogs (hash : BlockHash) : BTreeMap UInt64 PoolLog :=
  if hash = 0x11 then keyByLogIndex [sampleSwap] else ∅

def sampleLogsBloom (hash : BlockHash) : Bloom :=
  if hash = 0x11 then .ofBits [565, 531, 172] else 0

def sampleNumber (hash : BlockHash) : UInt64 := if hash = 0x11 then 101 else 100

def sampleStateAfter (hash : BlockHash) (pool : PoolRef) : Option PoolState :=
  if hash = 0x11 ∧ pool.key = sampleKey then some sampleState else none

theorem eventsFor_sampleLogs (hash : BlockHash) (pool : PoolRef) :
    eventsFor pool.key (HashMap.values (sampleLogs hash)) =
      if hash = 0x11 ∧ pool.key = sampleKey then [sampleSwap.event] else [] := by
  have single : HashMap.values (keyByLogIndex [sampleSwap]) = [sampleSwap] := rfl
  have key : sampleSwap.pool = sampleKey := rfl
  unfold sampleLogs
  by_cases carries : hash = 0x11
  · rw [if_pos carries, single]
    by_cases same : pool.key = sampleKey
    · rw [if_pos ⟨carries, same⟩, same]
      simp [eventsFor, key]
    · rw [if_neg (fun both => same both.2)]
      simp [eventsFor, key, Ne.symm same]
  · rw [if_neg carries, if_neg (fun both => carries both.1)]
    rfl

theorem sample_folds (hash : BlockHash) (pool : PoolRef) :
    foldEvents (sampleStateAfter 0x10 pool) (eventsFor pool.key (HashMap.values (sampleLogs hash))) =
      some (sampleStateAfter hash pool) := by
  have fresh : sampleStateAfter 0x10 pool = none := if_neg (by simp)
  rw [fresh, eventsFor_sampleLogs]
  unfold sampleStateAfter
  split <;> rfl

def sampleTruth : @GroundTruth BloomHash.tabulated .ethereum :=
  let _ : BloomHash := BloomHash.tabulated
  { parent := fun _ => 0x10
    number := sampleNumber
    logsBloom := sampleLogsBloom
    logs := sampleLogs
    state := sampleStateAfter
    announced := by
      intro hash log membership pool samePool address watches
      by_cases carries : hash = 0x11
      · have swap : log = sampleSwap := by
          rw [sampleLogs, if_pos carries] at membership
          exact List.mem_singleton.mp membership
        have emitter : address = 0x88e6a0c2ddd26feeb64f039a2c41296fcb3f5640 := by
          have key : pool.key = sampleKey := by rw [samePool, swap]; rfl
          simpa [watchedAddress, key, sampleKey] using watches.symm
        rw [sampleLogsBloom, if_pos carries, emitter]
        decide +kernel
      · rw [sampleLogs, if_neg carries] at membership
        exact absurd membership List.not_mem_nil
    derived := fun hash pool => by rw [derivePoolState, sample_folds]; rfl
    noOverflow := fun hash pool => by rw [sample_folds]; exact Option.some_ne_none _ }

/-- The swap is streamed, proven by a range answer and folded by the second finality
observation. -/
def sampleEvents : List Event :=
  [.headObserved 0x11 0x10 (.ofBits [565, 531, 172]) 101, .logObserved 0x11 [sampleSwap],
    .poolMetadataReceived 1 ((∅ : HashMap ProtocolPoolKey PoolMetadataResult).insert sampleKey
      (.ok { token0 := 1, token1 := 2, fee := .tiered .fee500 })),
    .finalizedBlockObserved 0x11 101, .blockLogsRangeReceived 4 [(0x11, [sampleSwap])],
    .finalizedBlockObserved 0x11 101]

def sampleReached : State :=
  letI : BloomHash := BloomHash.tabulated
  (run (Kernel.transition .ethereum) (State.init 0x10 100) sampleEvents).1

theorem sampleReached_folded :
    sampleReached.blocks.finalizedSnapshot[samplePool]? = some sampleState := by
  decide +kernel

theorem sampleEvents_allowed :
    letI : BloomHash := BloomHash.tabulated
    AllowedAlong (Kernel.transition .ethereum) sampleTruth.Allows (State.init 0x10 100)
      sampleEvents := by
  have number : sampleNumber 0x11 = 101 := if_pos rfl
  have bloom : sampleLogsBloom 0x11 = .ofBits [565, 531, 172] := if_pos rfl
  have logs : sampleLogs 0x11 = keyByLogIndex [sampleSwap] := if_pos rfl
  refine ⟨⟨rfl, bloom.symm, number.symm⟩, trivial, trivial, trivial, fun payload inFlight => ⟨?_, ?_⟩, trivial, trivial⟩
  · intro block listed
    obtain rfl := List.mem_singleton.mp listed
    exact logs.symm
  · intro hash covered nonempty
    by_cases carries : hash = 0x11
    · simp [carries]
    · exact absurd (if_neg carries) nonempty

theorem finalizedSnapshot_eq_truth_sample :
    letI : BloomHash := BloomHash.tabulated
    sampleReached.blocks.finalizedSnapshot[samplePool]? = some sampleState ∧
      sampleTruth.state sampleReached.blocks.graph.anchor.hash samplePool = some sampleState := by
  let _ : BloomHash := BloomHash.tabulated
  have reached : Reachable (Kernel.transition .ethereum) (· = State.init 0x10 100)
      sampleTruth.Allows sampleReached := by
    unfold sampleReached
    refine Reachable.run ?_ sampleEvents sampleEvents_allowed
    exact .init rfl
  exact ⟨sampleReached_folded,
    finalizedSnapshot_eq_truth sampleTruth 0x10 100 reached _ _ sampleReached_folded⟩

end GroundTruth

end Kernel

end ArmchairAnalyst

import ArmchairAnalyst.Library.KeyedMerge
import ArmchairAnalyst.Kernel.HeaderRequests
import ArmchairAnalyst.Kernel.BlocksUpdates
import ArmchairAnalyst.Kernel.WorkInFlight

/-!
# Streamed logs

Logs that arrive before their block wait in a buffer and join the block when it is
admitted; logs that arrive later join it at once. What is held for a block, buffered
or stored, grows by every batch and by nothing else.
-/

namespace ArmchairAnalyst

theorem keyByLogIndex_eq : keyByLogIndex = keyedBy PoolLog.logIndex := rfl

/-- Adds a batch to what a block holds; authoritative logs stay. -/
def BlockLogs.stream (logs : List PoolLog) : BlockLogs → BlockLogs
  | .complete existing => .complete existing
  | .streamed existing => .streamed (existing ∪ keyByLogIndex logs)
  | .unknown => .streamed (keyByLogIndex logs)

namespace BlocksGraph

theorem streamInto_logs (logs : List PoolLog) (data : BlockData) :
    (streamInto logs data).logs = data.logs.stream logs := by
  unfold streamInto
  split <;> rename_i stored <;> simp only [stored, BlockLogs.stream]

theorem mapData_data (f : BlockData → BlockData) (node : Node) :
    (node.mapData f).data = f node.data := by
  cases node <;> rfl

/-- The stored logs of a present block. -/
def storedLogs (graph : BlocksGraph) (hash : BlockHash) : Option BlockLogs :=
  graph.nodes[hash]?.map (·.data.logs)

theorem storedLogs_eq_none (graph : BlocksGraph) (hash : BlockHash) :
    graph.storedLogs hash = none ↔ hash ∉ graph.nodes := by
  rw [storedLogs, Option.map_eq_none_iff, HashMap.getElem?_eq_none_iff]

theorem storedLogs_withStreamedLogs (graph : BlocksGraph) (hash k : BlockHash)
    (logs : List PoolLog) :
    (graph.withStreamedLogs hash logs).storedLogs k =
      if k = hash then (graph.storedLogs k).map (BlockLogs.stream logs)
      else graph.storedLogs k := by
  rw [storedLogs, withStreamedLogs, getElem?_modifyData]
  split
  · rw [storedLogs, Option.map_map, Option.map_map]
    congr 1
    funext node
    rw [Function.comp_apply, mapData_data, streamInto_logs]
    rfl
  · rfl

/-- A later graph has the same stored logs, except that one block may be new and empty. -/
def AddsAtMost (graph : BlocksGraph) (hash : BlockHash) (graph' : BlocksGraph) : Prop :=
  ∀ k, graph'.storedLogs k = graph.storedLogs k ∨
    k = hash ∧ graph.storedLogs k = none ∧ graph'.storedLogs k = some .unknown

theorem addsAtMost_withBlockCapped (graph : BlocksGraph) (hash parent : BlockHash)
    (number : UInt64) (bloom : Bloom) (maxPending : Nat) :
    graph.AddsAtMost hash (graph.withBlockCapped hash parent number bloom maxPending).1 := by
  intro k
  unfold storedLogs withBlockCapped
  cases lookup : (graph.withDataCapped hash parent
      { number, logsBloom := some bloom, logs := .unknown } maxPending).1.nodes[k]? with
  | none =>
    left
    cases before : graph.nodes[k]? with
    | none => rfl
    | some node =>
      obtain ⟨node', kept, -⟩ := withDataCapped_keeps hash parent
        { number, logsBloom := some bloom, logs := .unknown } maxPending before
      rw [kept] at lookup
      exact absurd lookup (by simp)
  | some node =>
    rcases withDataCapped_origin lookup with
      ⟨rfl, absent, -, -, sameData, -⟩ | ⟨node', before, promoted⟩
    · exact .inr ⟨rfl, by rw [absent]; rfl, by rw [Option.map_some, sameData]⟩
    · left
      rw [before, Option.map_some, Option.map_some, promoted.data]

theorem AddsAtMost.withObservedHead {graph graph' : BlocksGraph} {hash : BlockHash}
    (grows : graph.AddsAtMost hash graph') (head : BlockHash) :
    graph.AddsAtMost hash (graph'.withObservedHead head) := by
  intro k
  have same : (graph'.withObservedHead head).storedLogs k = graph'.storedLogs k := by
    rw [storedLogs, withObservedHead_nodes]
    rfl
  rw [same]
  exact grows k

/-- Finalization leaves the graph alone or moves the anchor. -/
theorem finalizedTo_moves [BloomHash] (graph : BlocksGraph) (target : BlockHash)
    (base : HashMap PoolRef PoolState) (verified : HashSet PoolRef)
    (v4Manager : Option Address) :
    (graph.finalizedTo target base verified v4Manager).1 = graph ∨
      (graph.finalizedTo target base verified v4Manager).1.anchor.hash ≠ graph.anchor.hash := by
  unfold finalizedTo
  split
  · exact .inl rfl
  · rename_i target' _
    rcases reanchoredTo_cases graph (graph.foldableFrontier target'
        (BloomPatterns.of (watchedAddresses verified v4Manager)) .requireComplete) base verified with
      same | ⟨node, moves, -, moved⟩
    · exact .inl (congrArg Prod.fst same)
    · right
      simp only [moved]
      exact moves

end BlocksGraph

namespace Kernel

open RequestStore (Evolves)

/-! ### What is held for a block -/

/-- The logs stored for a present block, or the ones buffered for an absent one. -/
def State.heldLogs (state : State) (hash : BlockHash) : BlockLogs :=
  match state.blocks.graph.storedLogs hash with
  | some logs => logs
  | none =>
    match state.streamedLogs[hash]? with
    | some logs => .streamed logs
    | none => .unknown

/-- Only absent blocks have buffered logs, and these are filed under their own index. -/
structure Staging (state : State) : Prop where
  absent : ∀ hash ∈ state.streamedLogs, hash ∉ state.blocks.graph.nodes
  keyed : ∀ (hash : BlockHash) logs, state.streamedLogs[hash]? = some logs →
    Keyed PoolLog.logIndex logs

theorem heldLogs_of_stored {state : State} {hash : BlockHash} {logs : BlockLogs}
    (stored : state.blocks.graph.storedLogs hash = some logs) : state.heldLogs hash = logs := by
  rw [State.heldLogs, stored]

theorem heldLogs_congr {state state' : State} {hash : BlockHash}
    (buffered : state'.streamedLogs[hash]? = state.streamedLogs[hash]?)
    (stored : state'.blocks.graph.storedLogs hash = state.blocks.graph.storedLogs hash) :
    state'.heldLogs hash = state.heldLogs hash := by
  rw [State.heldLogs, State.heldLogs, stored, buffered]

/-- A state whose buffer lost entries and whose graph gained no block keeps the staging. -/
theorem Staging.shrink {state state' : State} (staging : Staging state)
    (fewer : ∀ (hash : BlockHash) logs, state'.streamedLogs[hash]? = some logs →
      state.streamedLogs[hash]? = some logs ∧
        (hash ∈ state'.blocks.graph.nodes → hash ∈ state.blocks.graph.nodes)) :
    Staging state' where
  absent := by
    intro hash buffered present
    obtain ⟨logs, found⟩ := (HashMap.mem_iff_exists _ _).mp buffered
    obtain ⟨before, grown⟩ := fewer hash logs found
    exact staging.absent hash ((HashMap.mem_iff_exists _ _).mpr ⟨logs, before⟩) (grown present)
  keyed := fun hash logs found => staging.keyed hash logs (fewer hash logs found).1

theorem Staging.of_empty {state : State} (empty : state.streamedLogs = ∅) : Staging state where
  absent := by
    intro hash buffered
    rw [empty] at buffered
    exact absurd buffered Std.ExtTreeMap.not_mem_empty
  keyed := by
    intro hash logs found
    rw [empty] at found
    simp at found

/-! ### Admissions -/

theorem streamedLogs_drained (state : State) (hash k : BlockHash) :
    (state.withStreamedLogsDrained hash).streamedLogs[k]? =
      if k = hash ∧ hash ∈ state.blocks.graph.nodes then none else state.streamedLogs[k]? := by
  unfold State.withStreamedLogsDrained
  split
  · rename_i absent
    rw [if_neg (fun both => absent both.2)]
  · rename_i present
    rw [not_not] at present
    split
    · simp only [State.withLogStreamed, State.mapGraph]
      rw [HashMap.getElem?_erase]
      simp only [present, and_true]
    · rename_i nothing
      split
      · rename_i both
        rw [both.1, nothing]
      · rfl

theorem storedLogs_drained (state : State) (hash k : BlockHash) :
    (state.withStreamedLogsDrained hash).blocks.graph.storedLogs k =
      if k = hash then
        (state.blocks.graph.storedLogs k).map (fun stored =>
          state.streamedLogs[hash]?.elim stored (fun logs => stored.stream (HashMap.values logs)))
      else state.blocks.graph.storedLogs k := by
  unfold State.withStreamedLogsDrained
  split
  · rename_i absent
    split
    · rename_i same
      rw [same, (BlocksGraph.storedLogs_eq_none _ _).mpr absent]
      rfl
    · rfl
  · split
    · rename_i logs buffered
      rw [buffered]
      exact BlocksGraph.storedLogs_withStreamedLogs _ hash k _
    · rename_i nothing
      rw [nothing]
      split <;> simp

/-- An admission with its drain loses no log and adds none. -/
theorem heldLogs_admitted {state : State} (staging : Staging state) (hash : BlockHash)
    {graph : BlocksGraph}
    (grows : state.blocks.graph.AddsAtMost hash graph)
    (k : BlockHash) :
    ((state.mapGraph (fun _ => graph)).withStreamedLogsDrained hash).heldLogs k =
      state.heldLogs k := by
  by_cases same : k = hash
  · subst same
    cases stored : graph.storedLogs k with
    | none =>
      have absent : k ∉ graph.nodes := (BlocksGraph.storedLogs_eq_none _ _).mp stored
      rw [drained_of_absent absent]
      have unfiled : (state.mapGraph (fun _ => graph)).streamedLogs[k]? = state.streamedLogs[k]? := rfl
      apply heldLogs_congr unfiled
      rcases grows k with unchanged | ⟨-, -, admitted⟩
      · exact unchanged
      · rw [stored] at admitted
        exact absurd admitted (by simp)
    | some logs =>
      have drained : ((state.mapGraph (fun _ => graph)).withStreamedLogsDrained
          k).blocks.graph.storedLogs k = some (state.streamedLogs[k]?.elim logs (fun buffered =>
            logs.stream (HashMap.values buffered))) := by
        rw [storedLogs_drained, if_pos rfl]
        simp only [State.mapGraph, stored, Option.map_some]
      rw [heldLogs_of_stored drained]
      rcases grows k with unchanged | ⟨-, fresh, admitted⟩
      · -- A block that was there before has nothing buffered.
        have present : k ∈ state.blocks.graph.nodes := by
          by_contra absent
          rw [stored, (BlocksGraph.storedLogs_eq_none _ _).mpr absent] at unchanged
          exact absurd unchanged (by simp)
        have nothing : state.streamedLogs[k]? = none := by
          rw [HashMap.getElem?_eq_none_iff]
          exact fun buffered => staging.absent k buffered present
        rw [nothing, heldLogs_of_stored (unchanged.symm.trans stored)]
        rfl
      · rw [State.heldLogs, fresh]
        rw [stored] at admitted
        obtain rfl := Option.some.inj admitted
        cases buffered : state.streamedLogs[k]? with
        | none => rfl
        | some held =>
          simp only [Option.elim_some, BlockLogs.stream, keyByLogIndex_eq,
            (staging.keyed k held buffered).keyedBy_values]
  · apply heldLogs_congr
    · rw [streamedLogs_drained, if_neg (fun both => same both.1)]
      rfl
    · rw [storedLogs_drained, if_neg same]
      rcases grows k with unchanged | ⟨equal, -, -⟩
      · exact unchanged
      · exact absurd equal same

theorem Staging.admitted {state : State} (staging : Staging state) (hash : BlockHash)
    {graph : BlocksGraph}
    (grows : state.blocks.graph.AddsAtMost hash graph) :
    Staging ((state.mapGraph (fun _ => graph)).withStreamedLogsDrained hash) := by
  apply staging.shrink
  intro k logs found
  rw [streamedLogs_drained] at found
  split at found
  · exact absurd found (by simp)
  · rename_i other
    refine ⟨found, fun present => ?_⟩
    by_contra absent
    have fresh : ((state.mapGraph (fun _ => graph)).withStreamedLogsDrained
        hash).blocks.graph.storedLogs k ≠ none :=
      fun nothing => (BlocksGraph.storedLogs_eq_none _ _).mp nothing present
    rcases grows k with unchanged | ⟨rfl, -, admitted⟩
    · apply fresh
      rw [storedLogs_drained]
      simp only [State.mapGraph, unchanged, (BlocksGraph.storedLogs_eq_none _ _).mpr absent,
        Option.map_none, ite_self]
    · apply other
      refine ⟨rfl, ?_⟩
      by_contra missing
      rw [(BlocksGraph.storedLogs_eq_none graph k).mpr missing] at admitted
      exact absurd admitted (by simp)

/-- A delivered head is an admission followed by a drain. -/
theorem withLogHeadObserved_grows (state : State) (hash parent : BlockHash) (number : UInt64)
    (bloom : Bloom) (maxPending : Nat) :
    ∃ graph, state.blocks.graph.AddsAtMost hash graph ∧
      (state.withLogHeadObserved hash parent number bloom maxPending).1 =
        (state.mapGraph (fun _ => graph)).withStreamedLogsDrained hash := by
  have grows := state.blocks.graph.addsAtMost_withBlockCapped hash parent number bloom maxPending
  unfold State.withLogHeadObserved
  generalize state.blocks.graph.withBlockCapped hash parent number bloom maxPending = result
    at grows
  obtain ⟨graph, admission⟩ := result
  by_cases refused : admission = .selfParent
  · exact ⟨graph, grows, by simp only [refused]⟩
  · refine ⟨graph.withObservedHead hash, grows.withObservedHead hash, ?_⟩
    cases admission with
    | selfParent => exact absurd rfl refused
    | _ => rfl

theorem withLogHeaderReceived_grows (state : State) (hash parent : BlockHash) (number : UInt64)
    (bloom : Bloom) (maxPending : Nat) :
    ∃ graph, state.blocks.graph.AddsAtMost hash graph ∧
      state.withLogHeaderReceived hash parent number bloom maxPending =
        (state.mapGraph (fun _ => graph)).withStreamedLogsDrained hash :=
  ⟨_, state.blocks.graph.addsAtMost_withBlockCapped hash parent number bloom maxPending, rfl⟩

/-! ### Observed batches -/

theorem heldLogs_streamed {state : State} {hash : BlockHash}
    (present : hash ∈ state.blocks.graph.nodes) (logs : List PoolLog) (k : BlockHash) :
    (state.withLogStreamed hash logs).heldLogs k =
      if k = hash then (state.heldLogs k).stream logs else state.heldLogs k := by
  have stored : (state.withLogStreamed hash logs).blocks.graph.storedLogs k = _ :=
    BlocksGraph.storedLogs_withStreamedLogs state.blocks.graph hash k logs
  split
  · rename_i same
    subst same
    cases before : state.blocks.graph.storedLogs k with
    | none => exact absurd present ((BlocksGraph.storedLogs_eq_none _ _).mp before)
    | some existing =>
      rw [if_pos rfl, before, Option.map_some] at stored
      rw [heldLogs_of_stored stored, heldLogs_of_stored before]
  · rename_i other
    rw [if_neg other] at stored
    exact heldLogs_congr rfl stored

theorem streamedLogs_buffered {state : State} {hash : BlockHash}
    (room : hash ∈ state.streamedLogs ∨ state.streamedLogs.size < maxStreamedLogBlocks)
    (logs : List PoolLog) (k : BlockHash) :
    (state.withStreamedLogsBuffered hash logs).streamedLogs[k]? =
      if k = hash then some (state.streamedLogs[hash]?.getD ∅ ∪ keyByLogIndex logs)
      else state.streamedLogs[k]? := by
  have fits : ¬ (maxStreamedLogBlocks ≤ state.streamedLogs.size ∧ hash ∉ state.streamedLogs) := by
    rintro ⟨full, fresh⟩
    exact room.elim fresh (Nat.not_lt.mpr full)
  rw [State.withStreamedLogsBuffered, if_neg fits, HashMap.getElem?_insert]

theorem heldLogs_buffered {state : State} {hash : BlockHash}
    (absent : hash ∉ state.blocks.graph.nodes)
    (room : hash ∈ state.streamedLogs ∨ state.streamedLogs.size < maxStreamedLogBlocks)
    (logs : List PoolLog) :
    (state.withStreamedLogsBuffered hash logs).heldLogs hash =
      (state.heldLogs hash).stream logs := by
  have nothing := (BlocksGraph.storedLogs_eq_none _ _).mpr absent
  have graph : (state.withStreamedLogsBuffered hash logs).blocks.graph = state.blocks.graph := by
    unfold State.withStreamedLogsBuffered
    split <;> rfl
  rw [State.heldLogs, State.heldLogs, graph, nothing, streamedLogs_buffered room, if_pos rfl]
  cases state.streamedLogs[hash]? with
  | none =>
    simp only [Option.getD_none, BlockLogs.stream, HashMap.empty_union]
  | some buffered => rfl

theorem heldLogs_buffered_other {state : State} {hash k : BlockHash} (distinct : k ≠ hash)
    (logs : List PoolLog) :
    (state.withStreamedLogsBuffered hash logs).heldLogs k = state.heldLogs k := by
  unfold State.withStreamedLogsBuffered
  split
  · rfl
  · apply heldLogs_congr
    · rw [HashMap.getElem?_insert, if_neg distinct]
    · rfl

theorem Staging.buffered {state : State} (staging : Staging state) {hash : BlockHash}
    (absent : hash ∉ state.blocks.graph.nodes) (logs : List PoolLog) :
    Staging (state.withStreamedLogsBuffered hash logs) := by
  unfold State.withStreamedLogsBuffered
  split
  · exact staging
  · constructor
    · intro k buffered
      rcases Std.ExtTreeMap.mem_insert.mp buffered with same | before
      · rw [Std.LawfulEqOrd.compare_eq_iff_eq] at same
        rw [← same]
        exact absent
      · exact staging.absent k before
    · intro k merged found
      rw [HashMap.getElem?_insert] at found
      split at found
      · rw [← Option.some.inj found, keyByLogIndex_eq]
        apply Keyed.union _ (keyed_keyedBy _ logs)
        cases before : state.streamedLogs[hash]? with
        | none => exact Keyed.empty
        | some existing => exact staging.keyed hash existing before
      · exact staging.keyed k merged found

/-! ### One event -/

/-- The events that add blocks, bring batches or move the anchor along the tree. -/
def Feeds : Event → Prop
  | .headObserved _ _ _ _ | .blockHeaderReceived _ _ _ _ _ | .logObserved _ _
  | .finalizedBlockObserved _ _ => True
  | _ => False

/-- The batch an event brings for a block. -/
def batchFor (hash : BlockHash) : Event → Option (List PoolLog)
  | .logObserved other logs => if other = hash then some logs else none
  | _ => none

/-- The batches of a run for a block, in order of arrival. -/
def batchesFor (hash : BlockHash) (events : List Event) : List (List PoolLog) :=
  events.filterMap (batchFor hash)

/-- A field that completing one block leaves alone, a range answer leaves alone. -/
theorem withLogsRange_field {A : Type} (field : State → A)
    (each : ∀ state hash logs, field (State.withLogComplete state hash logs) = field state)
    (state : State) (covered : HashSet BlockHash) (blocks : List (BlockHash × List PoolLog)) :
    field (state.withLogsRange covered blocks) = field state := by
  have folded : ∀ (Item : Type) (target : Item → BlockHash) (logs : Item → List PoolLog)
      (items : List Item) (state : State),
      field (items.foldl (fun state item => state.withLogComplete (target item) (logs item))
        state) = field state := by
    intro Item target logs items
    induction items with
    | nil => exact fun _ => rfl
    | cons item items inductionHypothesis =>
      exact fun state => (inductionHypothesis _).trans (each _ _ _)
  unfold State.withLogsRange
  exact (folded BlockHash (fun hash => hash) (fun _ => []) _ _).trans
    (folded (BlockHash × List PoolLog) Prod.fst Prod.snd blocks state)

theorem applied_streamedLogs {state : State} {kind : RequestKind} {id : UInt64}
    {apply_ : State → kind.Payload → State}
    (each : ∀ state payload, (apply_ state payload).streamedLogs = state.streamedLogs) :
    (applied state kind id apply_).streamedLogs = state.streamedLogs := by
  unfold applied
  have same : (state.take kind id).1.streamedLogs = state.streamedLogs := rfl
  generalize state.take kind id = result at same
  obtain ⟨state', _ | request⟩ := result
  · exact same
  · exact (each state' request.payload).trans same

variable [BloomHash] {chain : ChainKey} {state : State} {event : Event}

theorem absorb_streamedLogs (quiet : ¬ Feeds event) :
    (absorb chain state event).streamedLogs = state.streamedLogs := by
  cases event with
  | headObserved | blockHeaderReceived | logObserved | finalizedBlockObserved =>
    exact absurd trivial quiet
  | blockLogsReceived id logs => exact applied_streamedLogs (fun _ _ => rfl)
  | blockLogsRangeReceived id blocks =>
    exact applied_streamedLogs (fun state payload =>
      withLogsRange_field State.streamedLogs (fun _ _ _ => rfl) state payload.covered blocks)
  | poolMetadataReceived id metadata => exact applied_streamedLogs (fun _ _ => rfl)
  | tokenMetadataReceived id metadata => exact applied_streamedLogs (fun _ _ => rfl)
  | poolDataReceived id pools => exact applied_streamedLogs (fun _ _ => rfl)
  | _ => rfl

/-- An event that feeds nothing changes the stored logs of the blocks it completes. -/
theorem absorb_storedLogs (quiet : ¬ Feeds event) {hash : BlockHash}
    (unanswered : ∀ logs, ¬ Performs state event (.complete hash logs)) :
    (absorb chain state event).blocks.graph.storedLogs hash =
      state.blocks.graph.storedLogs hash := by
  apply absorb_keeps (fun blocks =>
    blocks.graph.storedLogs hash = state.blocks.graph.storedLogs hash)
  · intro update performed blocks kept
    rw [← kept]
    have elsewhere : ∀ other logs, Performs state event (.complete other logs) →
        (blocks.graph.withCompleteLogs other logs).1.storedLogs hash =
          blocks.graph.storedLogs hash := by
      intro other logs performed
      have distinct : hash ≠ other := by
        rintro rfl
        exact unanswered logs performed
      rw [BlocksGraph.storedLogs, BlocksGraph.withCompleteLogs, BlocksGraph.getElem?_modifyData,
        if_neg distinct]
      rfl
    cases performed with
    | completed logs inFlight => exact elsewhere _ _ (.completed logs inFlight)
    | answered inFlight listed => exact elsewhere _ _ (.answered inFlight listed)
    | unanswered inFlight covered silent =>
      exact elsewhere _ _ (.unanswered inFlight covered silent)
    | seeded =>
      simp only [Blocks.update, Blocks.withFinalizedPoolSeeds]
      split <;> rfl
    | _ => exact absurd trivial quiet
  · rfl

theorem absorb_nodes (quiet : ¬ Feeds event) (hash : BlockHash) :
    hash ∈ (absorb chain state event).blocks.graph.nodes ↔ hash ∈ state.blocks.graph.nodes := by
  apply absorb_keeps (fun blocks =>
    hash ∈ blocks.graph.nodes ↔ hash ∈ state.blocks.graph.nodes)
  · intro update performed blocks kept
    rw [← kept]
    cases performed with
    | completed | answered | unanswered => exact BlocksGraph.mem_modifyData _ _ _ _
    | seeded =>
      simp only [Blocks.update, Blocks.withFinalizedPoolSeeds]
      split <;> rfl
    | _ => exact absurd trivial quiet
  · rfl

theorem Staging.absorb (staging : Staging state) (event : Event) :
    Staging (Kernel.absorb chain state event) := by
  cases event with
  | headObserved hash parent bloom number =>
    obtain ⟨graph, grows, same⟩ := withLogHeadObserved_grows state hash parent number bloom
      (maxPendingBlocks chain)
    simp only [Kernel.absorb, same]
    exact staging.admitted hash grows
  | blockHeaderReceived id hash parent bloom number =>
    obtain ⟨graph, grows, same⟩ := withLogHeaderReceived_grows state hash parent number bloom
      (maxPendingBlocks chain)
    simp only [Kernel.absorb, same]
    exact (staging.admitted hash grows).shrink (fun _ _ found => ⟨found, fun present => present⟩)
  | finalizedBlockObserved hash number =>
    simp only [Kernel.absorb, State.withFinalizedBlockObserved]
    split
    · exact Staging.of_empty rfl
    · rename_i still
      rcases state.blocks.graph.finalizedTo_moves hash state.blocks.finalizedSnapshot
          (state.poolRegistry.verifiedPools chain) (poolManagerAddress chain) with same | moved
      · apply staging.shrink
        intro k logs found
        refine ⟨found, fun present => ?_⟩
        rw [same] at present
        exact present
      · exact absurd moved still
  | logObserved hash logs =>
    simp only [Kernel.absorb]
    split
    · apply staging.shrink
      intro k buffered found
      exact ⟨found, (BlocksGraph.mem_modifyData _ _ _ _).mp⟩
    · rename_i absent
      exact staging.buffered absent logs
  | _ =>
    apply staging.shrink
    intro k logs found
    rw [absorb_streamedLogs (by exact id)] at found
    exact ⟨found, (absorb_nodes (by exact id) k).mp⟩

theorem Staging.transition (staging : Staging state) (event : Event) :
    Staging (Kernel.transition chain state event).1 := by
  by_cases restarts : Reinitialises state event
  · cases event with
    | canonicalHeaderAtHeightReceived id hash number =>
      rw [transition_reinitialises chain state id restarts]
      exact Staging.of_empty rfl
    | _ => exact absurd restarts id
  · have core := (transition_continues chain state event restarts).core
    rw [core]
    exact (staging.absorb event).shrink (fun _ _ found => ⟨found, fun present => present⟩)

theorem Reached.staging (reached : Reached chain state) : Staging state := by
  refine reached.invariant Staging ?_ (fun _ event _ staging _ => staging.transition event)
  rintro state ⟨effects, starts⟩
  apply Staging.of_empty
  generalize output : (state, effects) = start at starts
  cases starts with
  | init hash number =>
    obtain ⟨rfl, -⟩ := Prod.mk.inj output
    rfl
  | activateFromSeed hash number snapshots pools tokens blocks =>
    obtain rfl : state = _ := congrArg Prod.fst output
    have issues := activation_issues chain hash number snapshots pools tokens blocks
    rw [issues.core]
    rfl

end Kernel

end ArmchairAnalyst

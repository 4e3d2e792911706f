import ArmchairAnalyst.Kernel.ReanchoringProofs

/-!
# Facts about single blocks

A property of a block's hash, raw parent and payload that admissions establish
and log updates keep holds of every block of every later graph.
-/

namespace ArmchairAnalyst.BlocksGraph

def AllBlocks (holds : BlockHash → BlockHash → BlockData → Prop) (graph : BlocksGraph) : Prop :=
  ∀ (hash : BlockHash) (node : Node), graph.nodes[hash]? = some node →
    holds hash (graph.nodeParentHash node) node.data

variable {holds : BlockHash → BlockHash → BlockData → Prop} {graph : BlocksGraph}

theorem allBlocks_new (anchor : BlockHash) (anchorNumber : UInt64) :
    AllBlocks holds (BlocksGraph.new anchor anchorNumber) := by
  intro hash node found
  simp [new] at found

theorem nodeParentHash_congr {graph' : BlocksGraph} (anchor : graph'.anchor = graph.anchor)
    (node : Node) : graph'.nodeParentHash node = graph.nodeParentHash node := by
  cases node <;> simp [nodeParentHash, anchor]

theorem AllBlocks.withDataCapped (all : AllBlocks holds graph) {hash parent : BlockHash}
    {data : BlockData} (maxPending : Nat)
    (admitted : graph.nodes[hash]? = none → hash ≠ graph.anchor.hash → hash ≠ parent →
      holds hash parent data) :
    AllBlocks holds (graph.withDataCapped hash parent data maxPending).1 := by
  intro k node found
  rw [nodeParentHash_congr (graph.withDataCapped_anchor hash parent data maxPending)]
  rcases withDataCapped_origin found with
    ⟨rfl, absent, notAnchor, proper, sameData, sameParent⟩ | ⟨node', found', promoted⟩
  · rw [sameData, sameParent]
    exact admitted absent notAnchor proper
  · rw [promoted.nodeParentHash, promoted.data]
    exact all k node' found'

theorem AllBlocks.modifyData (all : AllBlocks holds graph) {hash : BlockHash}
    {f : BlockData → BlockData}
    (keeps : ∀ parent data, holds hash parent data → holds hash parent (f data)) :
    AllBlocks holds (graph.modifyData hash f) := by
  intro k node found
  rw [nodeParentHash_congr (modifyData_anchor graph hash f)]
  rw [getElem?_modifyData] at found
  by_cases same : k = hash
  · subst same
    rw [if_pos rfl] at found
    obtain ⟨node', found', rfl⟩ := Option.map_eq_some_iff.mp found
    have held := keeps _ _ (all k node' found')
    cases node' <;> exact held
  · rw [if_neg same] at found
    exact all k node found

theorem withObservedHead_nodes (graph : BlocksGraph) (hash : BlockHash) :
    (graph.withObservedHead hash).nodes = graph.nodes := by
  unfold withObservedHead
  split <;> rfl

theorem withObservedHead_anchor (graph : BlocksGraph) (hash : BlockHash) :
    (graph.withObservedHead hash).anchor = graph.anchor := by
  unfold withObservedHead
  split <;> rfl

theorem AllBlocks.withObservedHead (all : AllBlocks holds graph) (hash : BlockHash) :
    AllBlocks holds (graph.withObservedHead hash) := by
  intro k node found
  rw [withObservedHead_nodes] at found
  rw [nodeParentHash_congr (graph.withObservedHead_anchor hash)]
  exact all k node found

/-- A surviving block hangs below some block of the old graph, its raw parent. -/
theorem connectedUp_of_passes {newAnchor k : BlockHash} {path : List BlockHash}
    (rooted : RootedPath graph.connectedUp k path) (proper : k ≠ newAnchor)
    (passes : newAnchor ∈ path) : ∃ parent, graph.connectedUp k = some (some parent) := by
  cases rooted with
  | root _ => exact absurd (by simpa using passes) (Ne.symm proper)
  | child attached _ => exact ⟨_, attached⟩

/-- A re-root keeps the raw parent and the payload of every block it keeps. -/
theorem rerooted_origin (wellFormed : graph.WellFormed) {newAnchor k : BlockHash}
    {anchorNode : ConnectedNode} {node : Node}
    (found : (graph.rerooted newAnchor anchorNode).nodes[k]? = some node) :
    ∃ original, graph.nodes[k]? = some original ∧ node.data = original.data ∧
      (graph.rerooted newAnchor anchorNode).nodeParentHash node =
        graph.nodeParentHash original := by
  obtain ⟨original, found', rfl, proper, path, rooted, passes⟩ := (mem_rerooted wellFormed _).mp found
  obtain ⟨parent, attached⟩ := connectedUp_of_passes rooted proper passes
  have shape : original.parent = .block parent := by
    rw [connectedUp_of_connected found'] at attached
    cases shape : original.parent with
    | anchor => simp [shape, AnchoredRef.up] at attached
    | block q => simpa [shape, AnchoredRef.up] using attached
  refine ⟨.connected original, found', ?_, ?_⟩
  · simp only [reroot]
    split <;> rfl
  · by_cases child : parent = newAnchor
    · simp [reroot, shape, child, nodeParentHash, connectedParentHash, rerooted]
    · simp [reroot, shape, child, nodeParentHash, connectedParentHash]

theorem AllBlocks.rerooted (wellFormed : graph.WellFormed) (all : AllBlocks holds graph)
    (newAnchor : BlockHash) (anchorNode : ConnectedNode) :
    AllBlocks holds (graph.rerooted newAnchor anchorNode) := by
  intro k node found
  obtain ⟨original, found', sameData, sameParent⟩ := rerooted_origin wellFormed found
  rw [sameData, sameParent]
  exact all k original found'

theorem AllBlocks.finalizedTo [BloomHash] (wellFormed : graph.WellFormed)
    (all : AllBlocks holds graph) (target : BlockHash) (base : HashMap PoolRef PoolState)
    (verified : HashSet PoolRef) (v4Manager : Option Address) :
    AllBlocks holds (graph.finalizedTo target base verified v4Manager).1 := by
  unfold BlocksGraph.finalizedTo
  split
  · exact all
  · simp only
    rcases graph.reanchoredTo_cases _ base verified with idle | ⟨node, -, -, moved⟩
    · rw [idle]
      exact all
    · rw [moved]
      exact all.rerooted wellFormed _ node

/-- A block without a header came with authoritative logs. -/
def HeaderlessComplete : BlockHash → BlockHash → BlockData → Prop :=
  fun _ _ data => data.logsBloom = none → ∃ logs, data.logs = .complete logs

theorem fromSeed_headerlessComplete (anchor : BlockHash) (anchorNumber : UInt64)
    (blocks : List SeedBlock) :
    AllBlocks HeaderlessComplete (fromSeed anchor anchorNumber blocks) := by
  unfold fromSeed
  generalize start : BlocksGraph.new anchor anchorNumber = graph
  have all : AllBlocks HeaderlessComplete graph := start ▸ allBlocks_new anchor anchorNumber
  clear start
  induction blocks generalizing graph with
  | nil => exact all
  | cons block blocks inductionHypothesis =>
    exact inductionHypothesis _ (all.withDataCapped _ (fun _ _ _ _ => ⟨_, rfl⟩))

theorem Built.headerlessComplete [BloomHash] (built : Built graph) :
    AllBlocks HeaderlessComplete graph := by
  induction built with
  | new anchor anchorNumber => exact allBlocks_new anchor anchorNumber
  | fromSeed anchor anchorNumber blocks => exact fromSeed_headerlessComplete _ _ _
  | operate operation built inductionHypothesis =>
    cases operation with
    | withBlockCapped hash parent number bloom maxPending =>
      exact inductionHypothesis.withDataCapped _ (fun _ _ _ none => by simp at none)
    | withObservedHead hash => exact inductionHypothesis.withObservedHead hash
    | withStreamedLogs hash logs =>
      refine inductionHypothesis.modifyData (fun parent data held headerless => ?_)
      have unchanged : (streamInto logs data).logsBloom = data.logsBloom := by
        unfold streamInto
        split <;> rfl
      obtain ⟨existing, complete⟩ := held (unchanged ▸ headerless)
      exact ⟨existing, by simp [streamInto, complete]⟩
    | withCompleteLogs hash logs =>
      exact inductionHypothesis.modifyData (fun _ _ _ _ => ⟨_, rfl⟩)
    | finalizedTo target base verified v4Manager =>
      exact inductionHypothesis.finalizedTo built.wellFormed _ _ _ _

end ArmchairAnalyst.BlocksGraph

import Mathlib.Data.Finset.Card
import ArmchairAnalyst.Kernel.BackfillGraph

/-!
# The order in which blocks are admitted

The graph after the blocks of a set have been admitted is determined by the set: a
block is connected when its parent chain inside the set arrives at the anchor, and
pending otherwise.
-/

namespace ArmchairAnalyst.BlocksGraph

/-- The payload of an admitted header. -/
def headerData (header : Header) : BlockData where
  number := header.number
  logsBloom := some header.logsBloom
  logs := .unknown

/-- Admits the blocks of a list in turn, each with its own header. -/
def admitInOrder (header : BlockHash → Header) (maxPending : Nat) (graph : BlocksGraph)
    (order : List BlockHash) : BlocksGraph :=
  order.foldl (fun graph hash =>
    (graph.withBlockCapped hash (header hash).parentHash (header hash).number
      (header hash).logsBloom maxPending).1) graph

/-- The parent chain of a block arrives at the anchor inside a set of blocks. -/
inductive ReachesAnchor (header : BlockHash → Header) (anchor : BlockHash)
    (blocks : Finset BlockHash) : BlockHash → Prop
  | root {hash : BlockHash} : hash ∈ blocks → (header hash).parentHash = anchor →
      ReachesAnchor header anchor blocks hash
  | child {hash : BlockHash} : hash ∈ blocks →
      ReachesAnchor header anchor blocks (header hash).parentHash →
      ReachesAnchor header anchor blocks hash

/-- What the graph stores about a block is its header. -/
def Stored (header : BlockHash → Header) : BlockHash → BlockHash → BlockData → Prop :=
  fun hash parent data => parent = (header hash).parentHash ∧ data = headerData (header hash)

/-- A graph that holds exactly the blocks of a set. -/
structure Contains (graph : BlocksGraph) (header : BlockHash → Header)
    (blocks : Finset BlockHash) : Prop where
  wellFormed : graph.WellFormed
  stored : AllBlocks (Stored header) graph
  present : ∀ hash, hash ∈ graph.nodes ↔ hash ∈ blocks

namespace Contains

variable {graph : BlocksGraph} {header : BlockHash → Header} {blocks : Finset BlockHash}

theorem pendingCount_le (contains : graph.Contains header blocks) :
    graph.pendingCount ≤ blocks.card := by
  have bounded : graph.pendingCount ≤ graph.nodes.size := Std.ExtTreeMap.size_filter_le_size
  have listed : graph.nodes.keys.toFinset ⊆ blocks := by
    intro hash membership
    rw [List.mem_toFinset, Std.ExtTreeMap.mem_keys] at membership
    exact (contains.present hash).mp membership
  have size : graph.nodes.keys.toFinset.card = graph.nodes.size := by
    rw [List.toFinset_card_of_nodup (HashMap.keys_nodup graph.nodes),
      Std.ExtTreeMap.length_keys]
  have smaller := Finset.card_le_card listed
  omega

/-! ### The classification -/

theorem reaches_of_connected (contains : graph.Contains header blocks) {hash : BlockHash}
    {path : List BlockHash} (rooted : RootedPath graph.connectedUp hash path) :
    ReachesAnchor header graph.anchor.hash blocks hash := by
  induction rooted with
  | @root hash attached =>
    obtain ⟨node, found⟩ := (connectedUp_isSome graph hash).mp (by simp [attached])
    have member := (contains.present hash).mp ((HashMap.mem_iff_exists _ _).mpr ⟨_, found⟩)
    obtain ⟨parent, -⟩ := contains.stored hash _ found
    rw [connectedUp_of_connected found] at attached
    refine .root member (parent.symm.trans ?_)
    cases shape : node.parent with
    | anchor => simp [nodeParentHash, shape, connectedParentHash]
    | block p => simp [shape, AnchoredRef.up] at attached
  | @child hash p path attached _ inductionHypothesis =>
    obtain ⟨node, found⟩ := (connectedUp_isSome graph hash).mp (by simp [attached])
    have member := (contains.present hash).mp ((HashMap.mem_iff_exists _ _).mpr ⟨_, found⟩)
    obtain ⟨parent, -⟩ := contains.stored hash _ found
    rw [connectedUp_of_connected found] at attached
    have named : (header hash).parentHash = p := by
      rw [← parent]
      cases shape : node.parent with
      | anchor => simp [shape, AnchoredRef.up] at attached
      | block q => simpa [nodeParentHash, shape, connectedParentHash, AnchoredRef.up] using attached
    exact .child member (named ▸ inductionHypothesis)

/-- A pending block waits for a parent outside the tree, so its chain does not arrive. -/
theorem connected_of_reaches (contains : graph.Contains header blocks) {hash : BlockHash}
    (reaches : ReachesAnchor header graph.anchor.hash blocks hash) :
    (graph.connectedUp hash).isSome := by
  have settled : ∀ hash ∈ blocks, (graph.connectedUp hash).isSome ∨
      ((header hash).parentHash ≠ graph.anchor.hash ∧
        graph.connectedUp (header hash).parentHash = none) := by
    intro hash member
    rcases (mem_nodes_iff graph hash).mp ((contains.present hash).mpr member) with
      isConnected | isPending
    · exact .inl isConnected
    · obtain ⟨parent, isPending⟩ := Option.isSome_iff_exists.mp isPending
      obtain ⟨node, found, same⟩ := (pendingParent_eq_some _ _ _).mp isPending
      obtain ⟨named, -⟩ := contains.stored hash _ found
      have detached := contains.wellFormed.pendingDetached hash parent isPending
      have parent_eq : parent = (header hash).parentHash := same.symm.trans named
      rw [parent_eq] at detached
      exact .inr detached
  induction reaches with
  | root member anchored =>
    rcases settled _ member with isConnected | ⟨away, -⟩
    · exact isConnected
    · exact absurd anchored away
  | child member _ inductionHypothesis =>
    rcases settled _ member with isConnected | ⟨-, detached⟩
    · exact isConnected
    · simp [detached] at inductionHypothesis

theorem connected_iff (contains : graph.Contains header blocks) (hash : BlockHash) :
    (graph.connectedUp hash).isSome ↔ ReachesAnchor header graph.anchor.hash blocks hash := by
  constructor
  · intro isConnected
    obtain ⟨path, rooted⟩ := contains.wellFormed.connectedRooted hash isConnected
    exact contains.reaches_of_connected rooted
  · exact contains.connected_of_reaches

/-! ### The nodes -/

/-- The node of a block whose chain arrives at the anchor. -/
def connectedNode (header : BlockHash → Header) (anchor hash : BlockHash) : Node :=
  .connected
    { parent := if (header hash).parentHash = anchor then .anchor
        else .block (header hash).parentHash
      data := headerData (header hash) }

/-- The node of a block whose chain does not. -/
def pendingNode (header : BlockHash → Header) (hash : BlockHash) : Node :=
  .pending { parent := (header hash).parentHash, data := headerData (header hash) }

theorem getElem?_of_reaches (contains : graph.Contains header blocks) {hash : BlockHash}
    (reaches : ReachesAnchor header graph.anchor.hash blocks hash) :
    graph.nodes[hash]? = some (connectedNode header graph.anchor.hash hash) := by
  have isConnected := contains.connected_of_reaches reaches
  obtain ⟨node, found⟩ := (connectedUp_isSome graph hash).mp isConnected
  obtain ⟨parent, data⟩ := contains.stored hash _ found
  obtain ⟨path, rooted⟩ := contains.wellFormed.connectedRooted hash isConnected
  have attached := connectedUp_of_connected found
  obtain ⟨parentRef, payload⟩ := node
  obtain rfl : payload = headerData (header hash) := data
  rw [found, connectedNode]
  congr 3
  cases parentRef with
  | anchor =>
    have anchored : (header hash).parentHash = graph.anchor.hash := parent.symm
    rw [if_pos anchored]
  | block p =>
    obtain rfl : p = (header hash).parentHash := parent
    rw [if_neg]
    intro anchored
    cases rooted with
    | root attached' => simp [attached', AnchoredRef.up] at attached
    | child attached' higher =>
      obtain rfl : _ = (header hash).parentHash := by
        simpa [attached', AnchoredRef.up] using attached
      have absent := contains.wellFormed.anchorAbsent
      rw [← anchored] at absent
      exact absent ((mem_nodes_iff _ _).mpr (.inl higher.isSome))

theorem getElem?_of_not_reaches (contains : graph.Contains header blocks) {hash : BlockHash}
    (member : hash ∈ blocks)
    (detached : ¬ ReachesAnchor header graph.anchor.hash blocks hash) :
    graph.nodes[hash]? = some (pendingNode header hash) := by
  obtain ⟨node, found⟩ := (HashMap.mem_iff_exists _ _).mp ((contains.present hash).mpr member)
  obtain ⟨parent, data⟩ := contains.stored hash _ found
  cases node with
  | connected node =>
    have isConnected := (connectedUp_isSome graph hash).mpr ⟨node, found⟩
    exact absurd ((contains.connected_iff hash).mp isConnected) detached
  | pending node =>
    obtain ⟨raw, payload⟩ := node
    obtain rfl : payload = headerData (header hash) := data
    obtain rfl : raw = (header hash).parentHash := parent
    exact found

/-- Two graphs that hold the same blocks on one anchor hold the same nodes. -/
theorem nodes_eq {graph' : BlocksGraph} (contains : graph.Contains header blocks)
    (contains' : graph'.Contains header blocks)
    (anchor : graph'.anchor.hash = graph.anchor.hash) : graph'.nodes = graph.nodes := by
  apply HashMap.ext_getElem?
  intro hash
  by_cases member : hash ∈ blocks
  · by_cases reaches : ReachesAnchor header graph.anchor.hash blocks hash
    · rw [contains.getElem?_of_reaches reaches,
        contains'.getElem?_of_reaches (by rw [anchor]; exact reaches), anchor]
    · rw [contains.getElem?_of_not_reaches member reaches,
        contains'.getElem?_of_not_reaches member (by rw [anchor]; exact reaches)]
  · rw [(HashMap.getElem?_eq_none_iff _ _).mpr (mt (contains.present hash).mp member),
      (HashMap.getElem?_eq_none_iff _ _).mpr (mt (contains'.present hash).mp member)]

/-! ### Admission -/

theorem new (header : BlockHash → Header) (anchor : BlockHash) (anchorNumber : UInt64) :
    (BlocksGraph.new anchor anchorNumber).Contains header ∅ where
  wellFormed := new_wellFormed anchor anchorNumber
  stored := allBlocks_new anchor anchorNumber
  present := by simp [BlocksGraph.new]

/-- Admitting a block while there is room adds it, and a second time changes nothing. -/
theorem withBlockCapped (contains : graph.Contains header blocks) {hash : BlockHash}
    {maxPending : Nat} (notAnchor : hash ≠ graph.anchor.hash)
    (proper : (header hash).parentHash ≠ hash) (room : blocks.card < maxPending) :
    (graph.withBlockCapped hash (header hash).parentHash (header hash).number
      (header hash).logsBloom maxPending).1.Contains header (insert hash blocks) where
  wellFormed := contains.wellFormed.withBlockCapped _ _ _ _ _
  stored := contains.stored.withDataCapped maxPending (fun _ _ _ => ⟨rfl, rfl⟩)
  present := by
    intro k
    rw [Finset.mem_insert, ← contains.present k]
    have admits := graph.withDataCapped_admits hash (header hash).parentHash
      (headerData (header hash)) maxPending
    change _ ∈ (graph.withDataCapped hash (header hash).parentHash
      (headerData (header hash)) maxPending).1.nodes ↔ _
    generalize graph.withDataCapped hash (header hash).parentHash
      (headerData (header hash)) maxPending = result at admits
    have already : ∀ node, graph.nodes[hash]? = some node →
        (k ∈ graph.nodes ↔ k = hash ∨ k ∈ graph.nodes) := by
      intro node found
      refine ⟨.inr, ?_⟩
      rintro (rfl | member)
      · exact (HashMap.mem_iff_exists _ _).mpr ⟨node, found⟩
      · exact member
    cases admits with
    | selfParent same => exact absurd same.symm proper
    | anchorReadmitted _ same => exact absurd same notAnchor
    | duplicate existing _ _ found _ => exact already existing found
    | conflicting existing _ _ found _ => exact already existing found
    | full _ _ _ _ crowded =>
      have fewer := contains.pendingCount_le
      omega
    | connected _ _ _ _ =>
      rw [mem_promoteReachable]
      simp only [insertConnected]
      grind
    | pending _ _ _ _ _ =>
      simp only [insertPending]
      grind

end Contains

theorem admitInOrder_anchor (header : BlockHash → Header) (maxPending : Nat)
    (graph : BlocksGraph) (order : List BlockHash) :
    (graph.admitInOrder header maxPending order).anchor = graph.anchor ∧
      (graph.admitInOrder header maxPending order).observedHead = graph.observedHead := by
  induction order using List.reverseRecOn with
  | nil => exact ⟨rfl, rfl⟩
  | append_singleton order hash inductionHypothesis =>
    unfold admitInOrder at inductionHypothesis ⊢
    rw [List.foldl_append]
    simp only [List.foldl_cons, List.foldl_nil, BlocksGraph.withBlockCapped,
      withDataCapped_anchor, withDataCapped_observedHead]
    exact inductionHypothesis

theorem admitInOrder_contains {header : BlockHash → Header} {maxPending : Nat}
    {anchor : BlockHash} {blocks : Finset BlockHash} (anchorNumber : UInt64)
    (proper : ∀ hash ∈ blocks, hash ≠ anchor ∧ (header hash).parentHash ≠ hash)
    (room : blocks.card < maxPending) {order : List BlockHash} (within : order.toFinset ⊆ blocks) :
    ((BlocksGraph.new anchor anchorNumber).admitInOrder header maxPending order).Contains header
      order.toFinset := by
  induction order using List.reverseRecOn with
  | nil => exact Contains.new header anchor anchorNumber
  | append_singleton order hash inductionHypothesis =>
    have members : (order ++ [hash]).toFinset = insert hash order.toFinset := by
      ext k
      simp
    rw [members, Finset.insert_subset_iff] at within
    have earlier := inductionHypothesis within.2
    obtain ⟨anchored, -⟩ := admitInOrder_anchor header maxPending
      (BlocksGraph.new anchor anchorNumber) order
    have room' := Nat.lt_of_le_of_lt (Finset.card_le_card within.2) room
    obtain ⟨notAnchor, proper⟩ := proper hash within.1
    rw [members]
    unfold admitInOrder at earlier anchored ⊢
    rw [List.foldl_append]
    apply earlier.withBlockCapped _ proper room'
    rw [anchored]
    exact notAnchor

/-- Admission is confluent. Any two orders of one set, re-deliveries included, give the
same graph, and a block is connected in it when its parent chain inside the set arrives
at the anchor. -/
theorem admitInOrder_confluent (header : BlockHash → Header) (anchor : BlockHash)
    (anchorNumber : UInt64) (blocks : Finset BlockHash) (maxPending : Nat)
    (proper : ∀ hash ∈ blocks, hash ≠ anchor ∧ (header hash).parentHash ≠ hash)
    (room : blocks.card < maxPending) (order order' : List BlockHash)
    (listed : order.toFinset = blocks) (listed' : order'.toFinset = blocks) :
    let graph := (BlocksGraph.new anchor anchorNumber).admitInOrder header maxPending order
    graph = (BlocksGraph.new anchor anchorNumber).admitInOrder header maxPending order' ∧
    ∀ hash,
      (hash ∉ blocks → hash ∉ graph.nodes) ∧
      ((graph.connected hash).isSome ↔ ReachesAnchor header anchor blocks hash) ∧
      (ReachesAnchor header anchor blocks hash →
        graph.nodes[hash]? = some (Contains.connectedNode header anchor hash)) ∧
      (hash ∈ blocks → ¬ ReachesAnchor header anchor blocks hash →
        graph.nodes[hash]? = some (Contains.pendingNode header hash)) := by
  intro graph
  have contains : graph.Contains header blocks := by
    have admitted := admitInOrder_contains anchorNumber proper room (le_of_eq listed)
    rwa [listed] at admitted
  have contains' := admitInOrder_contains anchorNumber proper room (le_of_eq listed')
  rw [listed'] at contains'
  obtain ⟨anchored, head⟩ := admitInOrder_anchor header maxPending
    (BlocksGraph.new anchor anchorNumber) order
  obtain ⟨anchored', head'⟩ := admitInOrder_anchor header maxPending
    (BlocksGraph.new anchor anchorNumber) order'
  have anchorHash : graph.anchor.hash = anchor := by
    simp only [graph]
    rw [anchored]
    rfl
  refine ⟨?_, ?_⟩
  · have nodes := contains'.nodes_eq contains (by rw [anchorHash, anchored']; rfl)
    simp only [graph] at nodes anchorHash ⊢
    generalize (BlocksGraph.new anchor anchorNumber).admitInOrder header maxPending order = first
      at anchored head nodes
    generalize (BlocksGraph.new anchor anchorNumber).admitInOrder header maxPending order' = second
      at anchored' head' nodes
    cases first
    cases second
    simp_all
  · intro hash
    rw [connected_isSome, contains.connected_iff, anchorHash]
    refine ⟨?_, Iff.rfl, ?_, ?_⟩
    · intro absent present
      exact absent ((contains.present hash).mp present)
    · intro reaches
      rw [contains.getElem?_of_reaches (by rw [anchorHash]; exact reaches), anchorHash]
    · intro member detached
      exact contains.getElem?_of_not_reaches member (by rw [anchorHash]; exact detached)

/-- Two blocks on the anchor, the second on top of the first, and two orphans that name
each other as their parent. -/
def sampleHeader (hash : BlockHash) : Header where
  parentHash :=
    if hash = 0x11 then 0x10 else if hash = 0x12 then 0x11 else if hash = 0x30 then 0x31 else 0x30
  logsBloom := 0
  number := 101

theorem admitInOrder_confluent_sampleHeader :
    let graph := (BlocksGraph.new 0x10 100).admitInOrder sampleHeader 8 [0x12, 0x30, 0x11, 0x31]
    graph = (BlocksGraph.new 0x10 100).admitInOrder sampleHeader 8
        [0x31, 0x11, 0x30, 0x12, 0x30] ∧
      (graph.connected 0x12).isSome := by
  have proper : ∀ hash ∈ ({0x11, 0x12, 0x30, 0x31} : Finset BlockHash),
      hash ≠ 0x10 ∧ (sampleHeader hash).parentHash ≠ hash := by simp [sampleHeader]
  have room : ({0x11, 0x12, 0x30, 0x31} : Finset BlockHash).card < 8 := by simp
  have listed : [0x12, 0x30, 0x11, 0x31].toFinset =
      ({0x11, 0x12, 0x30, 0x31} : Finset BlockHash) := by
    ext hash
    simp only [List.mem_toFinset, List.mem_cons, Finset.mem_insert, Finset.mem_singleton]
    grind
  have listed' : [0x31, 0x11, 0x30, 0x12, 0x30].toFinset =
      ({0x11, 0x12, 0x30, 0x31} : Finset BlockHash) := by
    ext hash
    simp only [List.mem_toFinset, List.mem_cons, Finset.mem_insert, Finset.mem_singleton]
    grind
  have below : ReachesAnchor sampleHeader 0x10 {0x11, 0x12, 0x30, 0x31} 0x11 :=
    .root (by simp) (by simp [sampleHeader])
  obtain ⟨same, nodes⟩ := admitInOrder_confluent sampleHeader 0x10 100 {0x11, 0x12, 0x30, 0x31} 8
    proper room _ _ listed listed'
  exact ⟨same, (nodes 0x12).2.1.mpr (.child (by simp) below)⟩

end ArmchairAnalyst.BlocksGraph

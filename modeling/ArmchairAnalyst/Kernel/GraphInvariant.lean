import ArmchairAnalyst.Kernel.BlocksGraph

/-!
# The representation invariant of the blocks graph

Every operation leaves connected blocks rooted at the anchor and pending blocks
detached from it. The invariant is phrased over two views of the node map: where
a connected node hangs, and the raw parent of a pending node.
-/

namespace ArmchairAnalyst.BlocksGraph

/-- The raw parent of a pending node. -/
def pendingParent (graph : BlocksGraph) (hash : BlockHash) : Option BlockHash :=
  match graph.nodes[hash]? with
  | some (.pending node) => some node.parent
  | _ => none

structure WellFormed (graph : BlocksGraph) : Prop where
  anchorAbsent : graph.anchor.hash ∉ graph.nodes
  connectedRooted : ∀ hash, (graph.connectedUp hash).isSome →
    ∃ path, RootedPath graph.connectedUp hash path
  pendingDetached : ∀ hash parent, graph.pendingParent hash = some parent →
    parent ≠ graph.anchor.hash ∧ graph.connectedUp parent = none
  headPresent : graph.observedHead = graph.anchor.hash ∨ graph.observedHead ∈ graph.nodes

/-! ### The two views -/

theorem connected_eq_some (graph : BlocksGraph) (hash : BlockHash) (node : ConnectedNode) :
    graph.connected hash = some node ↔ graph.nodes[hash]? = some (.connected node) := by
  unfold connected
  split <;> simp_all

theorem connectedUp_isSome (graph : BlocksGraph) (hash : BlockHash) :
    (graph.connectedUp hash).isSome ↔ ∃ node, graph.nodes[hash]? = some (.connected node) := by
  simp [connectedUp, Option.isSome_iff_exists, connected_eq_some]

theorem connected_isSome (graph : BlocksGraph) (hash : BlockHash) :
    (graph.connected hash).isSome = (graph.connectedUp hash).isSome := by
  simp [connectedUp]

theorem connectedUp_of_connected {graph : BlocksGraph} {hash : BlockHash} {node : ConnectedNode}
    (found : graph.nodes[hash]? = some (.connected node)) :
    graph.connectedUp hash = some node.parent.up := by
  simp [connectedUp, (connected_eq_some graph hash node).mpr found]

theorem pendingParent_eq_some (graph : BlocksGraph) (hash parent : BlockHash) :
    graph.pendingParent hash = some parent ↔
      ∃ node, graph.nodes[hash]? = some (.pending node) ∧ node.parent = parent := by
  unfold pendingParent
  split <;> simp_all

theorem mem_nodes_iff (graph : BlocksGraph) (hash : BlockHash) :
    hash ∈ graph.nodes ↔
      (graph.connectedUp hash).isSome ∨ (graph.pendingParent hash).isSome := by
  rw [HashMap.mem_iff_exists, connectedUp_isSome, Option.isSome_iff_exists]
  simp only [pendingParent_eq_some]
  constructor
  · rintro ⟨node, found⟩
    cases node with
    | connected node => exact .inl ⟨node, found⟩
    | pending node => exact .inr ⟨node.parent, node, found, rfl⟩
  · rintro (⟨node, found⟩ | ⟨_, node, found, _⟩)
    · exact ⟨_, found⟩
    · exact ⟨_, found⟩

/-- The invariant only depends on the two views. -/
theorem WellFormed.congr {graph graph' : BlocksGraph} (wellFormed : graph.WellFormed)
    (anchor : graph'.anchor.hash = graph.anchor.hash)
    (up : graph'.connectedUp = graph.connectedUp)
    (pending : graph'.pendingParent = graph.pendingParent)
    (head : graph'.observedHead = graph.anchor.hash ∨ graph'.observedHead ∈ graph.nodes) :
    graph'.WellFormed where
  anchorAbsent := by
    rw [mem_nodes_iff, up, pending, anchor, ← mem_nodes_iff]
    exact wellFormed.anchorAbsent
  connectedRooted := by
    rw [up]
    exact wellFormed.connectedRooted
  pendingDetached := by
    rw [up, pending, anchor]
    exact wellFormed.pendingDetached
  headPresent := by
    rw [mem_nodes_iff, up, pending, anchor, ← mem_nodes_iff]
    exact head

theorem new_wellFormed (anchor : BlockHash) (anchorNumber : UInt64) :
    (BlocksGraph.new anchor anchorNumber).WellFormed where
  anchorAbsent := by simp [new]
  connectedRooted := by
    intro hash isConnected
    obtain ⟨node, found⟩ := (connectedUp_isSome _ hash).mp isConnected
    simp [new] at found
  pendingDetached := by
    intro hash parent isPending
    obtain ⟨node, found, -⟩ := (pendingParent_eq_some _ hash parent).mp isPending
    simp [new] at found
  headPresent := .inl rfl

/-! ### Changing a payload -/

theorem getElem?_modifyData (graph : BlocksGraph) (hash k : BlockHash)
    (f : BlockData → BlockData) :
    (graph.modifyData hash f).nodes[k]? =
      if k = hash then graph.nodes[k]?.map (Node.mapData f) else graph.nodes[k]? := by
  unfold modifyData
  split
  · rename_i node found
    by_cases same : k = hash
    · simp [same, found]
    · grind
  · rename_i absent
    by_cases same : k = hash
    · simp [same, absent]
    · simp [same]

@[simp] theorem modifyData_anchor (graph : BlocksGraph) (hash : BlockHash)
    (f : BlockData → BlockData) : (graph.modifyData hash f).anchor = graph.anchor := by
  unfold modifyData
  split <;> rfl

@[simp] theorem modifyData_observedHead (graph : BlocksGraph) (hash : BlockHash)
    (f : BlockData → BlockData) :
    (graph.modifyData hash f).observedHead = graph.observedHead := by
  unfold modifyData
  split <;> rfl

@[simp] theorem connectedUp_modifyData (graph : BlocksGraph) (hash : BlockHash)
    (f : BlockData → BlockData) : (graph.modifyData hash f).connectedUp = graph.connectedUp := by
  funext k
  simp only [connectedUp, connected, getElem?_modifyData]
  by_cases same : k = hash
  · subst same
    cases graph.nodes[k]? with
    | none => simp
    | some node => cases node <;> simp [Node.mapData]
  · simp [same]

@[simp] theorem pendingParent_modifyData (graph : BlocksGraph) (hash : BlockHash)
    (f : BlockData → BlockData) :
    (graph.modifyData hash f).pendingParent = graph.pendingParent := by
  funext k
  simp only [pendingParent, getElem?_modifyData]
  by_cases same : k = hash
  · subst same
    cases graph.nodes[k]? with
    | none => simp
    | some node => cases node <;> simp [Node.mapData]
  · simp [same]

theorem mem_modifyData (graph : BlocksGraph) (hash k : BlockHash) (f : BlockData → BlockData) :
    k ∈ (graph.modifyData hash f).nodes ↔ k ∈ graph.nodes := by
  simp [mem_nodes_iff]

theorem WellFormed.modifyData {graph : BlocksGraph} (wellFormed : graph.WellFormed)
    (hash : BlockHash) (f : BlockData → BlockData) : (graph.modifyData hash f).WellFormed :=
  wellFormed.congr (by simp) (by simp) (by simp) (by simpa using wellFormed.headPresent)

theorem WellFormed.withObservedHead {graph : BlocksGraph} (wellFormed : graph.WellFormed)
    (hash : BlockHash) : (graph.withObservedHead hash).WellFormed := by
  unfold BlocksGraph.withObservedHead
  split
  · rename_i present
    exact wellFormed.congr rfl rfl rfl present
  · exact wellFormed

theorem WellFormed.withStreamedLogs {graph : BlocksGraph} (wellFormed : graph.WellFormed)
    (hash : BlockHash) (logs : List PoolLog) : (graph.withStreamedLogs hash logs).WellFormed :=
  wellFormed.modifyData hash _

theorem WellFormed.withCompleteLogs {graph : BlocksGraph} (wellFormed : graph.WellFormed)
    (hash : BlockHash) (logs : List PoolLog) : (graph.withCompleteLogs hash logs).1.WellFormed :=
  wellFormed.modifyData hash _

/-! ### Promotion -/

/-- What promotion below a newly connected parent makes of a node. -/
def promoteNode (parent : ConnectedHash) : Node → Node
  | .connected node => .connected node
  | .pending node =>
    if node.parent = parent then .connected { parent := .block parent, data := node.data }
    else .pending node

theorem mem_pendingChildren (nodes : HashMap BlockHash Node) (parent child : BlockHash) :
    child ∈ pendingChildren nodes parent ↔
      ∃ node, nodes[child]? = some (.pending node) ∧ node.parent = parent := by
  simp only [pendingChildren, List.mem_filterMap]
  constructor
  · rintro ⟨⟨k, node⟩, listed, selected⟩
    have found := (HashMap.mem_toList_iff nodes _).mp listed
    cases node with
    | connected node => simp at selected
    | pending node =>
      by_cases same : node.parent = parent
      · obtain rfl : k = child := by simpa [same] using selected
        exact ⟨node, found, same⟩
      · simp [same] at selected
  · rintro ⟨node, found, rfl⟩
    exact ⟨(child, .pending node), (HashMap.mem_toList_iff nodes _).mpr found, by simp⟩

theorem pendingChildren_nodup (nodes : HashMap BlockHash Node) (parent : BlockHash) :
    (pendingChildren nodes parent).Nodup := by
  have keys : (pendingChildren nodes parent).Sublist (nodes.toList.map Prod.fst) := by
    unfold pendingChildren
    induction nodes.toList with
    | nil => simp
    | cons entry entries inductionHypothesis =>
      obtain ⟨k, node⟩ := entry
      cases node with
      | connected node => simpa using inductionHypothesis.cons k
      | pending node =>
        by_cases same : node.parent = parent
        · simpa [same] using inductionHypothesis.cons_cons k
        · simpa [same] using inductionHypothesis.cons k
  rw [Std.ExtTreeMap.map_fst_toList_eq_keys] at keys
  exact keys.nodup (HashMap.keys_nodup nodes)

theorem getElem?_promoteChild {nodes : HashMap BlockHash Node} (parent : BlockHash)
    {child : BlockHash} {node : PendingNode} (found : nodes[child]? = some (.pending node))
    (k : BlockHash) :
    (promoteChild parent nodes child)[k]? =
      if k = child then some (.connected { parent := .block parent, data := node.data })
      else nodes[k]? := by
  simp only [promoteChild, found]
  grind

/-- The number of pending entries of a node map. -/
def pendingEntries (nodes : HashMap BlockHash Node) : Nat :=
  (nodes.filter (fun _ node => node.isPending)).size

theorem pendingEntries_promoteChild {nodes : HashMap BlockHash Node} (parent : BlockHash)
    {child : BlockHash} {node : PendingNode} (found : nodes[child]? = some (.pending node)) :
    pendingEntries (promoteChild parent nodes child) + 1 = pendingEntries nodes := by
  have erased : (promoteChild parent nodes child).filter (fun _ node => node.isPending) =
      (nodes.filter (fun _ node => node.isPending)).erase child := by
    apply HashMap.ext_getElem?
    intro k
    rw [HashMap.getElem?_retain, getElem?_promoteChild parent found, Std.ExtTreeMap.getElem?_erase,
      HashMap.getElem?_retain]
    by_cases same : k = child
    · simp [same, Node.isPending]
    · simp [same, Ne.symm same]
  have member : child ∈ nodes.filter (fun _ node => node.isPending) := by
    rw [HashMap.mem_iff_exists]
    exact ⟨.pending node, by simp [found, Node.isPending]⟩
  unfold pendingEntries
  rw [erased, Std.ExtTreeMap.size_erase]
  have positive : 0 < (nodes.filter (fun _ node => node.isPending)).size := by
    rw [Nat.pos_iff_ne_zero]
    intro empty
    rw [← Std.ExtTreeMap.length_toList, List.length_eq_zero_iff] at empty
    obtain ⟨v, found⟩ := (HashMap.mem_iff_exists _ _).mp member
    have listed := (HashMap.mem_toList_iff _ (child, v)).mpr found
    simp [empty] at listed
  rw [if_pos (Std.ExtTreeMap.contains_iff_mem.mpr member)]
  omega

/-- Promoting a list of distinct pending children of one parent. -/
theorem promoteChildren_spec {parent : BlockHash} {children : List BlockHash}
    {nodes : HashMap BlockHash Node} (distinct : children.Nodup)
    (pending : ∀ child ∈ children, ∃ node, nodes[child]? = some (.pending node) ∧
      node.parent = parent) :
    pendingEntries (children.foldl (promoteChild parent) nodes) + children.length =
        pendingEntries nodes ∧
      ∀ k : BlockHash, (children.foldl (promoteChild parent) nodes)[k]? =
        if k ∈ children then nodes[k]?.map (promoteNode parent) else nodes[k]? := by
  induction children generalizing nodes with
  | nil => simp
  | cons child children inductionHypothesis =>
    obtain ⟨fresh, distinct⟩ := List.nodup_cons.mp distinct
    obtain ⟨node, found, attached⟩ := pending child List.mem_cons_self
    have lookup := getElem?_promoteChild parent found
    have pending' : ∀ other ∈ children, ∃ node,
        (promoteChild parent nodes child)[other]? = some (.pending node) ∧
          node.parent = parent := by
      intro other membership
      obtain ⟨node', found', attached'⟩ := pending other (List.mem_cons_of_mem _ membership)
      refine ⟨node', ?_, attached'⟩
      rw [lookup, if_neg (by rintro rfl; exact fresh membership)]
      exact found'
    obtain ⟨count, others⟩ := inductionHypothesis distinct pending'
    have one := pendingEntries_promoteChild parent found
    refine ⟨by simp only [List.foldl_cons, List.length_cons]; omega, ?_⟩
    intro k
    rw [List.foldl_cons, others, lookup]
    by_cases same : k = child
    · subst same
      simp [fresh, found, promoteNode, attached]
    · simp [same]

/-- The loop invariant of promotion: pending nodes below a connected one are
exactly those the worklist still has to reach. -/
structure Promoting (graph : BlocksGraph) (frontier : List ConnectedHash) : Prop where
  connectedRooted : ∀ hash, (graph.connectedUp hash).isSome →
    ∃ path, RootedPath graph.connectedUp hash path
  frontierConnected : ∀ hash ∈ frontier, (graph.connectedUp hash).isSome
  pendingDetached : ∀ hash parent, graph.pendingParent hash = some parent →
    parent ≠ graph.anchor.hash ∧
      ((graph.connectedUp parent).isSome → parent ∈ frontier)

/-- One round of promotion, as a change of the graph. -/
def promoteOnce (graph : BlocksGraph) (hash : ConnectedHash) : BlocksGraph :=
  { graph with nodes := (pendingChildren graph.nodes hash).foldl (promoteChild hash) graph.nodes }

theorem getElem?_promoteOnce (graph : BlocksGraph) (hash k : BlockHash) :
    (graph.promoteOnce hash).nodes[k]? = graph.nodes[k]?.map (promoteNode hash) := by
  have spec := (promoteChildren_spec (pendingChildren_nodup graph.nodes hash)
    (fun child => (mem_pendingChildren graph.nodes hash child).mp)).2 k
  simp only [promoteOnce]
  rw [spec]
  split
  · rfl
  · rename_i other
    cases found : graph.nodes[k]? with
    | none => rfl
    | some node =>
      cases node with
      | connected node => rfl
      | pending node =>
        have elsewhere : node.parent ≠ hash := by
          rintro attached
          exact other ((mem_pendingChildren _ _ _).mpr ⟨node, found, attached⟩)
        simp [promoteNode, elsewhere]

theorem connectedUp_promoteOnce (graph : BlocksGraph) (hash k : BlockHash) :
    (graph.promoteOnce hash).connectedUp k =
      if graph.pendingParent k = some hash then some (some hash) else graph.connectedUp k := by
  simp only [connectedUp, connected, getElem?_promoteOnce, pendingParent]
  rcases Option.eq_none_or_eq_some graph.nodes[k]? with found | ⟨node, found⟩
  · simp [found]
  · cases node with
    | connected node => simp [found, promoteNode]
    | pending node =>
      by_cases attached : node.parent = hash
      · simp [found, promoteNode, attached, AnchoredRef.up]
      · simp [found, promoteNode, attached]

theorem pendingParent_promoteOnce (graph : BlocksGraph) (hash k : BlockHash) :
    (graph.promoteOnce hash).pendingParent k =
      if graph.pendingParent k = some hash then none else graph.pendingParent k := by
  simp only [getElem?_promoteOnce, pendingParent]
  rcases Option.eq_none_or_eq_some graph.nodes[k]? with found | ⟨node, found⟩
  · simp [found]
  · cases node with
    | connected node => simp [found, promoteNode]
    | pending node =>
      by_cases attached : node.parent = hash
      · simp [found, promoteNode, attached]
      · simp [found, promoteNode, attached]

theorem connectedUp_eq_none_of_pending {graph : BlocksGraph} {hash parent : BlockHash}
    (isPending : graph.pendingParent hash = some parent) : graph.connectedUp hash = none := by
  obtain ⟨node, found, -⟩ := (pendingParent_eq_some graph hash parent).mp isPending
  simp [connectedUp, connected, found]

theorem Promoting.step {graph : BlocksGraph} {hash : ConnectedHash}
    {frontier : List ConnectedHash} (promoting : graph.Promoting (hash :: frontier)) :
    (graph.promoteOnce hash).Promoting
      ((pendingChildren graph.nodes hash).reverse ++ frontier) := by
  have child (k : BlockHash) :
      k ∈ pendingChildren graph.nodes hash ↔ graph.pendingParent k = some hash := by
    rw [mem_pendingChildren, pendingParent_eq_some]
  have grows : ∀ x parent, graph.connectedUp x = some parent →
      (graph.promoteOnce hash).connectedUp x = some parent := by
    intro x parent isConnected
    rw [connectedUp_promoteOnce, if_neg]
    · exact isConnected
    · intro isPending
      simp [connectedUp_eq_none_of_pending isPending] at isConnected
  obtain ⟨path, rooted⟩ := promoting.connectedRooted hash
    (promoting.frontierConnected hash List.mem_cons_self)
  have above := rooted.mono grows
  refine ⟨?_, ?_, ?_⟩
  · intro k isConnected
    rw [connectedUp_promoteOnce] at isConnected
    by_cases promoted : graph.pendingParent k = some hash
    · exact ⟨k :: path, .child (by rw [connectedUp_promoteOnce, if_pos promoted]) above⟩
    · obtain ⟨path', rooted'⟩ := promoting.connectedRooted k (by simpa [promoted] using isConnected)
      exact ⟨path', rooted'.mono grows⟩
  · intro k membership
    rcases List.mem_append.mp membership with membership | membership
    · rw [connectedUp_promoteOnce, if_pos ((child k).mp (List.mem_reverse.mp membership))]
      rfl
    · obtain ⟨parent, isConnected⟩ := Option.isSome_iff_exists.mp
        (promoting.frontierConnected k (List.mem_cons_of_mem _ membership))
      rw [grows k parent isConnected]
      rfl
  · intro k parent isPending
    rw [pendingParent_promoteOnce] at isPending
    split at isPending
    · simp at isPending
    · rename_i remains
      obtain ⟨away, waits⟩ := promoting.pendingDetached k parent isPending
      refine ⟨away, ?_⟩
      intro isConnected
      rw [connectedUp_promoteOnce] at isConnected
      by_cases promoted : graph.pendingParent parent = some hash
      · exact List.mem_append_left _ (List.mem_reverse.mpr ((child parent).mpr promoted))
      · have waiting := waits (by simpa [promoted] using isConnected)
        rcases List.mem_cons.mp waiting with rfl | waiting
        · exact absurd isPending remains
        · exact List.mem_append_right _ waiting

/-- The loop ends with an empty worklist: a round removes one entry from the
worklist and turns the children it adds from pending to connected. -/
theorem Promoting.promoteFrontier {graph : BlocksGraph} {frontier : List ConnectedHash}
    {fuel : Nat} (promoting : graph.Promoting frontier)
    (enough : frontier.length + pendingEntries graph.nodes ≤ fuel) :
    ({ graph with nodes := promoteFrontier fuel graph.nodes frontier } : BlocksGraph).Promoting
      [] := by
  induction fuel generalizing graph frontier with
  | zero =>
    obtain rfl : frontier = [] := List.length_eq_zero_iff.mp (by omega)
    exact promoting
  | succ fuel inductionHypothesis =>
    cases frontier with
    | nil => exact promoting
    | cons hash frontier =>
      have count := (promoteChildren_spec (pendingChildren_nodup graph.nodes hash)
        (fun child => (mem_pendingChildren graph.nodes hash child).mp)).1
      apply inductionHypothesis promoting.step
      simp only [promoteOnce, List.length_append, List.length_reverse]
      simp only [List.length_cons] at enough
      omega

/-! ### What promotion keeps -/

/-- Promotion keeps a node or connects it under its raw parent. -/
inductive Promoted : Node → Node → Prop
  | same (node : Node) : Promoted node node
  | connect (node : PendingNode) :
      Promoted (.pending node) (.connected { parent := .block node.parent, data := node.data })

theorem Promoted.trans {first second third : Node} (promoted : Promoted first second)
    (promoted' : Promoted second third) : Promoted first third := by
  cases promoted with
  | same _ => exact promoted'
  | connect node =>
    cases promoted' with
    | same _ => exact .connect node

theorem Promoted.data {node node' : Node} (promoted : Promoted node node') :
    node'.data = node.data := by
  cases promoted <;> rfl

theorem Promoted.nodeParentHash {node node' : Node} (promoted : Promoted node node')
    (graph : BlocksGraph) : graph.nodeParentHash node' = graph.nodeParentHash node := by
  cases promoted <;> rfl

theorem promoted_promoteNode (parent : ConnectedHash) (node : Node) :
    Promoted node (promoteNode parent node) := by
  cases node with
  | connected node => exact .same _
  | pending node =>
    by_cases attached : node.parent = parent
    · subst attached
      simpa [promoteNode] using Promoted.connect node
    · simpa [promoteNode, attached] using Promoted.same (.pending node)

theorem promoted_promoteFrontier (graph : BlocksGraph) (fuel : Nat)
    (frontier : List ConnectedHash) (k : BlockHash) :
    Option.Rel Promoted graph.nodes[k]? (promoteFrontier fuel graph.nodes frontier)[k]? := by
  induction fuel generalizing graph frontier with
  | zero =>
    simp only [promoteFrontier]
    cases graph.nodes[k]? with
    | none => exact .none
    | some node => exact .some (.same node)
  | succ fuel inductionHypothesis =>
    cases frontier with
    | nil =>
      simp only [promoteFrontier]
      cases graph.nodes[k]? with
      | none => exact .none
      | some node => exact .some (.same node)
    | cons hash frontier =>
      have later := inductionHypothesis (graph.promoteOnce hash)
        ((pendingChildren graph.nodes hash).reverse ++ frontier)
      rw [getElem?_promoteOnce] at later
      simp only [promoteFrontier]
      cases found : graph.nodes[k]? with
      | none =>
        rw [found] at later
        cases lookup : (BlocksGraph.promoteFrontier fuel (graph.promoteOnce hash).nodes
          ((pendingChildren graph.nodes hash).reverse ++ frontier))[k]? with
        | none =>
          simp only [promoteOnce] at lookup
          rw [lookup]
          exact .none
        | some node =>
          rw [lookup] at later
          cases later
      | some node =>
        rw [found] at later
        cases lookup : (BlocksGraph.promoteFrontier fuel (graph.promoteOnce hash).nodes
          ((pendingChildren graph.nodes hash).reverse ++ frontier))[k]? with
        | none =>
          rw [lookup] at later
          cases later
        | some node' =>
          rw [lookup] at later
          simp only [promoteOnce] at lookup
          rw [lookup]
          cases later with
          | some promoted => exact .some ((promoted_promoteNode hash node).trans promoted)

end ArmchairAnalyst.BlocksGraph

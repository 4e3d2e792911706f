import ArmchairAnalyst.Kernel.AdmissionProofs

/-!
# Walks and re-anchoring

On a well-formed graph the connected walks return whole paths, so a re-root keeps
exactly the blocks whose path passes through the new anchor.
-/

namespace ArmchairAnalyst.BlocksGraph

/-! ### Connected walks -/

theorem connectedUp_mem {graph : BlocksGraph} {hash : BlockHash}
    (isConnected : (graph.connectedUp hash).isSome) : hash ∈ graph.nodes :=
  (mem_nodes_iff graph hash).mpr (.inl isConnected)

/-- A path is no longer than the number of nodes. -/
theorem rootedPath_length_le {graph : BlocksGraph} {hash : BlockHash} {path : List BlockHash}
    (rooted : RootedPath graph.connectedUp hash path) : path.length ≤ graph.nodes.size := by
  rw [← Std.ExtTreeMap.length_keys]
  exact rooted.length_le (fun x isConnected => Std.ExtTreeMap.mem_keys.mpr
    (connectedUp_mem isConnected))

theorem connectedOldestToNewest_eq {graph : BlocksGraph} {hash : BlockHash}
    {path : List BlockHash} (rooted : RootedPath graph.connectedUp hash path) :
    graph.connectedOldestToNewest hash = path.reverse := by
  unfold connectedOldestToNewest
  rw [rooted.walkUp_eq (Nat.le_succ_of_le (rootedPath_length_le rooted))]

theorem connectedOldestToNewest_eq_nil {graph : BlocksGraph} {hash : BlockHash}
    (absent : graph.connectedUp hash = none) : graph.connectedOldestToNewest hash = [] := by
  unfold connectedOldestToNewest
  rw [walkUp_eq_nil absent]
  rfl

theorem connected_of_mem_path {graph : BlocksGraph} {hash x : BlockHash} {path : List BlockHash}
    (rooted : RootedPath graph.connectedUp hash path) (membership : x ∈ path) :
    ∃ node, graph.connected x = some node := by
  have isConnected := rooted.isSome_of_mem membership
  rw [← connected_isSome] at isConnected
  exact Option.isSome_iff_exists.mp isConnected

/-! ### Descendants -/

/-- The visited set never meets a path, so the guarded walk decides membership in it. -/
theorem connectedDescendsFrom_eq {graph : BlocksGraph} (ancestor : BlockHash) {start : BlockHash}
    {path : List BlockHash} (rooted : RootedPath graph.connectedUp start path) {fuel : Nat}
    {visited : HashSet BlockHash} (enough : path.length < fuel)
    (apart : ∀ x ∈ path, x ∉ visited) :
    connectedDescendsFrom graph.nodes ancestor fuel visited start = decide (ancestor ∈ path) := by
  induction rooted generalizing fuel visited with
  | @root start attached =>
    obtain ⟨fuel, rfl⟩ : ∃ n, fuel = n + 1 := ⟨fuel - 1, by omega⟩
    have unseen := apart start (by simp)
    obtain ⟨node, found⟩ := (connectedUp_isSome graph start).mp (by simp [attached])
    have parent : node.parent = .anchor := by
      rw [connectedUp_of_connected found] at attached
      cases shape : node.parent with
      | anchor => rfl
      | block p => simp [shape, AnchoredRef.up] at attached
    by_cases same : start = ancestor
    · simp [connectedDescendsFrom, same]
    · simp [connectedDescendsFrom, same, Ne.symm same, unseen, found, parent]
  | @child start p path attached higher inductionHypothesis =>
    obtain ⟨fuel, rfl⟩ : ∃ n, fuel = n + 1 := ⟨fuel - 1, by omega⟩
    have unseen := apart start (by simp)
    have distinct := (RootedPath.child attached higher).nodup
    obtain ⟨node, found⟩ := (connectedUp_isSome graph start).mp (by simp [attached])
    have parent : node.parent = .block p := by
      rw [connectedUp_of_connected found] at attached
      cases shape : node.parent with
      | anchor => simp [shape, AnchoredRef.up] at attached
      | block q => simpa [shape, AnchoredRef.up] using attached
    by_cases same : start = ancestor
    · simp [connectedDescendsFrom, same]
    · have apart' : ∀ x ∈ path, x ∉ visited.insert start := by
        intro x membership
        have notStart : x ≠ start := by
          rintro rfl
          exact (List.nodup_cons.mp distinct).1 membership
        have unseen' := apart x (List.mem_cons_of_mem _ membership)
        grind
      have shorter : path.length < fuel := by simpa using enough
      have rest := inductionHypothesis shorter apart'
      simp [connectedDescendsFrom, same, Ne.symm same, unseen, found, parent, rest]

theorem survives_eq_true {graph : BlocksGraph} (wellFormed : graph.WellFormed)
    {newAnchor hash : BlockHash} {node : Node} (found : graph.nodes[hash]? = some node) :
    survives graph.nodes newAnchor hash node = true ↔
      hash ≠ newAnchor ∧ ∃ path, RootedPath graph.connectedUp hash path ∧ newAnchor ∈ path := by
  cases node with
  | pending node =>
    simp only [survives, Node.isPending, Bool.not_true, Bool.false_and, Bool.false_eq_true,
      false_iff]
    rintro ⟨-, path, rooted, -⟩
    have isConnected := rooted.isSome
    rw [connectedUp_isSome] at isConnected
    simp [found] at isConnected
  | connected node =>
    obtain ⟨path, rooted⟩ := wellFormed.connectedRooted hash
      ((connectedUp_isSome graph hash).mpr ⟨node, found⟩)
    have unvisited : ∀ x ∈ path, x ∉ (∅ : HashSet BlockHash) := by simp
    have decides := connectedDescendsFrom_eq newAnchor rooted
      (Nat.lt_succ_of_le (rootedPath_length_le rooted)) unvisited
    simp only [survives, Node.isPending, decides, Bool.not_false, Bool.true_and,
      Bool.and_eq_true, bne_iff_ne, decide_eq_true_eq]
    refine and_congr_right (fun _ => ⟨fun membership => ⟨path, rooted, membership⟩, ?_⟩)
    rintro ⟨other, rooted', membership⟩
    rwa [rooted.unique rooted']

/-! ### The re-rooted graph -/

/-- The graph after a re-root onto one of its connected nodes. -/
def rerooted (graph : BlocksGraph) (newAnchor : BlockHash) (node : ConnectedNode) : BlocksGraph :=
  let nodes := (graph.nodes.filter (survives graph.nodes newAnchor)).map
    (fun _ node => reroot newAnchor node)
  { anchor := { hash := newAnchor, number := node.data.number }
    nodes
    observedHead :=
      if graph.observedHead = newAnchor ∨ graph.observedHead ∈ nodes then graph.observedHead
      else newAnchor }

/-- Re-anchoring is idle at the anchor and off the tree, and re-roots everywhere else. -/
theorem reanchoredTo_cases (graph : BlocksGraph) (newAnchor : ConnectedHash)
    (base : HashMap PoolRef PoolState) (verified : HashSet PoolRef) :
    graph.reanchoredTo newAnchor base verified = (graph, base) ∨
      ∃ node, newAnchor ≠ graph.anchor.hash ∧ graph.connected newAnchor = some node ∧
        graph.reanchoredTo newAnchor base verified =
          (graph.rerooted newAnchor node,
            graph.foldedPoolStates base verified newAnchor .requireComplete) := by
  unfold reanchoredTo
  split
  · exact .inl rfl
  · split
    · exact .inl rfl
    · rename_i node found
      exact .inr ⟨node, by assumption, found, rfl⟩

theorem getElem?_rerooted (graph : BlocksGraph) (newAnchor k : BlockHash)
    (node : ConnectedNode) :
    (graph.rerooted newAnchor node).nodes[k]? =
      (graph.nodes[k]?.filter (survives graph.nodes newAnchor k)).map (reroot newAnchor) := by
  simp only [rerooted, Std.ExtTreeMap.getElem?_map, HashMap.getElem?_retain]

/-- A block of the re-rooted graph is a connected block whose path passes through
the new anchor. -/
theorem mem_rerooted {graph : BlocksGraph} (wellFormed : graph.WellFormed)
    {newAnchor k : BlockHash} (anchorNode : ConnectedNode) {node : Node} :
    (graph.rerooted newAnchor anchorNode).nodes[k]? = some node ↔
      ∃ original, graph.nodes[k]? = some (.connected original) ∧
        node = reroot newAnchor (.connected original) ∧ k ≠ newAnchor ∧
        ∃ path, RootedPath graph.connectedUp k path ∧ newAnchor ∈ path := by
  rw [getElem?_rerooted]
  constructor
  · intro found
    obtain ⟨original, kept, rfl⟩ := Option.map_eq_some_iff.mp found
    obtain ⟨found, survived⟩ := Option.filter_eq_some_iff.mp kept
    obtain ⟨proper, path, rooted, passes⟩ := (survives_eq_true wellFormed found).mp survived
    obtain ⟨node, connected⟩ := (connectedUp_isSome graph k).mp rooted.isSome
    obtain rfl : original = .connected node := by
      rw [found] at connected
      simpa using connected
    exact ⟨node, found, rfl, proper, path, rooted, passes⟩
  · rintro ⟨original, found, rfl, proper, path, rooted, passes⟩
    have survived := (survives_eq_true wellFormed found).mpr ⟨proper, path, rooted, passes⟩
    simp [found, survived]

theorem connectedUp_rerooted_of_path {graph : BlocksGraph} (wellFormed : graph.WellFormed)
    {newAnchor k parent : BlockHash} {anchorNode : ConnectedNode} {path : List BlockHash}
    (rooted : RootedPath graph.connectedUp k path) (proper : k ≠ newAnchor)
    (passes : newAnchor ∈ path) (attached : graph.connectedUp k = some (some parent)) :
    (graph.rerooted newAnchor anchorNode).connectedUp k =
      some (if parent = newAnchor then none else some parent) := by
  obtain ⟨node, found⟩ := (connectedUp_isSome graph k).mp (by simp [attached])
  have shape : node.parent = .block parent := by
    rw [connectedUp_of_connected found] at attached
    cases shape : node.parent with
    | anchor => simp [shape, AnchoredRef.up] at attached
    | block q => simpa [shape, AnchoredRef.up] using attached
  have lookup := (mem_rerooted wellFormed anchorNode).mpr
    ⟨node, found, rfl, proper, path, rooted, passes⟩
  by_cases child : parent = newAnchor
  · have rerootedNode : reroot newAnchor (.connected node) =
        .connected { node with parent := .anchor } := by simp [reroot, shape, child]
    rw [rerootedNode] at lookup
    rw [connectedUp_of_connected lookup]
    simp [child, AnchoredRef.up]
  · have rerootedNode : reroot newAnchor (.connected node) = .connected node := by
      simp [reroot, shape, child]
    rw [rerootedNode] at lookup
    rw [connectedUp_of_connected lookup]
    simp [child, shape, AnchoredRef.up]

/-- The path of a surviving block is cut at the new anchor. -/
theorem rootedPath_rerooted {graph : BlocksGraph} (wellFormed : graph.WellFormed)
    {newAnchor k : BlockHash} (anchorNode : ConnectedNode) {below above : List BlockHash}
    (rooted : RootedPath graph.connectedUp k (below ++ newAnchor :: above))
    (proper : k ≠ newAnchor) :
    RootedPath (graph.rerooted newAnchor anchorNode).connectedUp k below := by
  have distinct := rooted.nodup
  have cut : ∀ x ∈ below, x ≠ newAnchor ∧
      ∃ path, RootedPath graph.connectedUp x path ∧ newAnchor ∈ path := by
    intro x membership
    obtain ⟨lower, upper, rfl⟩ := List.append_of_mem membership
    refine ⟨?_, x :: (upper ++ newAnchor :: above), ?_, by simp⟩
    · rintro rfl
      rw [List.append_assoc, List.nodup_append] at distinct
      exact absurd (by simp) (List.nodup_cons.mp distinct.2.1).1
    · have whole : lower ++ x :: upper ++ newAnchor :: above =
          lower ++ x :: (upper ++ newAnchor :: above) := by simp
      rw [whole] at rooted
      exact rooted.suffix
  refine rooted.reroot proper ?_ ?_
  · intro x membership attached
    obtain ⟨proper', path, rooted', passes⟩ := cut x membership
    rw [connectedUp_rerooted_of_path wellFormed rooted' proper' passes attached, if_pos rfl]
  · intro x membership p other attached
    obtain ⟨proper', path, rooted', passes⟩ := cut x membership
    rw [connectedUp_rerooted_of_path wellFormed rooted' proper' passes attached, if_neg other]

theorem pendingParent_rerooted {graph : BlocksGraph} (wellFormed : graph.WellFormed)
    (newAnchor k : BlockHash) (anchorNode : ConnectedNode) :
    (graph.rerooted newAnchor anchorNode).pendingParent k = none := by
  by_contra isPending
  obtain ⟨parent, isPending⟩ := Option.ne_none_iff_exists'.mp isPending
  obtain ⟨node, found, -⟩ := (pendingParent_eq_some _ _ _).mp isPending
  obtain ⟨original, -, shape, -⟩ := (mem_rerooted wellFormed _).mp found
  simp only [reroot] at shape
  split at shape <;> simp at shape

theorem WellFormed.rerooted {graph : BlocksGraph} (wellFormed : graph.WellFormed)
    (newAnchor : BlockHash) (anchorNode : ConnectedNode) :
    (graph.rerooted newAnchor anchorNode).WellFormed where
  anchorAbsent := by
    intro present
    obtain ⟨node, found⟩ := (HashMap.mem_iff_exists _ _).mp present
    obtain ⟨_, _, _, proper, _⟩ := (mem_rerooted wellFormed _).mp found
    exact proper rfl
  connectedRooted := by
    intro hash isConnected
    obtain ⟨node, found⟩ := (connectedUp_isSome _ hash).mp isConnected
    obtain ⟨_, _, _, proper, path, rooted, passes⟩ := (mem_rerooted wellFormed _).mp found
    obtain ⟨below, above, rfl⟩ := List.append_of_mem passes
    exact ⟨below, rootedPath_rerooted wellFormed _ rooted proper⟩
  pendingDetached := by
    intro hash parent isPending
    simp [pendingParent_rerooted wellFormed] at isPending
  headPresent := by
    simp only [BlocksGraph.rerooted]
    split
    · assumption
    · exact .inl rfl

theorem WellFormed.reanchoredTo {graph : BlocksGraph} (wellFormed : graph.WellFormed)
    (newAnchor : ConnectedHash) (base : HashMap PoolRef PoolState) (verified : HashSet PoolRef) :
    (graph.reanchoredTo newAnchor base verified).1.WellFormed := by
  rcases graph.reanchoredTo_cases newAnchor base verified with idle | ⟨node, -, -, moved⟩
  · rw [idle]
    exact wellFormed
  · rw [moved]
    exact wellFormed.rerooted newAnchor node

theorem WellFormed.finalizedTo [BloomHash] {graph : BlocksGraph} (wellFormed : graph.WellFormed)
    (target : BlockHash) (base : HashMap PoolRef PoolState) (verified : HashSet PoolRef)
    (v4Manager : Option Address) :
    (graph.finalizedTo target base verified v4Manager).1.WellFormed := by
  unfold BlocksGraph.finalizedTo
  split
  · exact wellFormed
  · exact wellFormed.reanchoredTo _ _ _

/-! ### Reachable graphs -/

/-- The operations the kernel drives the graph with. -/
inductive Operation
  | withBlockCapped (hash parent : BlockHash) (number : UInt64) (bloom : Bloom)
      (maxPending : Nat)
  | withObservedHead (hash : BlockHash)
  | withStreamedLogs (hash : BlockHash) (logs : List PoolLog)
  | withCompleteLogs (hash : BlockHash) (logs : List PoolLog)
  | finalizedTo (target : BlockHash) (base : HashMap PoolRef PoolState)
      (verified : HashSet PoolRef) (v4Manager : Option Address)

def operate [BloomHash] (graph : BlocksGraph) : Operation → BlocksGraph
  | .withBlockCapped hash parent number bloom maxPending =>
    (graph.withBlockCapped hash parent number bloom maxPending).1
  | .withObservedHead hash => graph.withObservedHead hash
  | .withStreamedLogs hash logs => graph.withStreamedLogs hash logs
  | .withCompleteLogs hash logs => (graph.withCompleteLogs hash logs).1
  | .finalizedTo target base verified v4Manager =>
    (graph.finalizedTo target base verified v4Manager).1

/-- The graphs built from a fresh or a seeded one by any sequence of operations. -/
inductive Built [BloomHash] : BlocksGraph → Prop
  | new (anchor : BlockHash) (anchorNumber : UInt64) : Built (BlocksGraph.new anchor anchorNumber)
  | fromSeed (anchor : BlockHash) (anchorNumber : UInt64) (blocks : List SeedBlock) :
      Built (BlocksGraph.fromSeed anchor anchorNumber blocks)
  | operate {graph : BlocksGraph} (operation : Operation) :
      Built graph → Built (graph.operate operation)

theorem WellFormed.operate [BloomHash] {graph : BlocksGraph} (wellFormed : graph.WellFormed)
    (operation : Operation) : (graph.operate operation).WellFormed := by
  cases operation with
  | withBlockCapped _ _ _ _ _ => exact wellFormed.withBlockCapped _ _ _ _ _
  | withObservedHead _ => exact wellFormed.withObservedHead _
  | withStreamedLogs _ _ => exact wellFormed.withStreamedLogs _ _
  | withCompleteLogs _ _ => exact wellFormed.withCompleteLogs _ _
  | finalizedTo _ _ _ _ => exact wellFormed.finalizedTo _ _ _ _

theorem Built.wellFormed [BloomHash] {graph : BlocksGraph} (built : Built graph) :
    graph.WellFormed := by
  induction built with
  | new anchor anchorNumber => exact new_wellFormed anchor anchorNumber
  | fromSeed anchor anchorNumber blocks => exact fromSeed_wellFormed anchor anchorNumber blocks
  | operate operation _ inductionHypothesis => exact inductionHypothesis.operate operation

/-- The raw parent chain of a pending block arrives at the anchor or a connected block. -/
inductive RawChainConnects (graph : BlocksGraph) : BlockHash → Prop
  | anchor : RawChainConnects graph graph.anchor.hash
  | connected {hash : BlockHash} :
      (graph.connected hash).isSome → RawChainConnects graph hash
  | pending {hash : BlockHash} {node : PendingNode} :
      graph.nodes[hash]? = some (.pending node) → RawChainConnects graph node.parent →
      RawChainConnects graph hash

theorem WellFormed.not_rawChainConnects {graph : BlocksGraph} (wellFormed : graph.WellFormed)
    {hash : BlockHash} {node : PendingNode} (found : graph.nodes[hash]? = some (.pending node)) :
    ¬ graph.RawChainConnects node.parent := by
  intro chain
  generalize start : node.parent = parent at chain
  induction chain generalizing hash node with
  | anchor =>
    exact (wellFormed.pendingDetached hash _
      ((pendingParent_eq_some _ _ _).mpr ⟨node, found, start⟩)).1 rfl
  | connected isConnected =>
    have detached := (wellFormed.pendingDetached hash _
      ((pendingParent_eq_some _ _ _).mpr ⟨node, found, start⟩)).2
    simp [connected_isSome, detached] at isConnected
  | pending found' _ inductionHypothesis => exact inductionHypothesis found' rfl

/-- The representation invariant over every sequence of operations. The unguarded
walk returns the whole path of a connected block, however much fuel it is given. -/
theorem built_representation [BloomHash] {graph : BlocksGraph} (built : Built graph) :
    graph.anchor.hash ∉ graph.nodes ∧
    (∀ (hash : BlockHash) (node : ConnectedNode), graph.nodes[hash]? = some (.connected node) →
      (node.parent = .anchor ∨
        ∃ parent, node.parent = .block parent ∧ (graph.connected parent).isSome) ∧
      ∃ path, RootedPath graph.connectedUp hash path ∧
        (∀ fuel, path.length ≤ fuel → walkUp graph.connectedUp fuel hash = path) ∧
        graph.connectedOldestToNewest hash = path.reverse) ∧
    (∀ (hash : BlockHash) (node : PendingNode), graph.nodes[hash]? = some (.pending node) →
      ¬ graph.RawChainConnects node.parent) ∧
    (graph.observedHead = graph.anchor.hash ∨ graph.observedHead ∈ graph.nodes) := by
  have wellFormed := built.wellFormed
  refine ⟨wellFormed.anchorAbsent, ?_, ?_, wellFormed.headPresent⟩
  · intro hash node found
    obtain ⟨path, rooted⟩ := wellFormed.connectedRooted hash
      ((connectedUp_isSome graph hash).mpr ⟨node, found⟩)
    refine ⟨?_, path, rooted, fun _ enough => rooted.walkUp_eq enough,
      connectedOldestToNewest_eq rooted⟩
    have attached := connectedUp_of_connected found
    cases shape : node.parent with
    | anchor => exact .inl rfl
    | block parent =>
      refine .inr ⟨parent, rfl, ?_⟩
      rw [connected_isSome]
      cases rooted with
      | root attached' => simp [attached', shape, AnchoredRef.up] at attached
      | child attached' higher =>
        obtain rfl : _ = parent := by simpa [attached', shape, AnchoredRef.up] using attached
        exact higher.isSome
  · exact fun hash node found => wellFormed.not_rawChainConnects found

/-- An orphan that is promoted when its parent arrives. -/
def promotedSample : BlocksGraph :=
  letI : BloomHash := BloomHash.tabulated
  ((BlocksGraph.new 0x10 100).operate (.withBlockCapped 0x12 0x11 102 0 8)).operate
    (.withBlockCapped 0x11 0x10 101 0 8)

theorem built_representation_promotedSample :
    promotedSample.anchor.hash ∉ promotedSample.nodes ∧
      ∃ path, RootedPath promotedSample.connectedUp 0x12 path ∧
        promotedSample.connectedOldestToNewest 0x12 = path.reverse := by
  let _ : BloomHash := BloomHash.tabulated
  have built : Built promotedSample :=
    ((Built.new 0x10 100).operate _).operate _
  obtain ⟨anchorAbsent, connectedNodes, -⟩ := built_representation built
  have connects : (promotedSample.connected 0x12).isSome = true := by decide +kernel
  obtain ⟨node, found⟩ := Option.isSome_iff_exists.mp connects
  obtain ⟨-, path, rooted, -, walk⟩ :=
    connectedNodes 0x12 node ((connected_eq_some _ _ _).mp found)
  exact ⟨anchorAbsent, path, rooted, walk⟩

end ArmchairAnalyst.BlocksGraph

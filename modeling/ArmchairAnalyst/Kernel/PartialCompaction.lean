import ArmchairAnalyst.Kernel.InvisibleFinalization

/-!
# Finalization as partial compaction

Finalization moves the anchor along the chain to its target as far as nothing
stops the authoritative fold. The blocks it passes are folded into the base, and
of the rest only the connected blocks above the new anchor stay.
-/

namespace ArmchairAnalyst.BlocksGraph

/-! ### The blocks a finalization passes -/

/-- A connected block that is complete or that no watched address touches. -/
def Passable (graph : BlocksGraph) (watched : BloomPatterns) (hash : BlockHash) : Prop :=
  ∃ node, graph.nodes[hash]? = some (.connected node) ∧
    ((∃ logs, node.data.logs = .complete logs) ∨
      bloomMayTouch node.data.logsBloom watched = false)

theorem blocksFold_requireComplete_eq_false {watched : BloomPatterns} {data : BlockData} :
    blocksFold watched .requireComplete data = false ↔
      (∃ logs, data.logs = .complete logs) ∨ bloomMayTouch data.logsBloom watched = false := by
  unfold blocksFold
  cases data.logs <;> simp [readableLogs]

theorem passable_iff {graph : BlocksGraph} {watched : BloomPatterns} {hash : BlockHash} :
    graph.Passable watched hash ↔ graph.stopsAt watched .requireComplete hash = false := by
  unfold Passable stopsAt
  cases found : graph.connected hash with
  | none =>
    have detached : ∀ node, graph.nodes[hash]? ≠ some (.connected node) := by
      intro node present
      simp [(connected_eq_some graph hash node).mpr present] at found
    simp [detached]
  | some node =>
    have present := (connected_eq_some graph hash node).mp found
    constructor
    · intro passes
      obtain ⟨other, present', clear⟩ := passes
      obtain rfl : node = other := by simpa [present] using present'
      exact blocksFold_requireComplete_eq_false.mpr clear
    · intro passes
      exact ⟨node, present, blocksFold_requireComplete_eq_false.mp passes⟩

/-- The blocks from the anchor up to the first one the authoritative fold cannot pass. -/
def passedTowards (graph : BlocksGraph) (watched : BloomPatterns) (hashes : List BlockHash) :
    List BlockHash :=
  hashes.takeWhile (fun hash => !graph.stopsAt watched .requireComplete hash)

theorem passable_of_mem_passedTowards {graph : BlocksGraph} {watched : BloomPatterns}
    {hashes : List BlockHash} {hash : BlockHash}
    (membership : hash ∈ graph.passedTowards watched hashes) : graph.Passable watched hash := by
  rw [passable_iff]
  simpa using List.mem_takeWhile_imp membership

/-- What is left of the chain starts with a block that stops the fold. -/
theorem passedTowards_split (graph : BlocksGraph) (watched : BloomPatterns)
    (hashes : List BlockHash) :
    ∃ beyond, hashes = graph.passedTowards watched hashes ++ beyond ∧
      ∀ hash ∈ beyond.head?, ¬ graph.Passable watched hash := by
  refine ⟨hashes.dropWhile (fun hash => !graph.stopsAt watched .requireComplete hash),
    List.takeWhile_append_dropWhile.symm, ?_⟩
  intro hash first passes
  have stopped := List.head?_dropWhile_not
    (fun hash => !graph.stopsAt watched .requireComplete hash) hashes
  rw [Option.mem_def.mp first] at stopped
  simp [passable_iff.mp passes] at stopped

/-! ### What is left after it -/

/-- A block of the old graph as it hangs above the new anchor. -/
def rehung (newAnchor : BlockHash) (node : ConnectedNode) : ConnectedNode :=
  { parent := if node.parent = .block newAnchor then .anchor else node.parent
    data := node.data }

theorem reroot_connected (newAnchor : BlockHash) (node : ConnectedNode) :
    reroot newAnchor (.connected node) = .connected (rehung newAnchor node) := by
  by_cases child : node.parent = .block newAnchor
  · simp [reroot, rehung, child]
  · simp [reroot, rehung, child]

/-- The graph and the base after a compaction of the listed blocks, oldest first. The
last of them becomes the anchor, their authoritative logs are folded, and what stays
is connected strictly above it. -/
def CompactsTo (graph : BlocksGraph) (base : HashMap PoolRef PoolState)
    (verified : HashSet PoolRef) (passed : List BlockHash)
    (compacted : BlocksGraph × HashMap PoolRef PoolState) : Prop :=
  match passed.getLast? with
  | none => compacted = (graph, base)
  | some newAnchor =>
    (∃ node, graph.nodes[newAnchor]? = some (.connected node) ∧
      compacted.1.anchor = { hash := newAnchor, number := node.data.number }) ∧
    (∀ (hash : BlockHash) (node : Node), compacted.1.nodes[hash]? = some node ↔
      ∃ original, graph.nodes[hash]? = some (.connected original) ∧
        node = .connected (rehung newAnchor original) ∧ hash ≠ newAnchor ∧
        ∃ path, RootedPath graph.connectedUp hash path ∧ newAnchor ∈ path) ∧
    compacted.1.observedHead = graph.observedHead ∧
    ∀ pool : PoolRef, compacted.2[pool]? =
      mergedState base verified (passed.flatMap (graph.blockReads .requireComplete)) pool

/-- A block of the canonical chain is kept by a re-root below it or at it. -/
theorem observedHead_rerooted {graph : BlocksGraph} (wellFormed : graph.WellFormed)
    {newAnchor : BlockHash} (anchorNode : ConnectedNode) {path : List BlockHash}
    (rooted : RootedPath graph.connectedUp graph.observedHead path) (passes : newAnchor ∈ path) :
    (graph.rerooted newAnchor anchorNode).observedHead = graph.observedHead := by
  by_cases atHead : graph.observedHead = newAnchor
  · simp [rerooted, atHead]
  · obtain ⟨node, found⟩ := (connectedUp_isSome _ _).mp rooted.isSome
    have kept := (mem_rerooted wellFormed anchorNode).mpr
      ⟨node, found, rfl, atHead, path, rooted, passes⟩
    have present : graph.observedHead ∈ (graph.rerooted newAnchor anchorNode).nodes :=
      (HashMap.mem_iff_exists _ _).mpr ⟨_, kept⟩
    simp only [rerooted] at present ⊢
    rw [if_pos (.inr present)]

theorem find?_eq_of_mem {hashes : List BlockHash} {target : BlockHash}
    (listed : target ∈ hashes) : hashes.find? (· == target) = some target := by
  cases search : hashes.find? (· == target) with
  | none => simpa using List.find?_eq_none.mp search target listed
  | some found =>
    have same := List.find?_some search
    simp only [beq_iff_eq] at same
    rw [same]

/-- A finalization target counts when it is on the chain below the observed head. -/
theorem canonicalConnectedTarget_eq_some {graph : BlocksGraph} {target : BlockHash}
    {path : List BlockHash} (rooted : RootedPath graph.connectedUp graph.observedHead path)
    (listed : target ∈ path) : graph.canonicalConnectedTarget target = some target := by
  obtain ⟨node, found⟩ := connected_of_mem_path rooted listed
  unfold canonicalConnectedTarget
  rw [found, canonicalOldestToNewest_eq rooted]
  exact find?_eq_of_mem (List.mem_reverse.mpr listed)

theorem canonicalConnectedTarget_eq_none {graph : BlocksGraph} (wellFormed : graph.WellFormed)
    {target : BlockHash}
    (offChain : ∀ path, RootedPath graph.connectedUp graph.observedHead path → target ∉ path) :
    graph.canonicalConnectedTarget target = none := by
  cases guarded : graph.canonicalConnectedTarget target with
  | none => rfl
  | some found =>
    obtain ⟨older, newer, rooted, -⟩ := canonicalConnectedTarget_split wellFormed guarded
    have same : found = target := by
      unfold canonicalConnectedTarget at guarded
      split at guarded
      · simp at guarded
      · simpa using List.find?_some guarded
    exact absurd (by simp [same]) (offChain _ rooted)

section

variable [BloomHash]

/-- Finalization towards a block of the canonical chain compacts what it passes. -/
theorem finalizedTo_compactsTo {graph : BlocksGraph} (wellFormed : graph.WellFormed)
    {target : BlockHash} {older newer : List BlockHash}
    (rooted : RootedPath graph.connectedUp graph.observedHead (older ++ target :: newer).reverse)
    (base : HashMap PoolRef PoolState) (verified : HashSet PoolRef)
    (v4Manager : Option Address) :
    graph.CompactsTo base verified
      (graph.passedTowards (BloomPatterns.of (watchedAddresses verified v4Manager))
        (older ++ [target]))
      (graph.finalizedTo target base verified v4Manager) := by
  generalize patterns : BloomPatterns.of (watchedAddresses verified v4Manager) = watched
  have targetRooted : RootedPath graph.connectedUp target (older ++ [target]).reverse := by
    have reversed : (older ++ target :: newer).reverse =
        newer.reverse ++ target :: older.reverse := by simp
    rw [reversed] at rooted
    simpa using rooted.suffix
  have towards : graph.finalizedTo target base verified v4Manager = graph.reanchoredTo
      ((graph.passedTowards watched (older ++ [target])).getLastD graph.anchor.hash)
      base verified := by
    unfold finalizedTo
    rw [canonicalConnectedTarget_eq_some rooted (by simp), patterns]
    simp only [foldableFrontier, foldableFrontierAlong_eq,
      connectedOldestToNewest_eq targetRooted, List.reverse_reverse]
    rfl
  have walk := connectedOldestToNewest_frontier wellFormed targetRooted watched .requireComplete
  rw [foldableFrontier, foldableFrontierAlong_eq, connectedOldestToNewest_eq targetRooted,
    List.reverse_reverse] at walk
  change graph.connectedOldestToNewest ((graph.passedTowards watched
    (older ++ [target])).getLastD graph.anchor.hash) = graph.passedTowards watched
      (older ++ [target]) at walk
  have prefixed : graph.passedTowards watched (older ++ [target]) <+: older ++ [target] :=
    List.takeWhile_prefix _
  rw [towards]
  unfold CompactsTo
  rcases List.eq_nil_or_concat (graph.passedTowards watched (older ++ [target])) with
    none_ | ⟨kept, newAnchor, passed⟩
  · rw [none_]
    simp [reanchoredTo]
  · rw [passed, List.concat_eq_append] at prefixed walk ⊢
    rw [List.getLastD_concat] at walk ⊢
    rw [List.getLast?_concat]
    have listed : newAnchor ∈ (older ++ target :: newer).reverse := by
      have inPrefix := prefixed.subset (show newAnchor ∈ kept ++ [newAnchor] by simp)
      simp only [List.mem_append, List.mem_singleton] at inPrefix
      simp only [List.mem_reverse, List.mem_append, List.mem_cons]
      tauto
    obtain ⟨node, found⟩ := connected_of_mem_path rooted listed
    have proper : newAnchor ≠ graph.anchor.hash := by
      intro atAnchor
      have absent := wellFormed.connectedUp_anchor
      rw [← atAnchor] at absent
      simpa [absent] using rooted.isSome_of_mem listed
    have moved : graph.reanchoredTo newAnchor base verified = (graph.rerooted newAnchor node,
        graph.foldedPoolStates base verified newAnchor .requireComplete) := by
      unfold reanchoredTo
      rw [if_neg proper, found]
      rfl
    rw [moved]
    refine ⟨⟨node, (connected_eq_some _ _ _).mp found, rfl⟩, ?_,
      observedHead_rerooted wellFormed node rooted listed, ?_⟩
    · intro hash survivor
      rw [mem_rerooted wellFormed node]
      simp only [reroot_connected]
    · intro pool
      rw [getElem?_foldedPoolStates, readablePathLogs_eq, walk]

/-- Finalization over every graph the operations build: off the canonical chain it is
idle, and on it it compacts the blocks up to the first one that is neither complete
nor clear of the watched addresses. -/
theorem finalizedTo_partialCompaction {graph : BlocksGraph} (built : Built graph)
    (target : BlockHash) (base : HashMap PoolRef PoolState) (verified : HashSet PoolRef)
    (v4Manager : Option Address) :
    ((∀ path, RootedPath graph.connectedUp graph.observedHead path → target ∉ path) →
      graph.finalizedTo target base verified v4Manager = (graph, base)) ∧
    ∀ older newer : List BlockHash,
      RootedPath graph.connectedUp graph.observedHead (older ++ target :: newer).reverse →
      let watched := BloomPatterns.of (watchedAddresses verified v4Manager)
      ∃ passed beyond, older ++ [target] = passed ++ beyond ∧
        (∀ hash ∈ passed, graph.Passable watched hash) ∧
        (∀ hash ∈ beyond.head?, ¬ graph.Passable watched hash) ∧
        graph.CompactsTo base verified passed
          (graph.finalizedTo target base verified v4Manager) := by
  have wellFormed := built.wellFormed
  refine ⟨?_, ?_⟩
  · intro offChain
    unfold finalizedTo
    rw [canonicalConnectedTarget_eq_none wellFormed offChain]
  · intro older newer rooted watched
    obtain ⟨beyond, split, stopped⟩ := graph.passedTowards_split watched (older ++ [target])
    refine ⟨graph.passedTowards watched (older ++ [target]), beyond, split, ?_, stopped,
      finalizedTo_compactsTo wellFormed rooted base verified v4Manager⟩
    intro hash membership
    exact passable_of_mem_passedTowards membership

end

theorem finalizedTo_partialCompaction_swapSample :
    letI : BloomHash := BloomHash.tabulated
    let verified : HashSet PoolRef := HashSet.collect [samplePool]
    ∃ passed beyond, [0x11] = passed ++ beyond ∧
      swapSample.CompactsTo ∅ verified passed
        (swapSample.finalizedTo 0x11 ∅ verified (poolManagerAddress .ethereum)) := by
  let _ : BloomHash := BloomHash.tabulated
  have built : Built swapSample := (((Built.new 0x10 100).operate _).operate _).operate _
  have rooted : RootedPath swapSample.connectedUp swapSample.observedHead [0x11] :=
    .root (by decide +kernel)
  obtain ⟨passed, beyond, split, -, -, compacts⟩ :=
    (finalizedTo_partialCompaction built 0x11 ∅ (HashSet.collect [samplePool])
      (poolManagerAddress .ethereum)).2 [] [] rooted
  exact ⟨passed, beyond, split, compacts⟩

/-- A watched block without logs above the anchor, and an orphan beside it. -/
def stalledSample : BlocksGraph :=
  letI : BloomHash := BloomHash.tabulated
  (((BlocksGraph.new 0x10 100).operate
    (.withBlockCapped 0x11 0x10 101 (.ofBits [565, 531, 172]) 8)).operate
    (.withObservedHead 0x11)).operate (.withBlockCapped 0x30 0x20 130 0 8)

/-- A finalization that passes no block leaves the pending blocks in place: they do not
descend from the anchor. -/
theorem stalled_finalization_keeps_orphan :
    letI : BloomHash := BloomHash.tabulated
    let finalized := stalledSample.finalizedTo 0x11 ∅ (HashSet.collect [samplePool])
      (poolManagerAddress .ethereum)
    Built stalledSample ∧
      RootedPath stalledSample.connectedUp stalledSample.observedHead [0x11] ∧
      ¬ stalledSample.Passable (BloomPatterns.of (watchedAddresses (HashSet.collect [samplePool])
        (poolManagerAddress .ethereum))) 0x11 ∧
      finalized.1.anchor = stalledSample.anchor ∧
      0x30 ∈ finalized.1.nodes ∧ finalized.1.connectedUp 0x30 = none := by
  let _ : BloomHash := BloomHash.tabulated
  have rooted : RootedPath stalledSample.connectedUp stalledSample.observedHead [0x11] := by
    have head : stalledSample.observedHead = 0x11 := by decide +kernel
    have attached : stalledSample.connectedUp 0x11 = some none := by decide +kernel
    rw [head]
    exact .root attached
  refine ⟨(((Built.new 0x10 100).operate _).operate _).operate _, rooted, ?_,
    by decide +kernel, by decide +kernel, by decide +kernel⟩
  rw [passable_iff]
  decide +kernel

end ArmchairAnalyst.BlocksGraph

import ArmchairAnalyst.Kernel.FinalizationProofs

/-!
# Finalization is invisible to the optimizer

The projected frontier and the view merged from base and overlay are the same
before and after a finalization.
-/

namespace ArmchairAnalyst.BlocksGraph

section

variable [BloomHash]

/-- The logs of a verified pool lie in blocks whose bloom announces the pool. -/
def LogsAnnounced (graph : BlocksGraph) (verified : HashSet PoolRef)
    (v4Manager : Option Address) : Prop :=
  ∀ (hash : BlockHash) (node : Node), graph.nodes[hash]? = some node →
    ∀ log ∈ readLogs node.data.logs .allowStreamed, ∀ pool ∈ verified, pool.key = log.pool →
      ∀ bloom, node.data.logsBloom = some bloom →
        ∃ address, watchedAddress v4Manager pool = some address ∧
          Bloom.contains bloom (BloomHash.accrue address) = true

/-! ### The newer part of the path -/

section

variable {graph : BlocksGraph} {watched : BloomPatterns} {newAnchor : BlockHash}
  {node : ConnectedNode} {older newer : List BlockHash}

omit [BloomHash] in
theorem FinalizesAt.path_eq : (older ++ newAnchor :: newer).reverse =
    newer.reverse ++ newAnchor :: older.reverse := by simp

omit [BloomHash] in
/-- A block above the new anchor survives with its payload. -/
theorem FinalizesAt.newer_connected (finalizes : graph.FinalizesAt watched newAnchor node older newer)
    (wellFormed : graph.WellFormed) {x : BlockHash} (membership : x ∈ newer) :
    ∃ original kept, graph.connected x = some original ∧
      (graph.rerooted newAnchor node).connected x = some kept ∧ kept.data = original.data := by
  have rooted := finalizes.rooted
  rw [FinalizesAt.path_eq] at rooted
  have distinct := rooted.nodup
  obtain ⟨below, above, split⟩ := List.append_of_mem (List.mem_reverse.mpr membership)
  have own : RootedPath graph.connectedUp x (x :: (above ++ newAnchor :: older.reverse)) := by
    rw [split, List.append_assoc] at rooted
    exact rooted.suffix
  have proper : x ≠ newAnchor := by
    rintro rfl
    exact (List.nodup_cons.mp own.nodup).1 (by simp)
  obtain ⟨original, found⟩ := (connectedUp_isSome graph x).mp own.isSome
  have kept := (mem_rerooted wellFormed node).mpr
    ⟨original, found, rfl, proper, _, own, by simp⟩
  by_cases child : original.parent = .block newAnchor
  · have shape : reroot newAnchor (.connected original) =
        .connected { original with parent := .anchor } := by simp [reroot, child]
    rw [shape] at kept
    exact ⟨original, _, (connected_eq_some _ _ _).mpr found, (connected_eq_some _ _ _).mpr kept,
      rfl⟩
  · have shape : reroot newAnchor (.connected original) = .connected original := by
      simp [reroot, child]
    rw [shape] at kept
    exact ⟨original, _, (connected_eq_some _ _ _).mpr found, (connected_eq_some _ _ _).mpr kept,
      rfl⟩

omit [BloomHash] in
/-- The canonical path after the re-root is the part above the new anchor. -/
theorem FinalizesAt.canonical_rerooted
    (finalizes : graph.FinalizesAt watched newAnchor node older newer)
    (wellFormed : graph.WellFormed) :
    (graph.rerooted newAnchor node).canonicalOldestToNewest = newer := by
  have rooted := finalizes.rooted
  rw [FinalizesAt.path_eq] at rooted
  have wellFormed' := wellFormed.rerooted newAnchor node
  rcases List.eq_nil_or_concat newer with rfl | ⟨rest, last, rfl⟩
  · obtain ⟨above, same⟩ := rooted.eq_cons
    obtain ⟨atHead, -⟩ : newAnchor = graph.observedHead ∧ older.reverse = above := by
      simpa using same
    apply canonicalOldestToNewest_eq_nil
    have head : (graph.rerooted newAnchor node).observedHead =
        (graph.rerooted newAnchor node).anchor.hash := by
      simp [rerooted, atHead]
    have anchored := wellFormed'.connectedUp_anchor
    rw [← head] at anchored
    simpa [connectedUp] using anchored
  · have proper : graph.observedHead ≠ newAnchor := by
      obtain ⟨above, same⟩ := rooted.eq_cons
      have distinct := rooted.nodup
      rintro atAnchor
      simp only [List.concat_eq_append, List.reverse_append, List.reverse_cons, List.reverse_nil,
        List.nil_append, List.cons_append, List.cons.injEq] at same distinct
      rw [same.1, atAnchor] at distinct
      exact (List.nodup_cons.mp distinct).1 (by simp)
    have cut := rootedPath_rerooted wellFormed node rooted proper
    have present : graph.observedHead ∈ (graph.rerooted newAnchor node).nodes :=
      connectedUp_mem cut.isSome
    have head : (graph.rerooted newAnchor node).observedHead = graph.observedHead := by
      simp only [rerooted] at present ⊢
      rw [if_pos (.inr present)]
    rw [← head] at cut
    rw [canonicalOldestToNewest_eq cut, List.reverse_reverse]

omit [BloomHash] in
/-- What no authoritative fold stops at stops no streamed fold. -/
theorem stopsAt_allowStreamed {hash : BlockHash}
    (passes : graph.stopsAt watched .requireComplete hash = false) :
    graph.stopsAt watched .allowStreamed hash = false := by
  unfold stopsAt at passes ⊢
  split at passes
  · rename_i node found
    simp only [blocksFold] at passes ⊢
    cases logs : node.data.logs <;> simp_all [readableLogs]
  · simp at passes

omit [BloomHash] in
theorem FinalizesAt.stopsAt_rerooted
    (finalizes : graph.FinalizesAt watched newAnchor node older newer)
    (wellFormed : graph.WellFormed) (watched' : BloomPatterns) (authority : Authority)
    {x : BlockHash} (membership : x ∈ newer) :
    (graph.rerooted newAnchor node).stopsAt watched' authority x =
      graph.stopsAt watched' authority x := by
  obtain ⟨original, kept, found, found', same⟩ := finalizes.newer_connected wellFormed membership
  simp [stopsAt, found, found', same]

omit [BloomHash] in
theorem FinalizesAt.blockReads_rerooted
    (finalizes : graph.FinalizesAt watched newAnchor node older newer)
    (wellFormed : graph.WellFormed) (authority : Authority) {x : BlockHash}
    (membership : x ∈ newer) :
    (graph.rerooted newAnchor node).blockReads authority x = graph.blockReads authority x := by
  obtain ⟨original, kept, found, found', same⟩ := finalizes.newer_connected wellFormed membership
  simp [blockReads, found, found', same]

end

/-! ### The split of the projected path -/

section

variable {graph : BlocksGraph} {verified : HashSet PoolRef} {v4Manager : Option Address}
  {newAnchor : BlockHash} {node : ConnectedNode} {older newer : List BlockHash}

/-- The projected path passes through the new anchor and goes on as after the re-root. -/
theorem FinalizesAt.projectedPath_eq
    (finalizes : graph.FinalizesAt (BloomPatterns.of (watchedAddresses verified v4Manager))
      newAnchor node older newer) (wellFormed : graph.WellFormed) :
    graph.projectedPath verified v4Manager =
      older ++ [newAnchor] ++ (graph.rerooted newAnchor node).projectedPath verified v4Manager := by
  have whole : older ++ newAnchor :: newer = (older ++ [newAnchor]) ++ newer := by simp
  unfold projectedPath
  rw [finalizes.canonical_rerooted wellFormed, canonicalOldestToNewest_eq finalizes.rooted,
    List.reverse_reverse, whole, List.takeWhile_append_of_pos]
  · congr 1
    apply takeWhile_congr
    intro x membership
    rw [finalizes.stopsAt_rerooted wellFormed _ _ membership]
  · intro x membership
    simp [stopsAt_allowStreamed (finalizes.passes x membership)]

theorem FinalizesAt.projectedLogs_eq
    (finalizes : graph.FinalizesAt (BloomPatterns.of (watchedAddresses verified v4Manager))
      newAnchor node older newer) (wellFormed : graph.WellFormed) :
    graph.projectedLogs verified v4Manager =
      (older ++ [newAnchor]).flatMap (graph.blockReads .allowStreamed) ++
        (graph.rerooted newAnchor node).projectedLogs verified v4Manager := by
  unfold projectedLogs
  rw [finalizes.projectedPath_eq wellFormed, List.flatMap_append]
  congr 1
  apply List.flatMap_congr
  intro x membership
  rw [finalizes.blockReads_rerooted wellFormed]
  have listed := List.takeWhile_subset _ membership
  rwa [finalizes.canonical_rerooted wellFormed] at listed

/-- A block that does not stop the authoritative fold shows it the same events of a
verified pool as the streamed fold: a streamed set is only passed under a clear bloom. -/
theorem eventsFor_blockReads {hash : BlockHash}
    (announced : graph.LogsAnnounced verified v4Manager)
    (complete : AllBlocks HeaderlessComplete graph)
    (passes : graph.stopsAt (BloomPatterns.of (watchedAddresses verified v4Manager))
      .requireComplete hash = false) {pool : PoolRef} (tracked : pool ∈ verified) :
    eventsFor pool.key (graph.blockReads .allowStreamed hash) =
      eventsFor pool.key (graph.blockReads .requireComplete hash) := by
  unfold stopsAt at passes
  cases found : graph.connected hash with
  | none => simp [blockReads, found]
  | some node =>
    have present := (connected_eq_some graph hash node).mp found
    simp only [found, blocksFold] at passes
    cases stored : node.data.logs with
    | unknown => simp [blockReads, found, stored, readLogs, readableLogs]
    | complete logs => simp [blockReads, found, stored, readLogs, readableLogs]
    | streamed logs =>
      have clear : bloomMayTouch node.data.logsBloom
          (BloomPatterns.of (watchedAddresses verified v4Manager)) = false := by
        simpa [stored, readableLogs] using passes
      have silent : eventsFor pool.key (HashMap.values logs) = [] := by
        apply eventsFor_eq_nil
        intro log membership samePool
        cases header : node.data.logsBloom with
        | none =>
          obtain ⟨_, contradiction⟩ := complete hash _ present header
          simp [Node.data, stored] at contradiction
        | some bloom =>
          obtain ⟨address, watches, contained⟩ := announced hash _ present log
            (by simpa [Node.data, stored, readLogs, readableLogs] using membership) pool tracked
            samePool.symm bloom header
          have touched := bloomMayTouch_of_contains
            ((mem_watchedAddresses verified v4Manager address).mpr ⟨pool, tracked, watches⟩)
            contained
          rw [← header, clear] at touched
          simp at touched
      simp [blockReads, found, stored, readLogs, readableLogs, silent]

theorem eventsFor_older (finalizes : graph.FinalizesAt
      (BloomPatterns.of (watchedAddresses verified v4Manager)) newAnchor node older newer)
    (announced : graph.LogsAnnounced verified v4Manager)
    (complete : AllBlocks HeaderlessComplete graph) {pool : PoolRef} (tracked : pool ∈ verified) :
    eventsFor pool.key ((older ++ [newAnchor]).flatMap (graph.blockReads .allowStreamed)) =
      eventsFor pool.key ((older ++ [newAnchor]).flatMap (graph.blockReads .requireComplete)) := by
  have passes := finalizes.passes
  generalize older ++ [newAnchor] = hashes at passes
  induction hashes with
  | nil => rfl
  | cons hash hashes inductionHypothesis =>
    rw [List.flatMap_cons, List.flatMap_cons, eventsFor_append, eventsFor_append,
      eventsFor_blockReads announced complete (passes hash (by simp)) tracked,
      inductionHypothesis (fun x membership => passes x (by simp [membership]))]

omit [BloomHash] in
/-- The finalized snapshot folds the older part of the path. -/
theorem FinalizesAt.readablePathLogs_eq {watched : BloomPatterns}
    (finalizes : graph.FinalizesAt watched newAnchor node older newer) (authority : Authority) :
    graph.readablePathLogs newAnchor authority =
      (older ++ [newAnchor]).flatMap (graph.blockReads authority) := by
  rw [BlocksGraph.readablePathLogs_eq,
    connectedOldestToNewest_of_split finalizes.rooted (List.reverse_reverse _)]

end

/-- Finalization moves neither the projected frontier nor the merged view, so a
dispatch gated on the frontier stays silent. -/
theorem finalizedTo_invisible {graph : BlocksGraph} (built : Built graph) (target : BlockHash)
    (base : HashMap PoolRef PoolState) (verified : HashSet PoolRef) (v4Manager : Option Address)
    (baseVerified : ∀ pool, pool ∈ base → pool ∈ verified)
    (announced : graph.LogsAnnounced verified v4Manager)
    (noOverflow : ∀ pool : PoolRef, foldEvents base[pool]? (eventsFor pool.key
      (graph.readablePathLogs (graph.projectedPoolStates base verified v4Manager).2
        .allowStreamed)) ≠ none) :
    let before := graph.projectedPoolStates base verified v4Manager
    let finalized := graph.finalizedTo target base verified v4Manager
    let after := finalized.1.projectedPoolStates finalized.2 verified v4Manager
    after.2 = before.2 ∧
      (∀ pool : PoolRef, (finalized.2 ∪ after.1)[pool]? = (base ∪ before.1)[pool]?) ∧
      finalized.1.projectedPoolStatesIfChanged finalized.2 verified v4Manager (some before.2) =
        none := by
  have wellFormed := built.wellFormed
  simp only
  rcases finalizedTo_cases wellFormed target base verified v4Manager with
    idle | ⟨newAnchor, node, older, newer, finalizes, moved⟩
  · rw [idle]
    refine ⟨rfl, fun _ => rfl, ?_⟩
    rw [projectedPoolStates_frontier wellFormed, ← projectedFoldFrontier_getD wellFormed]
    simp [projectedPoolStatesIfChanged]
  · have wellFormed' := wellFormed.rerooted newAnchor node
    have frontier : ((graph.rerooted newAnchor node).projectedPath verified v4Manager).getLastD
          newAnchor =
        (graph.projectedPath verified v4Manager).getLastD graph.anchor.hash := by
      rw [finalizes.projectedPath_eq wellFormed]
      rcases List.eq_nil_or_concat
        ((graph.rerooted newAnchor node).projectedPath verified v4Manager) with
        empty | ⟨rest, last, whole⟩
      · rw [empty]
        simp
      · rw [whole, List.concat_eq_append, List.getLastD_concat, ← List.append_assoc,
          List.getLastD_concat]
    rw [moved]
    refine ⟨?_, ?_, ?_⟩
    · rw [projectedPoolStates_frontier wellFormed, projectedPoolStates_frontier wellFormed']
      exact frontier
    · intro pool
      rw [getElem?_projectedView wellFormed, getElem?_projectedView wellFormed']
      have wholeRun := noOverflow pool
      rw [readablePathLogs_frontier wellFormed] at wholeRun
      rw [finalizes.projectedLogs_eq wellFormed] at wholeRun ⊢
      refine mergedState_append ?_ baseVerified wholeRun
      rw [getElem?_foldedPoolStates, finalizes.readablePathLogs_eq]
      by_cases tracked : pool ∈ verified
      · exact mergedState_congr
          (eventsFor_older finalizes announced built.headerlessComplete tracked).symm
      · have uncovered : base[pool]? = none := by
          by_contra covered
          obtain ⟨state, found⟩ := Option.ne_none_iff_exists'.mp covered
          exact tracked (baseVerified pool ((HashMap.mem_iff_exists base pool).mpr ⟨state, found⟩))
        rw [mergedState_untracked uncovered tracked, mergedState_untracked uncovered tracked]
    · rw [projectedPoolStates_frontier wellFormed, ← frontier]
      unfold projectedPoolStatesIfChanged
      have own := projectedFoldFrontier_getD wellFormed' verified v4Manager
      have anchored : (graph.rerooted newAnchor node).anchor.hash = newAnchor := rfl
      rw [anchored] at own
      simp [anchored, own]

end

/-! ### A finalized swap -/

/-- One block with an authoritative swap above the anchor. -/
def swapSample : BlocksGraph :=
  letI : BloomHash := BloomHash.tabulated
  (((BlocksGraph.new 0x10 100).operate
    (.withBlockCapped 0x11 0x10 101 (.ofBits [565, 531, 172]) 8)).operate
    (.withObservedHead 0x11)).operate (.withCompleteLogs 0x11 [sampleSwap])

theorem swapSample_announced :
    letI : BloomHash := BloomHash.tabulated
    swapSample.LogsAnnounced (HashSet.collect [samplePool]) (poolManagerAddress .ethereum) := by
  let _ : BloomHash := BloomHash.tabulated
  let holds : BlockHash → BlockHash → BlockData → Prop := fun _ _ data =>
    data.logsBloom = some (.ofBits [565, 531, 172])
  have admitted : AllBlocks holds ((BlocksGraph.new 0x10 100).operate
      (.withBlockCapped 0x11 0x10 101 (.ofBits [565, 531, 172]) 8)) :=
    (allBlocks_new 0x10 100).withDataCapped 8 (fun _ _ _ => rfl)
  have all : AllBlocks holds swapSample :=
    (admitted.withObservedHead 0x11).modifyData (fun _ _ held => held)
  intro hash node found log membership pool tracked samePool bloom header
  obtain rfl : pool = samplePool := by simpa using tracked
  obtain rfl := Option.some.inj ((all hash node found).symm.trans header)
  exact ⟨0x88e6a0c2ddd26feeb64f039a2c41296fcb3f5640, rfl, by decide +kernel⟩

theorem finalizedTo_invisible_swapSample :
    letI : BloomHash := BloomHash.tabulated
    let verified : HashSet PoolRef := HashSet.collect [samplePool]
    let finalized := swapSample.finalizedTo 0x11 ∅ verified (poolManagerAddress .ethereum)
    finalized.1.anchor.hash = 0x11 ∧
      (finalized.1.projectedPoolStates finalized.2 verified (poolManagerAddress .ethereum)).2 =
        (swapSample.projectedPoolStates ∅ verified (poolManagerAddress .ethereum)).2 := by
  let _ : BloomHash := BloomHash.tabulated
  have built : Built swapSample := (((Built.new 0x10 100).operate _).operate _).operate _
  refine ⟨by decide +kernel, ?_⟩
  refine (finalizedTo_invisible built 0x11 ∅ _ _ (by simp) swapSample_announced ?_).1
  intro pool
  have logs : swapSample.readablePathLogs (swapSample.projectedPoolStates ∅
      (HashSet.collect [samplePool]) (poolManagerAddress .ethereum)).2 .allowStreamed =
      [sampleSwap] := by decide +kernel
  rw [logs]
  by_cases same : sampleSwap.pool = pool.key
  · have run : eventsFor pool.key [sampleSwap] = [sampleSwap.event] := by simp [eventsFor, same]
    rw [run]
    exact Option.some_ne_none _
  · simp [eventsFor, same]

end ArmchairAnalyst.BlocksGraph

import ArmchairAnalyst.Kernel.FoldProofs
import ArmchairAnalyst.Kernel.BlockFacts

/-!
# Finalization

Finalization splits the canonical path at the new anchor. The older part is folded
into the base with authoritative logs, the newer part stays in the graph, and the
view merged from both is the one from before.
-/

namespace ArmchairAnalyst

/-- The address whose bloom bits announce the logs of a pool. -/
def watchedAddress (v4Manager : Option Address) (pool : PoolRef) : Option Address :=
  match pool.key with
  | .uniswapV3 address => some address
  | .uniswapV4 _ => v4Manager

theorem mem_watchedAddresses (verified : HashSet PoolRef) (v4Manager : Option Address)
    (address : Address) :
    address ∈ watchedAddresses verified v4Manager ↔
      ∃ pool ∈ verified, watchedAddress v4Manager pool = some address := by
  simp only [watchedAddresses, HashSet.mem_collect, List.mem_filterMap,
    Std.ExtTreeSet.mem_toList]
  rfl

/-- A block whose bloom contains a watched pattern may be touched. -/
theorem bloomMayTouch_of_contains [BloomHash] {addresses : HashSet Address} {address : Address}
    {bloom : Bloom} (watched : address ∈ addresses)
    (contained : Bloom.contains bloom (BloomHash.accrue address) = true) :
    bloomMayTouch (some bloom) (BloomPatterns.of addresses) = true := by
  have listed : BloomHash.accrue address ∈ BloomPatterns.of addresses :=
    List.mem_map.mpr ⟨address, Std.ExtTreeSet.mem_toList.mpr watched, rfl⟩
  have nonempty : (BloomPatterns.of addresses).isEmpty = false := by
    rw [List.isEmpty_eq_false_iff]
    exact List.ne_nil_of_mem listed
  simp only [bloomMayTouch, nonempty, Bool.false_eq_true, if_false]
  exact List.any_eq_true.mpr ⟨_, listed, contained⟩

/-! ### The merged state -/

/-- Without an overflow a tracked pool's merged state is the end of its run. -/
theorem mergedState_eq_join {base : HashMap PoolRef PoolState} {verified : HashSet PoolRef}
    {logs : List PoolLog} {pool : PoolRef} (tracked : pool ∈ verified)
    {after : Option PoolState}
    (folded : foldEvents base[pool]? (eventsFor pool.key logs) = some after) :
    mergedState base verified logs pool = after := by
  unfold mergedState
  cases found : base[pool]? with
  | none =>
    rw [found] at folded
    simp [tracked, derivePoolState, folded]
  | some state =>
    rw [found] at folded
    obtain ⟨result, rfl⟩ := Option.isSome_iff_exists.mp (foldEvents_isSome folded)
    simp [derivePoolState, folded]

theorem mergedState_untracked {base : HashMap PoolRef PoolState} {verified : HashSet PoolRef}
    {logs : List PoolLog} {pool : PoolRef} (uncovered : base[pool]? = none)
    (untracked : pool ∉ verified) : mergedState base verified logs pool = none := by
  simp [mergedState, uncovered, untracked]

/-- The merged state only depends on the pool's own events. -/
theorem mergedState_congr {base : HashMap PoolRef PoolState} {verified : HashSet PoolRef}
    {logs logs' : List PoolLog} {pool : PoolRef}
    (same : eventsFor pool.key logs = eventsFor pool.key logs') :
    mergedState base verified logs pool = mergedState base verified logs' pool := by
  simp only [mergedState, same]

/-- Folding in two stages is folding at once. -/
theorem mergedState_append {base base' : HashMap PoolRef PoolState} {verified : HashSet PoolRef}
    {older newer : List PoolLog} {pool : PoolRef}
    (advanced : base'[pool]? = mergedState base verified older pool)
    (baseVerified : ∀ other, other ∈ base → other ∈ verified)
    (noOverflow : foldEvents base[pool]? (eventsFor pool.key (older ++ newer)) ≠ none) :
    mergedState base' verified newer pool = mergedState base verified (older ++ newer) pool := by
  by_cases tracked : pool ∈ verified
  · obtain ⟨after, folded⟩ := Option.ne_none_iff_exists'.mp noOverflow
    rw [mergedState_eq_join tracked folded]
    rw [eventsFor_append, foldEvents_append] at folded
    obtain ⟨middle, first, second⟩ := Option.bind_eq_some_iff.mp folded
    rw [mergedState_eq_join tracked first] at advanced
    exact mergedState_eq_join tracked (by rw [advanced]; exact second)
  · have uncovered : base[pool]? = none := by
      by_contra covered
      obtain ⟨state, found⟩ := Option.ne_none_iff_exists'.mp covered
      exact tracked (baseVerified pool ((HashMap.mem_iff_exists base pool).mpr ⟨state, found⟩))
    rw [mergedState_untracked uncovered tracked]
    rw [mergedState_untracked uncovered tracked] at advanced
    exact mergedState_untracked advanced tracked

namespace BlocksGraph

variable [BloomHash]

/-! ### The projected view -/

/-- The blocks the optimization read folds, oldest first. -/
def projectedPath (graph : BlocksGraph) (verified : HashSet PoolRef)
    (v4Manager : Option Address) : List BlockHash :=
  graph.canonicalOldestToNewest.takeWhile (fun hash =>
    !graph.stopsAt (BloomPatterns.of (watchedAddresses verified v4Manager)) .allowStreamed hash)

omit [BloomHash] in
theorem canonicalOldestToNewest_eq {graph : BlocksGraph} {path : List BlockHash}
    (rooted : RootedPath graph.connectedUp graph.observedHead path) :
    graph.canonicalOldestToNewest = path.reverse := by
  obtain ⟨node, found⟩ := connected_of_mem_path rooted rooted.self_mem
  simp [canonicalOldestToNewest, found, connectedOldestToNewest_eq rooted]

omit [BloomHash] in
theorem canonicalOldestToNewest_eq_nil {graph : BlocksGraph}
    (detached : graph.connected graph.observedHead = none) :
    graph.canonicalOldestToNewest = [] := by
  simp [canonicalOldestToNewest, detached]

omit [BloomHash] in
/-- The canonical chain is empty or the path of the connected head. -/
theorem WellFormed.canonical_cases {graph : BlocksGraph} (wellFormed : graph.WellFormed) :
    (graph.connected graph.observedHead = none ∧ graph.canonicalOldestToNewest = []) ∨
      ∃ node path, graph.connected graph.observedHead = some node ∧
        RootedPath graph.connectedUp graph.observedHead path ∧
        graph.canonicalOldestToNewest = path.reverse := by
  cases found : graph.connected graph.observedHead with
  | none => exact .inl ⟨rfl, canonicalOldestToNewest_eq_nil found⟩
  | some node =>
    obtain ⟨path, rooted⟩ := wellFormed.connectedRooted graph.observedHead
      ((connectedUp_isSome _ _).mpr ⟨node, (connected_eq_some _ _ _).mp found⟩)
    exact .inr ⟨node, path, rfl, rooted, canonicalOldestToNewest_eq rooted⟩

omit [BloomHash] in
theorem WellFormed.connectedUp_anchor {graph : BlocksGraph} (wellFormed : graph.WellFormed) :
    graph.connectedUp graph.anchor.hash = none := by
  by_contra isConnected
  exact wellFormed.anchorAbsent (connectedUp_mem (Option.isSome_iff_ne_none.mpr isConnected))

/-- The frontier of the optimization read is the last block it folds. -/
theorem projectedFoldFrontier_getD {graph : BlocksGraph} (wellFormed : graph.WellFormed)
    (verified : HashSet PoolRef) (v4Manager : Option Address) :
    (graph.projectedFoldFrontier verified v4Manager).getD graph.anchor.hash =
      (graph.projectedPath verified v4Manager).getLastD graph.anchor.hash := by
  unfold projectedFoldFrontier projectedPath
  rcases wellFormed.canonical_cases with ⟨detached, empty⟩ | ⟨node, path, found, rooted, whole⟩
  · simp [detached, empty]
  · simp only [found, Option.getD_some, whole, foldableFrontier, foldableFrontierAlong_eq,
      connectedOldestToNewest_eq rooted]

theorem projectedPoolStates_frontier {graph : BlocksGraph} (wellFormed : graph.WellFormed)
    (base : HashMap PoolRef PoolState) (verified : HashSet PoolRef)
    (v4Manager : Option Address) :
    (graph.projectedPoolStates base verified v4Manager).2 =
      (graph.projectedPath verified v4Manager).getLastD graph.anchor.hash := by
  rw [← projectedFoldFrontier_getD wellFormed]
  unfold projectedPoolStates
  split <;> simp_all

/-- The logs the optimization read folds. -/
def projectedLogs (graph : BlocksGraph) (verified : HashSet PoolRef)
    (v4Manager : Option Address) : List PoolLog :=
  (graph.projectedPath verified v4Manager).flatMap (graph.blockReads .allowStreamed)

theorem readablePathLogs_frontier {graph : BlocksGraph} (wellFormed : graph.WellFormed)
    (base : HashMap PoolRef PoolState) (verified : HashSet PoolRef)
    (v4Manager : Option Address) :
    graph.readablePathLogs (graph.projectedPoolStates base verified v4Manager).2 .allowStreamed =
      graph.projectedLogs verified v4Manager := by
  rw [readablePathLogs_eq, projectedLogs]
  congr 1
  unfold projectedPoolStates projectedFoldFrontier projectedPath
  rcases wellFormed.canonical_cases with ⟨detached, empty⟩ | ⟨node, path, found, rooted, whole⟩
  · simp [detached, empty, connectedOldestToNewest_eq_nil wellFormed.connectedUp_anchor]
  · simp only [found, whole]
    exact connectedOldestToNewest_frontier wellFormed rooted _ _

/-- The overlay in terms of the logs it folds. -/
theorem getElem?_projectedOverlay {graph : BlocksGraph} (wellFormed : graph.WellFormed)
    (base : HashMap PoolRef PoolState) (verified : HashSet PoolRef)
    (v4Manager : Option Address) (pool : PoolRef) :
    (graph.projectedPoolStates base verified v4Manager).1[pool]? =
      let events := eventsFor pool.key (graph.projectedLogs verified v4Manager)
      if events = [] then none
      else
        match base[pool]? with
        | some state => derivePoolState (some state) events
        | none => if pool ∈ verified then derivePoolState none events else none := by
  rw [← readablePathLogs_frontier wellFormed base]
  unfold projectedPoolStates
  cases graph.projectedFoldFrontier verified v4Manager with
  | some frontier => exact getElem?_foldedOverlay graph base verified frontier .allowStreamed pool
  | none =>
    have empty : graph.readablePathLogs graph.anchor.hash .allowStreamed = [] := by
      rw [readablePathLogs_eq, connectedOldestToNewest_eq_nil wellFormed.connectedUp_anchor]
      rfl
    simp [empty]

/-- Base and overlay together hold the merged state of every pool. -/
theorem getElem?_projectedView {graph : BlocksGraph} (wellFormed : graph.WellFormed)
    (base : HashMap PoolRef PoolState) (verified : HashSet PoolRef)
    (v4Manager : Option Address) (pool : PoolRef) :
    (base ∪ (graph.projectedPoolStates base verified v4Manager).1)[pool]? =
      mergedState base verified (graph.projectedLogs verified v4Manager) pool := by
  rw [Std.ExtTreeMap.getElem?_union, getElem?_projectedOverlay wellFormed]
  unfold mergedState
  by_cases empty : eventsFor pool.key (graph.projectedLogs verified v4Manager) = []
  · cases base[pool]? with
    | none => simp [empty, derivePoolState]
    | some state => simp [empty, derivePoolState]
  · cases base[pool]? with
    | none => simp [empty]
    | some state =>
      cases derived : derivePoolState (some state)
          (eventsFor pool.key (graph.projectedLogs verified v4Manager)) <;>
        simp [empty, derived]

/-! ### What finalization does -/

/-- A finalization that moves the anchor splits the canonical path at a block up to
which nothing stops the authoritative fold. -/
structure FinalizesAt (graph : BlocksGraph) (watched : BloomPatterns) (newAnchor : BlockHash)
    (node : ConnectedNode) (older newer : List BlockHash) : Prop where
  rooted : RootedPath graph.connectedUp graph.observedHead (older ++ newAnchor :: newer).reverse
  found : graph.connected newAnchor = some node
  passes : ∀ hash ∈ older ++ [newAnchor], graph.stopsAt watched .requireComplete hash = false

omit [BloomHash] in
/-- A frontier on the tree splits the path at itself, and nothing up to it stops the fold. -/
theorem foldableFrontier_split {graph : BlocksGraph} (wellFormed : graph.WellFormed)
    {target frontier : BlockHash} {path : List BlockHash} {watched : BloomPatterns}
    {authority : Authority} (rooted : RootedPath graph.connectedUp target path)
    (reached : graph.foldableFrontier target watched authority = frontier)
    (onTree : (graph.connectedUp frontier).isSome) :
    ∃ older newer, path.reverse = older ++ frontier :: newer ∧
      ∀ hash ∈ older ++ [frontier], graph.stopsAt watched authority hash = false := by
  have walk := connectedOldestToNewest_frontier wellFormed rooted watched authority
  obtain ⟨frontierPath, frontierRooted⟩ := wellFormed.connectedRooted frontier onTree
  obtain ⟨above, rfl⟩ := frontierRooted.eq_cons
  rw [reached, connectedOldestToNewest_eq frontierRooted, List.reverse_cons] at walk
  have split := List.takeWhile_append_dropWhile
    (p := fun hash => !graph.stopsAt watched authority hash) (l := path.reverse)
  rw [← walk] at split
  refine ⟨above.reverse, _, by simpa using split.symm, ?_⟩
  intro hash membership
  rw [walk] at membership
  simpa using List.mem_takeWhile_imp membership

omit [BloomHash] in
/-- A finalization target is a block of the canonical chain. -/
theorem canonicalConnectedTarget_split {graph : BlocksGraph} (wellFormed : graph.WellFormed)
    {target target' : BlockHash} (guarded : graph.canonicalConnectedTarget target = some target') :
    ∃ older newer, RootedPath graph.connectedUp graph.observedHead
        (older ++ target' :: newer).reverse ∧
      RootedPath graph.connectedUp target' (older ++ [target']).reverse := by
  have listed : target' ∈ graph.canonicalOldestToNewest := by
    unfold canonicalConnectedTarget at guarded
    split at guarded
    · simp at guarded
    · exact List.mem_of_find?_eq_some guarded
  rcases wellFormed.canonical_cases with ⟨_, empty⟩ | ⟨_, path, _, rooted, whole⟩
  · simp [empty] at listed
  · rw [whole] at listed
    obtain ⟨older, newer, split⟩ := List.append_of_mem listed
    obtain rfl : path = (older ++ target' :: newer).reverse := by
      rw [← split, List.reverse_reverse]
    refine ⟨older, newer, rooted, ?_⟩
    have reversed : (older ++ target' :: newer).reverse =
        newer.reverse ++ target' :: older.reverse := by simp
    rw [reversed] at rooted
    simpa using rooted.suffix

theorem finalizedTo_cases {graph : BlocksGraph} (wellFormed : graph.WellFormed)
    (target : BlockHash) (base : HashMap PoolRef PoolState) (verified : HashSet PoolRef)
    (v4Manager : Option Address) :
    graph.finalizedTo target base verified v4Manager = (graph, base) ∨
      ∃ newAnchor node older newer,
        graph.FinalizesAt (BloomPatterns.of (watchedAddresses verified v4Manager)) newAnchor node
          older newer ∧
        graph.finalizedTo target base verified v4Manager =
          (graph.rerooted newAnchor node,
            graph.foldedPoolStates base verified newAnchor .requireComplete) := by
  unfold finalizedTo
  cases guarded : graph.canonicalConnectedTarget target with
  | none => exact .inl rfl
  | some target' =>
    simp only
    generalize reached : graph.foldableFrontier target'
      (BloomPatterns.of (watchedAddresses verified v4Manager)) .requireComplete = newAnchor
    rcases graph.reanchoredTo_cases newAnchor base verified with idle | ⟨node, -, found, moved⟩
    · exact .inl idle
    · obtain ⟨below, above, headRooted, targetRooted⟩ :=
        canonicalConnectedTarget_split wellFormed guarded
      have onTree : (graph.connectedUp newAnchor).isSome :=
        (connectedUp_isSome _ _).mpr ⟨node, (connected_eq_some _ _ _).mp found⟩
      obtain ⟨older, newer, split, passes⟩ :=
        foldableFrontier_split wellFormed targetRooted reached onTree
      rw [List.reverse_reverse] at split
      have whole : below ++ target' :: above = older ++ newAnchor :: (newer ++ above) := by
        have targetPart : below ++ target' :: above = (below ++ [target']) ++ above := by simp
        rw [targetPart, split]
        simp
      refine .inr ⟨newAnchor, node, older, newer ++ above, ⟨?_, found, passes⟩, moved⟩
      rw [← whole]
      exact headRooted

end BlocksGraph

end ArmchairAnalyst

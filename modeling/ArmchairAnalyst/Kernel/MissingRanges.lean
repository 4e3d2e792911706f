import ArmchairAnalyst.Library.Runs
import ArmchairAnalyst.Kernel.PartialCompaction
import ArmchairAnalyst.Kernel.PendingRequests

/-!
# The missing ranges

The blocks that keep a finalization from reaching its target are the holes on the
path to it. They are fetched in ranges, one for each maximal run of adjacent block
numbers.
-/

namespace ArmchairAnalyst.BlocksGraph

/-- The holes on the path to a connected block with their numbers, oldest first. -/
def holesTo (graph : BlocksGraph) (target : ConnectedHash) (watched : BloomPatterns)
    (excludeNumbers : HashSet UInt64) : List (BlockHash × UInt64) :=
  (graph.connectedOldestToNewest target).filterMap (fun hash =>
    (graph.connected hash).bind (fun node =>
      if isHole watched excludeNumbers node.data then some (hash, node.data.number) else none))

def missingCompleteRanges (graph : BlocksGraph) (target : ConnectedHash)
    (watched : BloomPatterns) (excludeNumbers : HashSet UInt64) : List MissingRange :=
  graph.missingRangesAlong watched excludeNumbers [] (graph.connectedOldestToNewest target)

/-- The unwrapping loop stops at a block that is not connected; a walk lists none. -/
theorem connected_of_mem_walkUp {graph : BlocksGraph} {fuel : Nat} {start hash : BlockHash}
    (listed : hash ∈ walkUp graph.connectedUp fuel start) :
    ∃ node, graph.connected hash = some node := by
  induction fuel generalizing start with
  | zero => simp [walkUp] at listed
  | succ fuel inductionHypothesis =>
    have here : (graph.connectedUp start).isSome → ∃ node, graph.connected start = some node := by
      intro isConnected
      rw [← connected_isSome] at isConnected
      exact Option.isSome_iff_exists.mp isConnected
    unfold walkUp at listed
    split at listed
    · simp at listed
    · rename_i attached
      obtain rfl : hash = start := by simpa using listed
      exact here (by simp [attached])
    · rename_i parent attached
      rcases List.mem_cons.mp listed with rfl | above
      · exact here (by simp [attached])
      · exact inductionHypothesis above

theorem missingRangesAlong_eq {graph : BlocksGraph} (watched : BloomPatterns)
    (excludeNumbers : HashSet UInt64) (ranges : List MissingRange) {hashes : List BlockHash}
    (connects : ∀ hash ∈ hashes, ∃ node, graph.connected hash = some node) :
    graph.missingRangesAlong watched excludeNumbers ranges hashes =
      (hashes.filterMap (fun hash => (graph.connected hash).bind (fun node =>
        if isHole watched excludeNumbers node.data then some (hash, node.data.number)
        else none))).foldl (fun ranges hole => pushHole ranges hole.1 hole.2) ranges := by
  induction hashes generalizing ranges with
  | nil => rfl
  | cons hash hashes inductionHypothesis =>
    obtain ⟨node, found⟩ := connects hash (by simp)
    have later := fun ranges => inductionHypothesis ranges
      (fun other listed => connects other (by simp [listed]))
    unfold missingRangesAlong
    rw [found]
    by_cases hole : isHole watched excludeNumbers node.data
    · simp [found, hole, later]
    · simp [found, hole, later]

/-! ### Ranges as runs -/

/-- Whether a hole continues the range that ends with another one. -/
def adjacent (last next : BlockHash × UInt64) : Bool := next.2 == last.2 + 1

/-- The range of a run of holes. -/
def rangeOf (run : List (BlockHash × UInt64)) : MissingRange where
  fromBlock := (run.head?.map (·.2)).getD 0
  toBlock := (run.getLast?.map (·.2)).getD 0
  hashes := run.map (·.1)

theorem pushHole_map_rangeOf {runs : List (List (BlockHash × UInt64))} (nonempty : [] ∉ runs)
    (hole : BlockHash × UInt64) :
    pushHole (runs.map rangeOf) hole.1 hole.2 = (extendRuns adjacent runs hole).map rangeOf := by
  rcases runs_cases nonempty with rfl | ⟨older, run, last, rfl⟩
  · rfl
  · rw [extendRuns_concat]
    have end_ : (rangeOf (run ++ [last])).toBlock = last.2 := by simp [rangeOf]
    have start : (run ++ [last] ++ [hole]).head? = (run ++ [last]).head? := by
      rw [List.head?_append_of_ne_nil _ (by simp)]
    unfold pushHole
    rw [List.map_append, List.map_singleton, List.getLast?_concat]
    simp only [end_]
    by_cases continues : hole.2 = last.2 + 1
    · rw [if_pos continues, if_pos (by simpa [adjacent] using continues)]
      rw [List.dropLast_concat, List.map_append, List.map_singleton]
      congr 1
      simp only [rangeOf, start]
      simp
    · rw [if_neg continues, if_neg (by simpa [adjacent] using continues)]
      simp [rangeOf]

theorem foldl_pushHole (holes : List (BlockHash × UInt64)) :
    holes.foldl (fun ranges hole => pushHole ranges hole.1 hole.2) [] =
      (holes.splitBy adjacent).map rangeOf := by
  induction holes using List.reverseRecOn with
  | nil => rfl
  | append_singleton holes hole inductionHypothesis =>
    rw [List.foldl_append, inductionHypothesis, ← extendRuns_splitBy]
    exact pushHole_map_rangeOf (List.nil_notMem_splitBy _ _) hole

/-- The missing ranges are those of the maximal runs of adjacent holes. -/
theorem missingCompleteRanges_eq (graph : BlocksGraph) (target : ConnectedHash)
    (watched : BloomPatterns) (excludeNumbers : HashSet UInt64) :
    graph.missingCompleteRanges target watched excludeNumbers =
      ((graph.holesTo target watched excludeNumbers).splitBy adjacent).map rangeOf := by
  unfold missingCompleteRanges
  rw [missingRangesAlong_eq, foldl_pushHole]
  · rfl
  · intro hash listed
    exact connected_of_mem_walkUp (List.mem_reverse.mp listed)

theorem flatMap_hashes_missingCompleteRanges (graph : BlocksGraph) (target : ConnectedHash)
    (watched : BloomPatterns) (excludeNumbers : HashSet UInt64) :
    (graph.missingCompleteRanges target watched excludeNumbers).flatMap (·.hashes) =
      (graph.holesTo target watched excludeNumbers).map (·.1) := by
  rw [missingCompleteRanges_eq, List.flatMap_map]
  change ((graph.holesTo target watched excludeNumbers).splitBy adjacent).flatMap
    (List.map (·.1)) = _
  rw [List.flatMap_def, ← List.map_flatten, List.flatten_splitBy]

theorem missingCompleteRanges_eq_nil (graph : BlocksGraph) (target : ConnectedHash)
    (watched : BloomPatterns) (excludeNumbers : HashSet UInt64) :
    graph.missingCompleteRanges target watched excludeNumbers = [] ↔
      graph.holesTo target watched excludeNumbers = [] := by
  rw [missingCompleteRanges_eq, List.map_eq_nil_iff, List.splitBy_eq_nil]

/-! ### Well-formed ranges -/

theorem mem_holesTo {graph : BlocksGraph} {target : ConnectedHash} {watched : BloomPatterns}
    {excludeNumbers : HashSet UInt64} {hole : BlockHash × UInt64} :
    hole ∈ graph.holesTo target watched excludeNumbers ↔
      hole.1 ∈ graph.connectedOldestToNewest target ∧
        ∃ node, graph.nodes[hole.1]? = some (.connected node) ∧
          isHole watched excludeNumbers node.data = true ∧ node.data.number = hole.2 := by
  obtain ⟨hash, number⟩ := hole
  simp only [holesTo, List.mem_filterMap, Option.bind_eq_some_iff]
  constructor
  · intro listed
    obtain ⟨other, onPath, node, found, selected⟩ := listed
    by_cases hole : isHole watched excludeNumbers node.data
    · obtain ⟨rfl, rfl⟩ : other = hash ∧ node.data.number = number := by simpa [hole] using selected
      exact ⟨onPath, node, (connected_eq_some _ _ _).mp found, hole, rfl⟩
    · simp [hole] at selected
  · intro listed
    obtain ⟨onPath, node, found, hole, rfl⟩ := listed
    exact ⟨hash, onPath, node, (connected_eq_some _ _ _).mpr found, by simp [hole]⟩

/-- What the ranged fetch relies on: the range is ordered, has one hash for each of its
numbers, and names the holes in the order of their numbers. -/
structure ExactRange (graph : BlocksGraph) (watched : BloomPatterns)
    (excludeNumbers : HashSet UInt64) (range : MissingRange) : Prop where
  ordered : range.fromBlock ≤ range.toBlock
  length : range.hashes.length = range.toBlock.toNat - range.fromBlock.toNat + 1
  holes : ∀ (i : Nat) (hash : BlockHash), range.hashes[i]? = some hash →
    ∃ node, graph.nodes[hash]? = some (.connected node) ∧
      isHole watched excludeNumbers node.data = true ∧
      node.data.number.toNat = range.fromBlock.toNat + i
  notExcluded : ∀ number, range.fromBlock ≤ number → number ≤ range.toBlock →
    number ∉ excludeNumbers

/-- A hole numbered with the largest number followed by one numbered zero. -/
def Wraps (last next : BlockHash × UInt64) : Prop :=
  last.2.toNat = 2 ^ 64 - 1 ∧ next.2 = 0

/-- The successor of a machine integer counts up unless it wraps. -/
theorem toNat_succ_iff {last next : BlockHash × UInt64} (continues : adjacent last next = true) :
    ¬ Wraps last next ↔ next.2.toNat = last.2.toNat + 1 := by
  have same : next.2 = last.2 + 1 := by simpa [adjacent] using continues
  have bound := last.2.toNat_lt
  have sum : next.2.toNat = (last.2.toNat + 1) % 2 ^ 64 := by rw [same, UInt64.toNat_add]; rfl
  unfold Wraps
  rw [← UInt64.toNat_inj, UInt64.toNat_zero]
  omega

theorem exactRange_of_run {graph : BlocksGraph} {watched : BloomPatterns}
    {excludeNumbers : HashSet UInt64} {first : BlockHash × UInt64}
    {rest : List (BlockHash × UInt64)}
    (holes : ∀ hole ∈ first :: rest, ∃ node, graph.nodes[hole.1]? = some (.connected node) ∧
      isHole watched excludeNumbers node.data = true ∧ node.data.number = hole.2)
    (counts : ∀ (i : Nat) (hole : BlockHash × UInt64), (first :: rest)[i]? = some hole →
      hole.2.toNat = first.2.toNat + i) :
    graph.ExactRange watched excludeNumbers (rangeOf (first :: rest)) := by
  have start : (rangeOf (first :: rest)).fromBlock = first.2 := rfl
  have end_ : (rangeOf (first :: rest)).toBlock.toNat = first.2.toNat + rest.length := by
    have last : (first :: rest)[rest.length]? = (first :: rest).getLast? := by
      rw [List.getLast?_eq_getElem?]
      rfl
    rw [List.getLast?_eq_some_getLast (List.cons_ne_nil first rest)] at last
    have counted := counts _ _ last
    simp only [rangeOf, List.getLast?_eq_some_getLast (List.cons_ne_nil first rest)]
    exact counted
  have member : ∀ (i : Nat), i ≤ rest.length → ∃ hole ∈ first :: rest,
      (first :: rest)[i]? = some hole ∧ hole.2.toNat = first.2.toNat + i := by
    intro i inside
    have found := List.getElem?_eq_getElem (show i < (first :: rest).length by simp; omega)
    exact ⟨_, List.getElem_mem _, found, counts i _ found⟩
  constructor
  · rw [UInt64.le_iff_toNat_le, start]
    omega
  · rw [start, end_]
    simp [rangeOf]
  · intro i hash found
    rw [start]
    simp only [rangeOf, List.getElem?_map, Option.map_eq_some_iff] at found
    obtain ⟨hole, listed, rfl⟩ := found
    obtain ⟨node, present, isHole_, number⟩ := holes hole (List.mem_of_getElem? listed)
    exact ⟨node, present, isHole_, by rw [number]; exact counts i hole listed⟩
  · intro number lower upper
    rw [UInt64.le_iff_toNat_le] at lower upper
    rw [start] at lower
    obtain ⟨hole, listed, -, value⟩ := member (number.toNat - first.2.toNat) (by omega)
    obtain ⟨node, -, isHole_, own⟩ := holes hole listed
    have same : node.data.number = number := by
      rw [own, ← UInt64.toNat_inj]
      omega
    intro excluded
    have listed : excludeNumbers.contains node.data.number = true := by
      rw [same]
      exact Std.ExtTreeSet.contains_iff_mem.mpr excluded
    simp [isHole, listed] at isHole_

theorem counts_of_exactRange {graph : BlocksGraph} {watched : BloomPatterns}
    {excludeNumbers : HashSet UInt64} {first : BlockHash × UInt64}
    {rest : List (BlockHash × UInt64)}
    (holes : ∀ hole ∈ first :: rest, ∃ node, graph.nodes[hole.1]? = some (.connected node) ∧
      isHole watched excludeNumbers node.data = true ∧ node.data.number = hole.2)
    (exact_ : graph.ExactRange watched excludeNumbers (rangeOf (first :: rest))) (i : Nat)
    (hole : BlockHash × UInt64) (listed : (first :: rest)[i]? = some hole) :
    hole.2.toNat = first.2.toNat + i := by
  have named : (rangeOf (first :: rest)).hashes[i]? = some hole.1 := by
    simp only [rangeOf, List.getElem?_map, listed, Option.map_some]
  obtain ⟨node, present, -, counted⟩ := exact_.holes i hole.1 named
  obtain ⟨own, present', -, number⟩ := holes hole (List.mem_of_getElem? listed)
  obtain rfl : node = own := by simpa [present] using present'
  rw [← number]
  exact counted

/-- The ranges are well formed exactly when no hole numbered zero follows one with the
largest number: adjacency is tested on machine integers. -/
theorem missingCompleteRanges_exact_iff (graph : BlocksGraph) (target : ConnectedHash)
    (watched : BloomPatterns) (excludeNumbers : HashSet UInt64) :
    (∀ range ∈ graph.missingCompleteRanges target watched excludeNumbers,
      graph.ExactRange watched excludeNumbers range) ↔
    (graph.holesTo target watched excludeNumbers).IsChain
      (fun last next => ¬ Wraps last next) := by
  have unrelated : ∀ last next, adjacent last next = false → ¬ Wraps last next := by
    intro last next apart wraps
    have stepped : last.2 + 1 = 0 := by
      rw [← UInt64.toNat_inj, UInt64.toNat_add, wraps.1]
      rfl
    simp [adjacent, wraps.2, stepped] at apart
  rw [isChain_iff_splitBy unrelated, missingCompleteRanges_eq]
  simp only [List.forall_mem_map]
  apply forall₂_congr
  intro run membership
  have holes : ∀ hole ∈ run, ∃ node, graph.nodes[hole.1]? = some (.connected node) ∧
      isHole watched excludeNumbers node.data = true ∧ node.data.number = hole.2 := by
    intro hole listed
    apply And.right
    apply mem_holesTo.mp
    rw [← List.flatten_splitBy adjacent (graph.holesTo target watched excludeNumbers)]
    exact List.mem_flatten.mpr ⟨run, membership, listed⟩
  have chain := List.isChain_of_mem_splitBy membership
  have counting : run.IsChain (fun last next => ¬ Wraps last next) ↔
      run.IsChain (fun last next => next.2.toNat = last.2.toNat + 1) := by
    rw [List.isChain_iff_forall_rel_of_append_cons_cons] at chain
    simp only [List.isChain_iff_forall_rel_of_append_cons_cons]
    constructor
    · intro clear last next older newer split
      exact (toNat_succ_iff (chain split)).mp (clear split)
    · intro counted last next older newer split
      exact (toNat_succ_iff (chain split)).mpr (counted split)
  rw [counting]
  cases run with
  | nil => exact absurd membership (List.nil_notMem_splitBy _ _)
  | cons first rest =>
    rw [isChain_succ_iff (fun hole : BlockHash × UInt64 => hole.2.toNat)]
    constructor
    · intro exact_ i hole listed
      exact counts_of_exactRange holes exact_ i hole listed
    · intro counts
      exact exactRange_of_run holes counts

/-- Two watched blocks whose provider numbers the second one zero after the largest number. -/
def wrappedSample : BlocksGraph :=
  letI : BloomHash := BloomHash.tabulated
  (((BlocksGraph.new 0x10 100).operate
    (.withBlockCapped 0x11 0x10 0xffffffffffffffff (.ofBits [565, 531, 172]) 8)).operate
    (.withBlockCapped 0x12 0x11 0 (.ofBits [565, 531, 172]) 8)).operate (.withObservedHead 0x12)

/-- The request made of a wrapped range is inverted and covers no number. -/
theorem wrapped_range_is_inverted :
    letI : BloomHash := BloomHash.tabulated
    let requests := (wrappedSample.missingCompleteRangesTo 0x12 (HashSet.collect [samplePool])
      (poolManagerAddress .ethereum) ∅).map Kernel.GetLogsRange.ofMissingRange
    Built wrappedSample ∧ (∃ request ∈ requests, ¬ request.fromBlock ≤ request.toBlock) ∧
      ∀ request ∈ requests, request.numbers = [] := by
  let _ : BloomHash := BloomHash.tabulated
  exact ⟨(((Built.new 0x10 100).operate _).operate _).operate _, by decide +kernel,
    by decide +kernel⟩

/-! ### Stalled finalizations -/

/-- The blocks a target's finalization waits for: on the path, and not passable. -/
theorem mem_holesTo_iff_not_passable {graph : BlocksGraph} {target : BlockHash}
    {path : List BlockHash} (rooted : RootedPath graph.connectedUp target path)
    (watched : BloomPatterns) (hash : BlockHash) :
    hash ∈ (graph.holesTo target watched ∅).map (·.1) ↔
      hash ∈ path ∧ ¬ graph.Passable watched hash := by
  have hole_iff : ∀ data : BlockData, isHole watched ∅ data = true ↔
      blocksFold watched .requireComplete data = true := by
    intro data
    simp [isHole, blocksFold]
  rw [passable_iff]
  constructor
  · intro listed
    obtain ⟨hole, member, rfl⟩ := List.mem_map.mp listed
    obtain ⟨onPath, node, found, isHole_, -⟩ := mem_holesTo.mp member
    rw [connectedOldestToNewest_eq rooted, List.mem_reverse] at onPath
    refine ⟨onPath, ?_⟩
    simp [stopsAt, (connected_eq_some _ _ _).mpr found, (hole_iff _).mp isHole_]
  · intro stuck
    obtain ⟨node, found⟩ := connected_of_mem_path rooted stuck.1
    have blocked : blocksFold watched .requireComplete node.data = true := by
      simpa [stopsAt, found] using stuck.2
    refine List.mem_map.mpr ⟨(hash, node.data.number), mem_holesTo.mpr ⟨?_, node, ?_, ?_, rfl⟩, rfl⟩
    · rw [connectedOldestToNewest_eq rooted, List.mem_reverse]
      exact stuck.1
    · exact (connected_eq_some _ _ _).mp found
    · exact (hole_iff _).mpr blocked

/-- A passed prefix that ends at the target is the whole path to it. -/
theorem passedTowards_getLast? {graph : BlocksGraph} {watched : BloomPatterns}
    {older : List BlockHash} {target : BlockHash} (distinct : (older ++ [target]).Nodup) :
    (graph.passedTowards watched (older ++ [target])).getLast? = some target ↔
      ∀ hash ∈ older ++ [target], graph.Passable watched hash := by
  obtain ⟨beyond, split, -⟩ := graph.passedTowards_split watched (older ++ [target])
  constructor
  · intro last hash membership
    apply passable_of_mem_passedTowards
    suffices beyond = [] by
      rw [this, List.append_nil] at split
      rwa [← split]
    obtain ⟨kept, whole⟩ := List.getLast?_eq_some_iff.mp last
    rw [whole] at split
    rcases List.eq_nil_or_concat beyond with rfl | ⟨init, final, rfl⟩
    · rfl
    · rw [List.concat_eq_append, ← List.append_assoc] at split
      obtain ⟨below, same⟩ := List.append_inj' split rfl
      obtain rfl : target = final := by simpa using same
      rw [List.nodup_append] at distinct
      exact absurd rfl (distinct.2.2 target (by rw [below]; simp) target (by simp))
  · intro passes
    have whole : graph.passedTowards watched (older ++ [target]) = older ++ [target] := by
      apply List.takeWhile_eq_self_iff.mpr
      intro hash membership
      rw [passable_iff.mp (passes hash membership)]
      rfl
    rw [whole, List.getLast?_concat]

section

variable [BloomHash] {graph : BlocksGraph} {target : BlockHash} {older newer : List BlockHash}

omit [BloomHash] in
theorem rootedPath_target
    (rooted : RootedPath graph.connectedUp graph.observedHead (older ++ target :: newer).reverse) :
    RootedPath graph.connectedUp target (older ++ [target]).reverse := by
  have reversed : (older ++ target :: newer).reverse =
      newer.reverse ++ target :: older.reverse := by simp
  rw [reversed] at rooted
  simpa using rooted.suffix

/-- A finalization arrives at its target when every block up to it can be passed. -/
theorem finalizedTo_anchor_iff (wellFormed : graph.WellFormed)
    (rooted : RootedPath graph.connectedUp graph.observedHead (older ++ target :: newer).reverse)
    (base : HashMap PoolRef PoolState) (verified : HashSet PoolRef)
    (v4Manager : Option Address) :
    (graph.finalizedTo target base verified v4Manager).1.anchor.hash = target ↔
      ∀ hash ∈ older ++ [target],
        graph.Passable (BloomPatterns.of (watchedAddresses verified v4Manager)) hash := by
  have distinct : (older ++ [target]).Nodup :=
    List.nodup_reverse.mp (rootedPath_target rooted).nodup
  rw [← passedTowards_getLast? distinct]
  have compacts := finalizedTo_compactsTo wellFormed rooted base verified v4Manager
  unfold CompactsTo at compacts
  split at compacts
  · rename_i stalled
    rw [stalled, compacts]
    refine iff_of_false ?_ (by simp)
    intro same
    have absent := wellFormed.connectedUp_anchor
    rw [same] at absent
    simpa [absent] using rooted.isSome_of_mem (show target ∈ _ by simp)
  · rename_i newAnchor reached
    obtain ⟨⟨node, -, anchor⟩, -⟩ := compacts
    rw [anchor, reached, Option.some.injEq]

theorem missingCompleteRangesTo_eq
    (rooted : RootedPath graph.connectedUp graph.observedHead (older ++ target :: newer).reverse)
    (verified : HashSet PoolRef) (v4Manager : Option Address)
    (excludeNumbers : HashSet UInt64) :
    graph.missingCompleteRangesTo target verified v4Manager excludeNumbers =
      graph.missingCompleteRanges target
        (BloomPatterns.of (watchedAddresses verified v4Manager)) excludeNumbers := by
  unfold missingCompleteRangesTo
  rw [canonicalConnectedTarget_eq_some rooted (by simp)]
  rfl

/-- Without exclusions the ranges name exactly the blocks a finalization cannot pass. -/
theorem mem_missingCompleteRangesTo
    (rooted : RootedPath graph.connectedUp graph.observedHead (older ++ target :: newer).reverse)
    (verified : HashSet PoolRef) (v4Manager : Option Address) (hash : BlockHash) :
    hash ∈ (graph.missingCompleteRangesTo target verified v4Manager ∅).flatMap (·.hashes) ↔
      hash ∈ older ++ [target] ∧
        ¬ graph.Passable (BloomPatterns.of (watchedAddresses verified v4Manager)) hash := by
  rw [missingCompleteRangesTo_eq rooted, flatMap_hashes_missingCompleteRanges,
    mem_holesTo_iff_not_passable (rootedPath_target rooted), List.mem_reverse]

end

/-! ### Completing the holes -/

/-- The graph after authoritative answers for a list of blocks. -/
def withAllCompleteLogs (graph : BlocksGraph) (answers : List (BlockHash × List PoolLog)) :
    BlocksGraph :=
  answers.foldl (fun graph answer => (graph.withCompleteLogs answer.1 answer.2).1) graph

theorem withAllCompleteLogs_views (graph : BlocksGraph)
    (answers : List (BlockHash × List PoolLog)) :
    (graph.withAllCompleteLogs answers).connectedUp = graph.connectedUp ∧
      (graph.withAllCompleteLogs answers).observedHead = graph.observedHead := by
  unfold withAllCompleteLogs
  induction answers generalizing graph with
  | nil => exact ⟨rfl, rfl⟩
  | cons answer answers inductionHypothesis =>
    obtain ⟨up, head⟩ := inductionHypothesis (graph.withCompleteLogs answer.1 answer.2).1
    rw [List.foldl_cons, up, head]
    simp [withCompleteLogs]

theorem WellFormed.withAllCompleteLogs {graph : BlocksGraph} (wellFormed : graph.WellFormed)
    (answers : List (BlockHash × List PoolLog)) :
    (graph.withAllCompleteLogs answers).WellFormed := by
  unfold BlocksGraph.withAllCompleteLogs
  induction answers generalizing graph with
  | nil => exact wellFormed
  | cons answer answers inductionHypothesis =>
    exact inductionHypothesis (wellFormed.withCompleteLogs answer.1 answer.2)

/-- An authoritative answer makes its block passable and leaves the others as they are. -/
theorem Passable.withCompleteLogs {graph : BlocksGraph} {watched : BloomPatterns}
    {hash : BlockHash} (passes : graph.Passable watched hash) (answered : BlockHash)
    (logs : List PoolLog) : (graph.withCompleteLogs answered logs).1.Passable watched hash := by
  obtain ⟨node, found, clear⟩ := passes
  unfold Passable BlocksGraph.withCompleteLogs
  simp only [getElem?_modifyData]
  by_cases same : hash = answered
  · simp only [same, if_true]
    rw [same] at found
    exact ⟨_, by rw [found]; rfl, .inl ⟨_, rfl⟩⟩
  · simp only [same, if_false]
    exact ⟨node, found, clear⟩

theorem passable_withCompleteLogs {graph : BlocksGraph} {hash : BlockHash}
    (isConnected : (graph.connectedUp hash).isSome) (watched : BloomPatterns)
    (logs : List PoolLog) : (graph.withCompleteLogs hash logs).1.Passable watched hash := by
  obtain ⟨node, found⟩ := (connectedUp_isSome graph hash).mp isConnected
  unfold Passable BlocksGraph.withCompleteLogs
  simp only [getElem?_modifyData, if_true]
  exact ⟨_, by rw [found]; rfl, .inl ⟨_, rfl⟩⟩

theorem Passable.withAllCompleteLogs {graph : BlocksGraph} {watched : BloomPatterns}
    {hash : BlockHash} (passes : graph.Passable watched hash)
    (answers : List (BlockHash × List PoolLog)) :
    (graph.withAllCompleteLogs answers).Passable watched hash := by
  unfold BlocksGraph.withAllCompleteLogs
  induction answers generalizing graph with
  | nil => exact passes
  | cons answer answers inductionHypothesis =>
    exact inductionHypothesis (passes.withCompleteLogs answer.1 answer.2)

theorem passable_withAllCompleteLogs {graph : BlocksGraph} {hash : BlockHash}
    (isConnected : (graph.connectedUp hash).isSome) (watched : BloomPatterns)
    {answers : List (BlockHash × List PoolLog)} (answered : hash ∈ answers.map (·.1)) :
    (graph.withAllCompleteLogs answers).Passable watched hash := by
  induction answers generalizing graph with
  | nil => simp at answered
  | cons answer answers inductionHypothesis =>
    rcases List.mem_cons.mp answered with here | later
    · have first := passable_withCompleteLogs isConnected watched answer.2
      rw [here] at first ⊢
      exact first.withAllCompleteLogs answers
    · apply inductionHypothesis _ later
      simpa [withCompleteLogs] using isConnected

section

variable [BloomHash]

/-- The hole query and the finalization gate agree. Off the canonical chain both are
idle; on it the ranges name the blocks the gate waits for, none are left exactly when
the target becomes the anchor, and answers for them, whatever their logs, let it pass. -/
theorem missingRanges_unblock_finalization {graph : BlocksGraph} (built : Built graph)
    (target : BlockHash) (base : HashMap PoolRef PoolState) (verified : HashSet PoolRef)
    (v4Manager : Option Address) :
    let ranges := graph.missingCompleteRangesTo target verified v4Manager ∅
    let offChain := ∀ path, RootedPath graph.connectedUp graph.observedHead path → target ∉ path
    (ranges = [] ↔
      offChain ∨ (graph.finalizedTo target base verified v4Manager).1.anchor.hash = target) ∧
    ∀ older newer : List BlockHash,
      RootedPath graph.connectedUp graph.observedHead (older ++ target :: newer).reverse →
      (∀ hash, hash ∈ ranges.flatMap (·.hashes) ↔
        hash ∈ older ++ [target] ∧ ∃ node, graph.nodes[hash]? = some (.connected node) ∧
          (∀ logs, node.data.logs ≠ .complete logs) ∧
          bloomMayTouch node.data.logsBloom
            (BloomPatterns.of (watchedAddresses verified v4Manager)) = true) ∧
      ∀ answers : List (BlockHash × List PoolLog),
        (∀ hash ∈ ranges.flatMap (·.hashes), hash ∈ answers.map (·.1)) →
        ((graph.withAllCompleteLogs answers).finalizedTo target base verified
          v4Manager).1.anchor.hash = target := by
  have wellFormed := built.wellFormed
  intro ranges offChain
  refine ⟨?_, ?_⟩
  · by_cases onChain : offChain
    · refine iff_of_true ?_ (.inl onChain)
      simp only [ranges, missingCompleteRangesTo]
      rw [canonicalConnectedTarget_eq_none wellFormed onChain]
    · obtain ⟨path, rooted, listed⟩ : ∃ path,
          RootedPath graph.connectedUp graph.observedHead path ∧ target ∈ path := by
        simpa [offChain] using onChain
      obtain ⟨newer, older, rfl⟩ := List.append_of_mem listed
      have canonical : RootedPath graph.connectedUp graph.observedHead
          (older.reverse ++ target :: newer.reverse).reverse := by simpa using rooted
      rw [or_iff_right onChain, finalizedTo_anchor_iff wellFormed canonical]
      simp only [ranges]
      rw [missingCompleteRangesTo_eq canonical, missingCompleteRanges_eq_nil,
        ← List.map_eq_nil_iff (f := (·.1)), List.eq_nil_iff_forall_not_mem]
      apply forall_congr'
      intro hash
      rw [mem_holesTo_iff_not_passable (rootedPath_target canonical), List.mem_reverse]
      tauto
  · intro older newer rooted
    refine ⟨?_, ?_⟩
    · intro hash
      rw [mem_missingCompleteRangesTo rooted]
      apply and_congr_right
      intro listed
      obtain ⟨node, found⟩ := connected_of_mem_path (rootedPath_target rooted)
        (List.mem_reverse.mpr listed)
      have present := (connected_eq_some _ _ _).mp found
      simp [Passable, present]
    · intro answers covering
      obtain ⟨up, head⟩ := graph.withAllCompleteLogs_views answers
      have completed : RootedPath (graph.withAllCompleteLogs answers).connectedUp
          (graph.withAllCompleteLogs answers).observedHead
          (older ++ target :: newer).reverse := by
        rw [up, head]
        exact rooted
      rw [finalizedTo_anchor_iff (wellFormed.withAllCompleteLogs answers) completed]
      intro hash listed
      by_cases passes : graph.Passable
          (BloomPatterns.of (watchedAddresses verified v4Manager)) hash
      · exact passes.withAllCompleteLogs answers
      · have answered := covering hash ((mem_missingCompleteRangesTo rooted _ _ _).mpr
          ⟨listed, passes⟩)
        have isConnected := (rootedPath_target rooted).isSome_of_mem (List.mem_reverse.mpr listed)
        exact passable_withAllCompleteLogs isConnected _ answered

end

theorem missingRanges_unblock_finalization_stalledSample :
    letI : BloomHash := BloomHash.tabulated
    ((stalledSample.withAllCompleteLogs [(0x11, [])]).finalizedTo 0x11 ∅
      (HashSet.collect [samplePool]) (poolManagerAddress .ethereum)).1.anchor.hash = 0x11 := by
  let _ : BloomHash := BloomHash.tabulated
  have built : Built stalledSample := (((Built.new 0x10 100).operate _).operate _).operate _
  have rooted : RootedPath stalledSample.connectedUp stalledSample.observedHead [0x11] := by
    have head : stalledSample.observedHead = 0x11 := by decide +kernel
    have attached : stalledSample.connectedUp 0x11 = some none := by decide +kernel
    rw [head]
    exact .root attached
  have ranges : (stalledSample.missingCompleteRangesTo 0x11 (HashSet.collect [samplePool])
      (poolManagerAddress .ethereum) ∅).map (·.hashes) = [[0x11]] := by decide +kernel
  obtain ⟨-, unblocked⟩ := (missingRanges_unblock_finalization built 0x11 ∅
    (HashSet.collect [samplePool]) (poolManagerAddress .ethereum)).2 [] [] rooted
  apply unblocked
  rw [List.flatMap_def, ranges]
  simp

/-- A watched block without logs on a side fork of the canonical chain. -/
def forkedSample : BlocksGraph :=
  letI : BloomHash := BloomHash.tabulated
  (((BlocksGraph.new 0x10 100).operate (.withBlockCapped 0x11 0x10 101 0 8)).operate
    (.withBlockCapped 0x21 0x10 101 (.ofBits [565, 531, 172]) 8)).operate (.withObservedHead 0x11)

/-- A hole below a target off the canonical chain is named by no range, and the
finalization stays where it is. -/
theorem side_fork_hole_is_not_requested :
    letI : BloomHash := BloomHash.tabulated
    let watched := BloomPatterns.of (watchedAddresses (HashSet.collect [samplePool])
      (poolManagerAddress .ethereum))
    Built forkedSample ∧ RootedPath forkedSample.connectedUp 0x21 [0x21] ∧
      ¬ forkedSample.Passable watched 0x21 ∧
      (forkedSample.missingCompleteRangesTo 0x21 (HashSet.collect [samplePool])
        (poolManagerAddress .ethereum) ∅).map (·.hashes) = [] ∧
      (forkedSample.finalizedTo 0x21 ∅ (HashSet.collect [samplePool])
        (poolManagerAddress .ethereum)).1.anchor.hash = 0x10 := by
  let _ : BloomHash := BloomHash.tabulated
  have attached : forkedSample.connectedUp 0x21 = some none := by decide +kernel
  have stopped : forkedSample.stopsAt (BloomPatterns.of (watchedAddresses
      (HashSet.collect [samplePool]) (poolManagerAddress .ethereum))) .requireComplete 0x21 =
      true := by decide +kernel
  have built : Built forkedSample := (((Built.new 0x10 100).operate _).operate _).operate _
  have stuck : ¬ forkedSample.Passable (BloomPatterns.of (watchedAddresses
      (HashSet.collect [samplePool]) (poolManagerAddress .ethereum))) 0x21 := by
    rw [passable_iff, stopped]
    decide
  exact ⟨built, .root attached, stuck, by decide +kernel, by decide +kernel⟩

end ArmchairAnalyst.BlocksGraph

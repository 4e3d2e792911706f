import ArmchairAnalyst.Library.KeyedMerge
import ArmchairAnalyst.Kernel.InvisibleFinalization

/-!
# The optimization read and what is stored

The read gathers the events of a whole path per pool and folds them once. It agrees
with the fold that goes block by block from the base.
-/

namespace ArmchairAnalyst

/-! ### Folding run after run -/

/-- The state after one run of events after another. -/
def deriveInTurn (base : Option PoolState) (runs : List (List PoolLogEvent)) :
    Option PoolState :=
  runs.foldl derivePoolState base

/-- No run overflows at the state the runs before it leave. -/
def NoOverflow : Option PoolState → List (List PoolLogEvent) → Prop
  | _, [] => True
  | base, run :: runs => foldEvents base run ≠ none ∧ NoOverflow (derivePoolState base run) runs

/-- Without an overflow the runs can be folded at once. -/
theorem foldEvents_flatten {base : Option PoolState} {runs : List (List PoolLogEvent)}
    (clean : NoOverflow base runs) :
    foldEvents base runs.flatten = some (deriveInTurn base runs) := by
  induction runs generalizing base with
  | nil => rfl
  | cons run runs inductionHypothesis =>
    obtain ⟨first, rest⟩ := clean
    obtain ⟨after, folded⟩ := Option.ne_none_iff_exists'.mp first
    have derived : derivePoolState base run = after := by simp [derivePoolState, folded]
    rw [derived] at rest
    rw [List.flatten_cons, foldEvents_append, folded, Option.bind_some, inductionHypothesis rest]
    simp only [deriveInTurn, List.foldl_cons, derived]

theorem eventsFor_flatMap (key : ProtocolPoolKey) (reads : BlockHash → List PoolLog)
    (hashes : List BlockHash) :
    eventsFor key (hashes.flatMap reads) =
      (hashes.map (fun hash => eventsFor key (reads hash))).flatten := by
  induction hashes with
  | nil => rfl
  | cons hash hashes inductionHypothesis =>
    rw [List.flatMap_cons, eventsFor_append, inductionHypothesis]
    rfl

/-- The merged state of a pool with a base or a registration is the end of its run. -/
theorem mergedState_of_folded {base : HashMap PoolRef PoolState} {verified : HashSet PoolRef}
    {logs : List PoolLog} {pool : PoolRef} (covered : pool ∈ base ∨ pool ∈ verified)
    {after : Option PoolState}
    (folded : foldEvents base[pool]? (eventsFor pool.key logs) = some after) :
    mergedState base verified logs pool = after := by
  by_cases tracked : pool ∈ verified
  · exact mergedState_eq_join tracked folded
  · have based := covered.resolve_right tracked
    obtain ⟨state, found⟩ := (HashMap.mem_iff_exists base pool).mp based
    rw [found] at folded
    obtain ⟨result, rfl⟩ := Option.isSome_iff_exists.mp (foldEvents_isSome folded)
    simp [mergedState, found, derivePoolState, folded]

namespace BlocksGraph

/-! ### Stored logs are filed under their index -/

/-- The logs of a block, whoever delivered them, are filed under their own index. -/
def LogsKeyed : BlockHash → BlockHash → BlockData → Prop :=
  fun _ _ data => ∀ logs, readableLogs data.logs .allowStreamed = some logs →
    Keyed PoolLog.logIndex logs

theorem keyed_keyByLogIndex (logs : List PoolLog) : Keyed PoolLog.logIndex (keyByLogIndex logs) :=
  keyed_keyedBy PoolLog.logIndex logs

theorem logsKeyed_completeWith (hash parent : BlockHash) (logs : List PoolLog)
    (data : BlockData) : LogsKeyed hash parent (completeWith logs data) := by
  intro stored read
  obtain rfl : keyByLogIndex logs = stored := by simpa [completeWith, readableLogs] using read
  exact keyed_keyByLogIndex logs

theorem LogsKeyed.streamInto {hash parent : BlockHash} {data : BlockData}
    (keyed : LogsKeyed hash parent data) (logs : List PoolLog) :
    LogsKeyed hash parent (streamInto logs data) := by
  intro stored read
  cases held : data.logs with
  | complete existing =>
    apply keyed
    simpa [BlocksGraph.streamInto, held] using read
  | streamed existing =>
    obtain rfl : existing ∪ keyByLogIndex logs = stored := by
      simpa [BlocksGraph.streamInto, held, readableLogs] using read
    apply Keyed.union _ (keyed_keyByLogIndex logs)
    exact keyed existing (by simp [held, readableLogs])
  | unknown =>
    obtain rfl : keyByLogIndex logs = stored := by
      simpa [BlocksGraph.streamInto, held, readableLogs] using read
    exact keyed_keyByLogIndex logs

theorem fromSeed_logsKeyed (anchor : BlockHash) (anchorNumber : UInt64)
    (blocks : List SeedBlock) : AllBlocks LogsKeyed (fromSeed anchor anchorNumber blocks) := by
  unfold fromSeed
  generalize start : BlocksGraph.new anchor anchorNumber = graph
  have all : AllBlocks LogsKeyed graph := start ▸ allBlocks_new anchor anchorNumber
  clear start
  induction blocks generalizing graph with
  | nil => exact all
  | cons block blocks inductionHypothesis =>
    apply inductionHypothesis
    apply all.withDataCapped
    intro _ _ _
    exact logsKeyed_completeWith _ _ block.logs ⟨block.number, none, .unknown⟩

theorem Built.logsKeyed [BloomHash] {graph : BlocksGraph} (built : Built graph) :
    AllBlocks LogsKeyed graph := by
  induction built with
  | new anchor anchorNumber => exact allBlocks_new anchor anchorNumber
  | fromSeed anchor anchorNumber blocks => exact fromSeed_logsKeyed _ _ _
  | operate operation built inductionHypothesis =>
    cases operation with
    | withBlockCapped hash parent number bloom maxPending =>
      apply inductionHypothesis.withDataCapped
      intro _ _ _ logs read
      simp [readableLogs] at read
    | withObservedHead hash => exact inductionHypothesis.withObservedHead hash
    | withStreamedLogs hash logs =>
      exact inductionHypothesis.modifyData (fun _ _ keyed => keyed.streamInto logs)
    | withCompleteLogs hash logs =>
      exact inductionHypothesis.modifyData (fun _ data _ => logsKeyed_completeWith _ _ logs data)
    | finalizedTo target base verified v4Manager =>
      exact inductionHypothesis.finalizedTo built.wellFormed _ _ _ _

/-- A block is read in the order of its log indices. -/
theorem Built.blockReads_pairwise [BloomHash] {graph : BlocksGraph} (built : Built graph)
    (hash : BlockHash) :
    (graph.blockReads .allowStreamed hash).Pairwise (fun log log' => log.logIndex < log'.logIndex) := by
  unfold blockReads
  split
  · rename_i node found
    have all := built.logsKeyed hash _ ((connected_eq_some _ _ _).mp found)
    unfold readLogs
    split
    · rename_i logs read
      apply (Keyed.pairwise_values (all logs read)).imp
      intro log log' before
      exact Std.compare_eq_lt.mp before
    · exact List.Pairwise.nil
  · exact List.Pairwise.nil

/-! ### The projected path -/

/-- A block without logs that a watched address may touch. -/
def Stalls (graph : BlocksGraph) (watched : BloomPatterns) (hash : BlockHash) : Prop :=
  ∃ node, graph.nodes[hash]? = some (.connected node) ∧ node.data.logs = .unknown ∧
    bloomMayTouch node.data.logsBloom watched = true

theorem stalls_iff {graph : BlocksGraph} {watched : BloomPatterns} {hash : BlockHash}
    (isConnected : (graph.connectedUp hash).isSome) :
    graph.Stalls watched hash ↔ graph.stopsAt watched .allowStreamed hash = true := by
  obtain ⟨node, present⟩ := (connectedUp_isSome graph hash).mp isConnected
  have found := (connected_eq_some graph hash node).mpr present
  simp only [Stalls, present, Option.some.injEq, Node.connected.injEq, exists_eq_left', stopsAt,
    found, blocksFold]
  cases node.data.logs <;> simp [readableLogs]

section

variable [BloomHash] {graph : BlocksGraph}

/-- The projected path is the chain up to the first block that stalls it. -/
theorem projectedPath_split {path : List BlockHash}
    (rooted : RootedPath graph.connectedUp graph.observedHead path) (verified : HashSet PoolRef)
    (v4Manager : Option Address) :
    let watched := BloomPatterns.of (watchedAddresses verified v4Manager)
    ∃ beyond, path.reverse = graph.projectedPath verified v4Manager ++ beyond ∧
      (∀ hash ∈ graph.projectedPath verified v4Manager, ¬ graph.Stalls watched hash) ∧
      ∀ hash ∈ beyond.head?, graph.Stalls watched hash := by
  intro watched
  have path_eq : graph.projectedPath verified v4Manager = path.reverse.takeWhile (fun hash =>
      !graph.stopsAt watched .allowStreamed hash) := by
    unfold projectedPath
    rw [canonicalOldestToNewest_eq rooted]
  have connects : ∀ hash ∈ path.reverse, (graph.connectedUp hash).isSome := by
    intro hash listed
    exact rooted.isSome_of_mem (List.mem_reverse.mp listed)
  rw [path_eq]
  refine ⟨path.reverse.dropWhile (fun hash => !graph.stopsAt watched .allowStreamed hash),
    List.takeWhile_append_dropWhile.symm, ?_, ?_⟩
  · intro hash passed stalls
    have passes := List.mem_takeWhile_imp passed
    have listed := (List.takeWhile_subset _) passed
    rw [(stalls_iff (connects hash listed)).mp stalls] at passes
    simp at passes
  · intro hash first
    have listed : hash ∈ path.reverse :=
      (List.dropWhile_subset _) (List.mem_of_mem_head? first)
    rw [stalls_iff (connects hash listed)]
    have stopped := List.head?_dropWhile_not
      (fun hash => !graph.stopsAt watched .allowStreamed hash) path.reverse
    rw [Option.mem_def.mp first] at stopped
    simpa using stopped

/-- The optimization read over every graph the operations build. Its frontier is the last
block before the first one without logs that may be touched, and it shows every pool of
the base and of the registry as folded block by block over the stored logs. -/
theorem projectedPoolStates_exact (built : Built graph) (base : HashMap PoolRef PoolState)
    (verified : HashSet PoolRef) (v4Manager : Option Address) :
    let watched := BloomPatterns.of (watchedAddresses verified v4Manager)
    let passed := graph.projectedPath verified v4Manager
    let projected := graph.projectedPoolStates base verified v4Manager
    let runs := fun pool : PoolRef =>
      passed.map (fun hash => eventsFor pool.key (graph.blockReads .allowStreamed hash))
    ((graph.connected graph.observedHead).isNone → passed = []) ∧
    (∀ path, RootedPath graph.connectedUp graph.observedHead path →
      ∃ beyond, path.reverse = passed ++ beyond ∧
        (∀ hash ∈ passed, ¬ graph.Stalls watched hash) ∧
        ∀ hash ∈ beyond.head?, graph.Stalls watched hash) ∧
    projected.2 = passed.getLastD graph.anchor.hash ∧
    (∀ hash, (graph.blockReads .allowStreamed hash).Pairwise
      (fun log log' => log.logIndex < log'.logIndex)) ∧
    (∀ pool : PoolRef, pool ∈ base ∨ pool ∈ verified → NoOverflow base[pool]? (runs pool) →
      (base ∪ projected.1)[pool]? = deriveInTurn base[pool]? (runs pool)) ∧
    ∀ pool : PoolRef, pool ∉ base → pool ∉ verified →
      pool ∉ projected.1 ∧ pool ∉ base ∪ projected.1 := by
  have wellFormed := built.wellFormed
  intro watched passed projected runs
  refine ⟨?_, ?_, ?_, built.blockReads_pairwise, ?_, ?_⟩
  · intro detached
    simp only [passed, projectedPath]
    rw [canonicalOldestToNewest_eq_nil (Option.isNone_iff_eq_none.mp detached)]
    rfl
  · intro path rooted
    exact projectedPath_split rooted verified v4Manager
  · exact projectedPoolStates_frontier wellFormed base verified v4Manager
  · intro pool covered clean
    simp only [projected]
    rw [getElem?_projectedView wellFormed]
    apply mergedState_of_folded covered
    rw [projectedLogs, eventsFor_flatMap]
    exact foldEvents_flatten clean
  · intro pool uncovered untracked
    have absent : base[pool]? = none := (HashMap.getElem?_eq_none_iff base pool).mpr uncovered
    have unseen : pool ∉ projected.1 := by
      rw [← HashMap.getElem?_eq_none_iff]
      simp only [projected]
      rw [getElem?_projectedOverlay wellFormed, absent]
      simp [untracked]
    refine ⟨unseen, ?_⟩
    rw [Std.ExtTreeMap.mem_union_iff]
    simp [uncovered, unseen]

end

/-- Two blocks with logs, and a head without that the pool may touch. -/
def mintSample : BlocksGraph :=
  letI : BloomHash := BloomHash.tabulated
  (((swapSample.operate (.withBlockCapped 0x12 0x11 102 (.ofBits [565, 531, 172]) 8)).operate
    (.withBlockCapped 0x13 0x12 103 (.ofBits [565, 531, 172]) 8)).operate
    (.withObservedHead 0x13)).operate (.withStreamedLogs 0x12 [⟨sampleKey, 0, sampleMint⟩])

theorem projectedPoolStates_exact_mintSample :
    letI : BloomHash := BloomHash.tabulated
    let projected := mintSample.projectedPoolStates ∅ (HashSet.collect [samplePool])
      (poolManagerAddress .ethereum)
    projected.2 = 0x12 ∧ ((∅ : HashMap PoolRef PoolState) ∪ projected.1)[samplePool]? =
      some { sampleState with liquidity := 10 } := by
  let _ : BloomHash := BloomHash.tabulated
  have swapped : Built swapSample := (((Built.new 0x10 100).operate _).operate _).operate _
  have built : Built mintSample := (((swapped.operate _).operate _).operate _).operate _
  obtain ⟨-, -, frontier, -, folded, -⟩ := projectedPoolStates_exact built ∅
    (HashSet.collect [samplePool]) (poolManagerAddress .ethereum)
  have passed : mintSample.projectedPath (HashSet.collect [samplePool])
      (poolManagerAddress .ethereum) = [0x11, 0x12] := by decide +kernel
  have runs : [0x11, 0x12].map (fun hash => eventsFor samplePool.key
      (mintSample.blockReads .allowStreamed hash)) = [[sampleSwap.event], [sampleMint]] := by
    decide +kernel
  refine ⟨by rw [frontier, passed]; rfl, ?_⟩
  rw [folded samplePool (.inr (by simp))]
  · beta_reduce
    rw [passed, runs]
    rfl
  · beta_reduce
    rw [passed, runs]
    exact ⟨Option.some_ne_none _, Option.some_ne_none _, trivial⟩

end BlocksGraph

end ArmchairAnalyst

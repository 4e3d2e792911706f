import ArmchairAnalyst.Kernel.RequestIds

/-!
# The miss counter

The kernel counts the authoritative log sets that differ from the streamed set they
replace. The counter grows by what a transition replaces, except that a
re-initialisation starts it anew.
-/

namespace ArmchairAnalyst

namespace BlocksGraph

/-- Authoritative logs for a present streamed block name other log indices than it holds. -/
def Diverges (graph : BlocksGraph) (hash : BlockHash) (logs : List PoolLog) : Prop :=
  ∃ node existing, graph.nodes[hash]? = some node ∧ node.data.logs = .streamed existing ∧
    ∃ index, ¬ (index ∈ existing ↔ ∃ log ∈ logs, log.logIndex = index)

theorem streamedLogMismatch_iff (graph : BlocksGraph) (hash : BlockHash) (logs : List PoolLog) :
    graph.streamedLogMismatch hash logs = true ↔ graph.Diverges hash logs := by
  have sets : ∀ existing : BTreeMap UInt64 PoolLog,
      HashSet.collect existing.keys ≠ HashSet.collect (logs.map (·.logIndex)) ↔
        ∃ index, ¬ (index ∈ existing ↔ ∃ log ∈ logs, log.logIndex = index) := by
    intro existing
    rw [← not_forall, not_iff_not]
    constructor
    · intro same index
      have member : index ∈ HashSet.collect existing.keys ↔
          index ∈ HashSet.collect (logs.map (·.logIndex)) := by rw [same]
      simpa [Std.ExtTreeMap.mem_keys] using member
    · intro same
      apply Std.ExtTreeSet.ext_mem
      intro index
      simpa [Std.ExtTreeMap.mem_keys] using same index
  unfold streamedLogMismatch Diverges
  cases found : graph.nodes[hash]? with
  | none => simp
  | some node =>
    cases stored : node.data.logs with
    | unknown => simp [stored]
    | complete logs => simp [stored]
    | streamed existing => simp [stored, sets]

instance (graph : BlocksGraph) (hash : BlockHash) (logs : List PoolLog) :
    Decidable (graph.Diverges hash logs) :=
  decidable_of_iff _ (graph.streamedLogMismatch_iff hash logs)

/-- The divergences of a list of replacements made in turn. -/
def divergences : BlocksGraph → List (BlockHash × List PoolLog) → Nat
  | _, [] => 0
  | graph, (hash, logs) :: rest =>
    (if graph.Diverges hash logs then 1 else 0) +
      divergences (graph.withCompleteLogs hash logs).1 rest

end BlocksGraph

namespace Kernel

/-- The authoritative log sets an event brings: the block an answer was asked for, every
block of a ranged answer, and with no logs every covered block that it leaves out. -/
def replacements (state : State) : Event → List (BlockHash × List PoolLog)
  | .blockLogsReceived requestId logs =>
    match (state.take .blockLogs requestId).2 with
    | some request => [(request.payload.blockHash, logs)]
    | none => []
  | .blockLogsRangeReceived requestId blocks =>
    match (state.take .logsRange requestId).2 with
    | some request =>
      blocks ++ (request.payload.covered.toList.filter (fun hash =>
        !(HashSet.collect (blocks.map (·.1))).contains hash)).map (fun hash => (hash, []))
    | none => []
  | _ => []

/-- The replacements of an event that differ from what was streamed. -/
def misses (state : State) (event : Event) : Nat :=
  state.blocks.graph.divergences (replacements state event)

/-! ### Counting while absorbing -/

theorem withLogComplete_wsMissCount (state : State) (hash : BlockHash) (logs : List PoolLog) :
    (state.withLogComplete hash logs).wsMissCount =
      state.wsMissCount + .ofNat (if state.blocks.graph.Diverges hash logs then 1 else 0) := by
  have flag := state.blocks.graph.streamedLogMismatch_iff hash logs
  simp only [State.withLogComplete, BlocksGraph.withCompleteLogs, State.mapGraph]
  by_cases differs : state.blocks.graph.Diverges hash logs
  · simp [differs, flag.mpr differs]
  · simp [differs, mt flag.mp differs]

theorem foldl_withLogComplete_wsMissCount (state : State)
    (blocks : List (BlockHash × List PoolLog)) :
    (blocks.foldl (fun state block => state.withLogComplete block.1 block.2) state).wsMissCount =
      state.wsMissCount + .ofNat (state.blocks.graph.divergences blocks) := by
  induction blocks generalizing state with
  | nil => simp [BlocksGraph.divergences]
  | cons block blocks inductionHypothesis =>
    rw [List.foldl_cons, inductionHypothesis, withLogComplete_wsMissCount,
      BlocksGraph.divergences, UInt64.ofNat_add, UInt64.add_assoc]
    rfl

theorem withLogsRange_wsMissCount (state : State) (covered : HashSet BlockHash)
    (blocks : List (BlockHash × List PoolLog)) :
    (state.withLogsRange covered blocks).wsMissCount =
      state.wsMissCount + .ofNat (state.blocks.graph.divergences
        (blocks ++ (covered.toList.filter (fun hash =>
          !(HashSet.collect (blocks.map (·.1))).contains hash)).map (fun hash => (hash, [])))) := by
  rw [← foldl_withLogComplete_wsMissCount, List.foldl_append, List.foldl_map]
  rfl

theorem withStreamedLogsDrained_wsMissCount (state : State) (hash : BlockHash) :
    (state.withStreamedLogsDrained hash).wsMissCount = state.wsMissCount := by
  unfold State.withStreamedLogsDrained
  split
  · rfl
  · split <;> rfl

theorem withFinalizedBlockObserved_wsMissCount [BloomHash] (chain : ChainKey) (state : State)
    (hash : BlockHash) :
    (state.withFinalizedBlockObserved chain hash).wsMissCount = state.wsMissCount := by
  unfold State.withFinalizedBlockObserved
  simp only
  split <;> rfl

theorem applied_wsMissCount {state : State} {kind : RequestKind} {id : UInt64}
    {apply_ : State → kind.Payload → State}
    (keeps : ∀ state payload, (apply_ state payload).wsMissCount = state.wsMissCount) :
    (applied state kind id apply_).wsMissCount = state.wsMissCount := by
  unfold applied
  have same : (state.take kind id).1.wsMissCount = state.wsMissCount := rfl
  split
  · rename_i result request taken
    rw [keeps, ← same, taken]
  · rename_i result taken
    rw [← same, taken]

/-- Absorbing an event counts the misses among its replacements. -/
theorem absorb_wsMissCount [BloomHash] (chain : ChainKey) (state : State) (event : Event) :
    (absorb chain state event).wsMissCount = state.wsMissCount + .ofNat (misses state event) := by
  have idle : ∀ {count}, count = state.wsMissCount → count = state.wsMissCount + .ofNat 0 := by
    rintro _ rfl
    exact (UInt64.add_zero _).symm
  cases event with
  | headObserved hash parent bloom number =>
    exact idle (withStreamedLogsDrained_wsMissCount _ hash)
  | finalizedBlockObserved hash number =>
    exact idle (withFinalizedBlockObserved_wsMissCount chain state hash)
  | blockHeaderReceived id hash parent bloom number =>
    exact idle (withStreamedLogsDrained_wsMissCount _ hash)
  | blockHeaderNotFound id => exact idle rfl
  | canonicalHeaderAtHeightReceived id hash number => exact idle rfl
  | blockLogsReceived id logs =>
    simp only [absorb, applied, misses, replacements]
    have same : (state.take .blockLogs id).1.wsMissCount = state.wsMissCount := rfl
    have graph : (state.take .blockLogs id).1.blocks = state.blocks := rfl
    generalize state.take .blockLogs id = result at same graph
    obtain ⟨taken, _ | request⟩ := result
    · exact idle same
    · rw [withLogComplete_wsMissCount, same, graph]
      rfl
  | blockLogsRangeReceived id blocks =>
    simp only [absorb, applied, misses, replacements]
    have same : (state.take .logsRange id).1.wsMissCount = state.wsMissCount := rfl
    have graph : (state.take .logsRange id).1.blocks = state.blocks := rfl
    generalize state.take .logsRange id = result at same graph
    obtain ⟨taken, _ | request⟩ := result
    · exact idle same
    · rw [withLogsRange_wsMissCount, same, graph]
  | logObserved hash logs =>
    refine idle ?_
    simp only [absorb, State.withStreamedLogsBuffered]
    split
    · rfl
    · split <;> rfl
  | poolMetadataReceived id metadata => exact idle (applied_wsMissCount (fun _ _ => rfl))
  | tokenMetadataReceived id metadata => exact idle (applied_wsMissCount (fun _ _ => rfl))
  | poolDataReceived id pools => exact idle (applied_wsMissCount (fun _ _ => rfl))
  | requestFailed id => exact idle rfl
  | tick order => exact idle rfl

/-! ### Counting over a run -/

theorem transition_wsMissCount [BloomHash] (chain : ChainKey) {state : State} {event : Event}
    (keeps : ¬ Reinitialises state event) :
    (transition chain state event).1.wsMissCount =
      state.wsMissCount + .ofNat (misses state event) := by
  rw [← absorb_wsMissCount chain, (transition_continues chain state event keeps).core]

/-- The kernel is only restarted while nothing has been counted. -/
def KeepsCount (state : State) (event : Event) : Prop :=
  Reinitialises state event → state.wsMissCount = 0

theorem transition_counts_iff [BloomHash] (chain : ChainKey) (state : State) (event : Event)
    (room : state.wsMissCount.toNat + misses state event < 2 ^ 64) :
    (transition chain state event).1.wsMissCount.toNat =
        state.wsMissCount.toNat + misses state event ↔
      KeepsCount state event := by
  by_cases restarts : Reinitialises state event
  · cases event with
    | canonicalHeaderAtHeightReceived id hash number =>
      have idle : misses state (.canonicalHeaderAtHeightReceived id hash number) = 0 := rfl
      rw [transition_reinitialises chain state id restarts, idle]
      have zero : (State.init hash number).wsMissCount.toNat = 0 := rfl
      rw [zero, Nat.add_zero, KeepsCount, forall_prop_of_true restarts, eq_comm,
        ← UInt64.toNat_inj]
      rfl
    | _ => exact restarts.elim
  · refine iff_of_true ?_ (fun again => absurd again restarts)
    rw [transition_wsMissCount chain restarts, UInt64.toNat_add, UInt64.toNat_ofNat',
      Nat.add_mod_mod, Nat.mod_eq_of_lt room]

theorem Starts.wsMissCount {start : State × List Effect} (starts : Starts start) :
    start.1.wsMissCount = 0 := by
  cases starts with
  | init hash number => rfl
  | activateFromSeed hash number snapshots pools tokens blocks =>
    have issues := activation_issues .ethereum hash number snapshots pools tokens blocks
    rw [issues.core]
    rfl

/-- The counter is the number of misses of the whole run at every point of it exactly
when no re-initialisation discards a count and the misses fit into it. -/
theorem wsMissCount_exact_iff [BloomHash] (chain : ChainKey) {start : State × List Effect}
    (starts : Starts start) (events : List Event) :
    (∀ taken, taken <+: events →
      (run (transition chain) start.1 taken).1.wsMissCount.toNat =
        countAlong (transition chain) misses start.1 taken) ↔
      AllowedAlong (transition chain) KeepsCount start.1 events ∧
        countAlong (transition chain) misses start.1 events < 2 ^ 64 := by
  have exact_iff := AllowedAlong.iff_counts (fun state : State => state.wsMissCount.toNat) misses
    (fun state => state.wsMissCount.toNat_lt) (transition_counts_iff chain) start.1 events
  simpa only [starts.wsMissCount, UInt64.toNat_zero, Nat.zero_add] using exact_iff

/-- A streamed block is corrected, and then an orphaned anchor is found out. -/
def discardedCount : List Event :=
  [.headObserved 0x11 0x10 (.ofBits [491, 1757, 668]) 101, .headObserved 0x12 0x11 0 102,
    .headObserved 0x13 0x12 0 103, .logObserved 0x11 [sampleSwap], .blockLogsReceived 1 [],
    .headObserved 0x21 0x20 0 101, .canonicalHeaderAtHeightReceived 4 0x99 100]

theorem wsMissCount_exact_iff_corrected :
    letI : BloomHash := BloomHash.tabulated
    (run (transition .ethereum) (State.init 0x10 100) (discardedCount.take 6)).1.wsMissCount.toNat =
      countAlong (transition .ethereum) misses (State.init 0x10 100) (discardedCount.take 6) := by
  have never : ∀ event ∈ discardedCount.take 6, ∀ state, KeepsCount state event := by
    intro event listed state restarts
    cases event with
    | canonicalHeaderAtHeightReceived id hash number => simp [discardedCount] at listed
    | _ => exact restarts.elim
  have few : countAlong (@transition BloomHash.tabulated .ethereum) misses (State.init 0x10 100)
      (discardedCount.take 6) < 2 ^ 64 := by decide +kernel
  have throughout := (@wsMissCount_exact_iff BloomHash.tabulated .ethereum _ (.init 0x10 100)
    (discardedCount.take 6)).mpr ⟨AllowedAlong.of_events never _, few⟩
  apply throughout
  exact List.prefix_rfl

/-- The re-initialisation forgets the one miss of the run. -/
theorem reinitialisation_discards_count :
    letI : BloomHash := BloomHash.tabulated
    let start := State.init 0x10 100
    Starts (start, []) ∧
      (run (transition .ethereum) start (discardedCount.take 6)).1.wsMissCount = 1 ∧
      countAlong (transition .ethereum) misses start discardedCount = 1 ∧
      (run (transition .ethereum) start discardedCount).1.wsMissCount = 0 := by
  let _ : BloomHash := BloomHash.tabulated
  exact ⟨.init 0x10 100, by decide +kernel, by decide +kernel, by decide +kernel⟩

end Kernel

end ArmchairAnalyst

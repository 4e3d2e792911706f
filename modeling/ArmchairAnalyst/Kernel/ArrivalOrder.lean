import ArmchairAnalyst.Kernel.StreamedLogs

/-!
# The order in which logs arrive

While the anchor stays and no authoritative answer names a block, the block ends with
the union of the batches brought for it, however these are interleaved with its own
admission and with the events of other blocks.
-/

namespace ArmchairAnalyst

namespace BlockLogs

/-- The logs a fold that trusts streamed ones reads. -/
def readable (logs : BlockLogs) : BTreeMap UInt64 PoolLog :=
  (readableLogs logs .allowStreamed).getD ∅

/-- Adds batches in turn. -/
def streamAll (logs : BlockLogs) (batches : List (List PoolLog)) : BlockLogs :=
  batches.foldl (fun logs batch => logs.stream batch) logs

theorem streamAll_streamed (existing : BTreeMap UInt64 PoolLog) (batches : List (List PoolLog)) :
    streamAll (.streamed existing) batches =
      .streamed (existing ∪ keyByLogIndex batches.flatten) := by
  induction batches generalizing existing with
  | nil =>
    simp only [streamAll, List.foldl_nil, List.flatten_nil]
    congr 1
    exact (HashMap.union_empty existing).symm
  | cons batch batches inductionHypothesis =>
    have step : streamAll (.streamed existing) (batch :: batches) =
        streamAll (.streamed (existing ∪ keyByLogIndex batch)) batches := rfl
    rw [step, inductionHypothesis, HashMap.union_assoc, List.flatten_cons, keyByLogIndex_eq,
      keyedBy_append]

theorem streamAll_unknown (batches : List (List PoolLog)) :
    streamAll .unknown batches =
      if batches = [] then .unknown else .streamed (keyByLogIndex batches.flatten) := by
  cases batches with
  | nil => rfl
  | cons batch batches =>
    have step : streamAll .unknown (batch :: batches) =
        streamAll (.streamed (keyByLogIndex batch)) batches := rfl
    rw [step, streamAll_streamed, if_neg (List.cons_ne_nil _ _), List.flatten_cons,
      keyByLogIndex_eq, keyedBy_append]

theorem readable_streamAll {logs : BlockLogs} (open_ : ∀ existing, logs ≠ .complete existing)
    (batches : List (List PoolLog)) :
    (logs.streamAll batches).readable = logs.readable ∪ keyByLogIndex batches.flatten := by
  cases logs with
  | complete existing => exact absurd rfl (open_ existing)
  | streamed existing =>
    rw [streamAll_streamed]
    rfl
  | unknown =>
    rw [streamAll_unknown]
    split
    · rename_i none_
      rw [none_]
      exact (HashMap.union_empty (∅ : BTreeMap UInt64 PoolLog)).symm
    · exact (HashMap.empty_union _).symm

/-- Batches that agree can be added in any order. -/
theorem streamAll_perm {logs : BlockLogs} (open_ : ∀ existing, logs ≠ .complete existing)
    {batches batches' : List (List PoolLog)} (same : batches.Perm batches')
    (agree : AgreeOn PoolLog.logIndex batches.flatten) :
    logs.streamAll batches = logs.streamAll batches' := by
  have keyed : keyByLogIndex batches.flatten = keyByLogIndex batches'.flatten :=
    keyedBy_congr agree (fun _ => same.flatten.mem_iff)
  cases logs with
  | complete existing => exact absurd rfl (open_ existing)
  | streamed existing => rw [streamAll_streamed, streamAll_streamed, keyed]
  | unknown =>
    rw [streamAll_unknown, streamAll_unknown, keyed]
    simp only [← List.length_eq_zero_iff, same.length_eq]

end BlockLogs

namespace Kernel

section

variable [BloomHash] {chain : ChainKey}

/-- The step keeps the anchor, brings no authoritative logs of the block, and finds room
for a batch of it. -/
structure Gathers (chain : ChainKey) (hash : BlockHash) (state : State) (event : Event) :
    Prop where
  anchored : (transition chain state event).1.blocks.graph.anchor.hash =
    state.blocks.graph.anchor.hash
  unanswered : ∀ logs, ¬ Performs state event (.complete hash logs)
  room : ∀ logs, event = .logObserved hash logs → hash ∈ state.blocks.graph.nodes ∨
    hash ∈ state.streamedLogs ∨ state.streamedLogs.size < maxStreamedLogBlocks

theorem Gathers.keeps {hash : BlockHash} {state : State} {event : Event}
    (gathers : Gathers chain hash state event) : ¬ Reinitialises state event := by
  intro restarts
  cases event with
  | canonicalHeaderAtHeightReceived id other number =>
    have anchored := gathers.anchored
    rw [transition_reinitialises chain state id restarts] at anchored
    exact restarts.2 anchored
  | _ => exact restarts

theorem transition_blocks {state : State} {event : Event} (keeps : ¬ Reinitialises state event) :
    (transition chain state event).1.blocks = (absorb chain state event).blocks := by
  rw [(transition_continues chain state event keeps).core]

/-- A gathering step adds the batch it brings and nothing else. -/
theorem absorb_heldLogs {state : State} (staging : Staging state) {hash : BlockHash}
    {event : Event} (gathers : Gathers chain hash state event) :
    (absorb chain state event).heldLogs hash =
      (state.heldLogs hash).streamAll (batchFor hash event).toList := by
  cases event with
  | headObserved other parent bloom number =>
    obtain ⟨graph, grows, same⟩ := withLogHeadObserved_grows state other parent number bloom
      (maxPendingBlocks chain)
    simp only [absorb, same]
    exact heldLogs_admitted staging other grows hash
  | blockHeaderReceived id other parent bloom number =>
    obtain ⟨graph, grows, same⟩ := withLogHeaderReceived_grows state other parent number bloom
      (maxPendingBlocks chain)
    simp only [absorb, same]
    exact heldLogs_admitted staging other grows hash
  | finalizedBlockObserved other number =>
    have anchored := gathers.anchored
    rw [transition_blocks gathers.keeps] at anchored
    simp only [absorb, State.withFinalizedBlockObserved] at anchored ⊢
    split at anchored <;> rename_i moves
    · exact absurd anchored moves
    · rw [if_neg moves]
      refine heldLogs_congr rfl ?_
      rcases state.blocks.graph.finalizedTo_moves other state.blocks.finalizedSnapshot
          (state.poolRegistry.verifiedPools chain) (poolManagerAddress chain) with same | moved
      · simp only [same]
      · exact absurd moved moves
  | logObserved other logs =>
    simp only [absorb, batchFor]
    by_cases same : other = hash
    · subst same
      rw [if_pos rfl]
      split
      · rename_i present
        rw [heldLogs_streamed present, if_pos rfl]
        rfl
      · rename_i absent
        exact heldLogs_buffered absent ((gathers.room logs rfl).resolve_left absent) logs
    · rw [if_neg same]
      split
      · rename_i present
        rw [heldLogs_streamed present, if_neg (fun equal => same equal.symm)]
        rfl
      · exact heldLogs_buffered_other (fun equal => same equal.symm) logs
  | _ =>
    apply heldLogs_congr
    · rw [absorb_streamedLogs (by exact id)]
    · exact absorb_storedLogs (by exact id) gathers.unanswered

theorem transition_heldLogs {state : State} (staging : Staging state) {hash : BlockHash}
    {event : Event} (gathers : Gathers chain hash state event) :
    (transition chain state event).1.heldLogs hash =
      (state.heldLogs hash).streamAll (batchFor hash event).toList := by
  rw [← absorb_heldLogs staging gathers,
    (transition_continues chain state event gathers.keeps).core]
  rfl

theorem run_heldLogs {state : State} (staging : Staging state) {hash : BlockHash}
    {events : List Event} (gathers : AllowedAlong (transition chain) (Gathers chain hash) state events) :
    (run (transition chain) state events).1.heldLogs hash =
      (state.heldLogs hash).streamAll (batchesFor hash events) := by
  induction events generalizing state with
  | nil => rfl
  | cons event events inductionHypothesis =>
    obtain ⟨now, later⟩ := gathers
    have step := transition_heldLogs staging now
    have rest := inductionHypothesis (staging.transition event) later
    have split : batchesFor hash (event :: events) =
        (batchFor hash event).toList ++ batchesFor hash events := by
      unfold batchesFor
      rw [List.filterMap_cons]
      cases batchFor hash event <;> rfl
    rw [run, rest, step, split]
    unfold BlockLogs.streamAll
    rw [List.foldl_append]

omit [BloomHash] in
theorem heldLogs_open {state : State} {hash : BlockHash}
    (absent : hash ∉ state.blocks.graph.nodes) :
    (∀ existing, state.heldLogs hash ≠ .complete existing) ∧
      (state.heldLogs hash).readable = state.streamedLogs[hash]?.getD ∅ := by
  rw [State.heldLogs, (BlocksGraph.storedLogs_eq_none _ _).mpr absent]
  cases state.streamedLogs[hash]? with
  | none => exact ⟨fun _ => by simp, rfl⟩
  | some logs => exact ⟨fun _ => by simp, rfl⟩

omit [BloomHash] in
theorem storedLogs_of_present {state : State} {hash : BlockHash}
    (present : hash ∈ state.blocks.graph.nodes) :
    state.blocks.graph.storedLogs hash = some (state.heldLogs hash) := by
  rw [State.heldLogs]
  cases stored : state.blocks.graph.storedLogs hash with
  | none => exact absurd present ((BlocksGraph.storedLogs_eq_none _ _).mp stored)
  | some logs => rfl

/-- No reachable state has logs staged for a present block, and runs that bring the same
agreeing batches for an absent block and admit it leave the same logs with it. -/
theorem arrival_order_irrelevant {state : State} (reached : Reached chain state) :
    (∀ hash ∈ state.streamedLogs, hash ∉ state.blocks.graph.nodes) ∧
    ∀ hash ∉ state.blocks.graph.nodes, ∀ events events',
      AllowedAlong (transition chain) (Gathers chain hash) state events →
      AllowedAlong (transition chain) (Gathers chain hash) state events' →
      (batchesFor hash events).Perm (batchesFor hash events') →
      AgreeOn PoolLog.logIndex (batchesFor hash events).flatten →
      hash ∈ (run (transition chain) state events).1.blocks.graph.nodes →
      hash ∈ (run (transition chain) state events').1.blocks.graph.nodes →
      ∃ logs, (run (transition chain) state events).1.blocks.graph.storedLogs hash = some logs ∧
        (run (transition chain) state events').1.blocks.graph.storedLogs hash = some logs ∧
        logs.readable = state.streamedLogs[hash]?.getD ∅ ∪
          keyByLogIndex (batchesFor hash events).flatten := by
  have staging := reached.staging
  refine ⟨staging.absent, ?_⟩
  intro hash absent events events' gathers gathers' same agree present present'
  obtain ⟨open_, buffered⟩ := heldLogs_open absent
  refine ⟨(state.heldLogs hash).streamAll (batchesFor hash events), ?_, ?_, ?_⟩
  · rw [storedLogs_of_present present, run_heldLogs staging gathers]
  · rw [storedLogs_of_present present', run_heldLogs staging gathers',
      BlockLogs.streamAll_perm open_ same agree]
  · rw [BlockLogs.readable_streamAll open_, buffered]

/-- An event that brings no authoritative logs gathers when the anchor stays and there is room. -/
theorem Gathers.of_feeds {hash : BlockHash} {state : State} {event : Event} (feeds : Feeds event)
    (anchored : (transition chain state event).1.blocks.graph.anchor.hash =
      state.blocks.graph.anchor.hash)
    (room : hash ∈ state.blocks.graph.nodes ∨ state.streamedLogs.size < maxStreamedLogBlocks) :
    Gathers chain hash state event where
  anchored := anchored
  unanswered := by
    intro logs performed
    cases performed <;> exact feeds
  room := by
    intro logs delivered
    exact room.imp id .inr

end

/-- A second log of the sample's block. -/
def laterSwap : PoolLog := { sampleSwap with logIndex := 1 }

/-- A batch on either side of the block's own head. -/
def batchesAround : List Event :=
  [.logObserved 0x11 [sampleSwap], .headObserved 0x11 0x10 0 101, .logObserved 0x11 [laterSwap]]

/-- The same batches after the head, in the other order. -/
def batchesAfter : List Event :=
  [.headObserved 0x11 0x10 0 101, .logObserved 0x11 [laterSwap], .logObserved 0x11 [sampleSwap]]

theorem batchesAround_gathers :
    letI : BloomHash := BloomHash.tabulated
    AllowedAlong (transition .ethereum) (Gathers .ethereum 0x11) (State.init 0x10 100)
      batchesAround := by
  let _ : BloomHash := BloomHash.tabulated
  refine ⟨.of_feeds trivial ?_ ?_, .of_feeds trivial ?_ ?_, .of_feeds trivial ?_ ?_, trivial⟩ <;>
    decide +kernel

theorem batchesAfter_gathers :
    letI : BloomHash := BloomHash.tabulated
    AllowedAlong (transition .ethereum) (Gathers .ethereum 0x11) (State.init 0x10 100)
      batchesAfter := by
  let _ : BloomHash := BloomHash.tabulated
  refine ⟨.of_feeds trivial ?_ ?_, .of_feeds trivial ?_ ?_, .of_feeds trivial ?_ ?_, trivial⟩ <;>
    decide +kernel

theorem sampleBatches_agree :
    AgreeOn PoolLog.logIndex (batchesFor 0x11 batchesAround).flatten := by
  unfold AgreeOn
  decide +kernel

theorem sampleBatches_perm :
    (batchesFor 0x11 batchesAround).Perm (batchesFor 0x11 batchesAfter) := by
  have around : batchesFor 0x11 batchesAround = [[sampleSwap], [laterSwap]] := by decide +kernel
  have after : batchesFor 0x11 batchesAfter = [[laterSwap], [sampleSwap]] := by decide +kernel
  rw [around, after]
  exact List.Perm.swap _ _ []

theorem arrival_order_irrelevant_sample :
    letI : BloomHash := BloomHash.tabulated
    ∃ logs,
      (run (transition .ethereum) (State.init 0x10 100)
        batchesAround).1.blocks.graph.storedLogs 0x11 = some logs ∧
      (run (transition .ethereum) (State.init 0x10 100)
        batchesAfter).1.blocks.graph.storedLogs 0x11 = some logs ∧
      logs.readable = (State.init 0x10 100).streamedLogs[(0x11 : BlockHash)]?.getD ∅ ∪
        keyByLogIndex (batchesFor 0x11 batchesAround).flatten := by
  have reached : @Reached BloomHash.tabulated .ethereum (State.init 0x10 100) :=
    .init ⟨[], .init 0x10 100⟩
  refine (@arrival_order_irrelevant BloomHash.tabulated _ _ reached).2 0x11 ?_ batchesAround
    batchesAfter batchesAround_gathers batchesAfter_gathers sampleBatches_perm
    sampleBatches_agree ?_ ?_
  all_goals decide +kernel

end Kernel

end ArmchairAnalyst

import ArmchairAnalyst.Library.ChunkedDrain
import ArmchairAnalyst.Kernel.SeedRequests

/-!
# Rounds of seed answers

A round answers every request for anchor states in flight. The kernel then drains its
verified pools in chunks, and pools whose reads always fail keep their places at the front.
-/

namespace ArmchairAnalyst.Kernel

open RequestStore (Covers Sequenced)

variable [BloomHash] {chain : ChainKey}

/-- The request an answer names, with what was read. -/
abbrev SeedAnswer := UInt64 × HashMap PoolRef PoolDataResult

def SeedAnswer.event (answer : SeedAnswer) : Event := .poolDataReceived answer.1 answer.2

/-- An answer reads exactly the requested pools but for the failing ones. -/
def ReadsAllBut (fails : PoolRef → Prop) (payload : GetPoolData)
    (results : HashMap PoolRef PoolDataResult) : Prop :=
  ∀ pool, reads results pool = true ↔ pool ∈ payload.pools ∧ ¬ fails pool

/-- Every seed request in flight is answered once. -/
structure AnswersRound (fails : PoolRef → Prop) (state : State) (answers : List SeedAnswer) :
    Prop where
  each : (answers.map Prod.fst).Perm (state.pendingRequests.collection .poolData).keys
  honest : ∀ answer ∈ answers, ∀ payload,
    state.pendingRequests.InFlight ⟨.poolData, answer.1, payload⟩ →
    ReadsAllBut fails payload answer.2

/-- Each list of answers is a round in the state the earlier ones lead to. -/
def SeedRounds (chain : ChainKey) (fails : PoolRef → Prop) : State → List (List SeedAnswer) → Prop
  | _, [] => True
  | state, answers :: rounds =>
    AnswersRound fails state answers ∧
      SeedRounds chain fails
        (run (transition chain) state (answers.map SeedAnswer.event)).1 rounds

/-- The events of the rounds in turn. -/
def roundEvents (rounds : List (List SeedAnswer)) : List Event :=
  rounds.flatten.map SeedAnswer.event

/-! ### Runs whose identifiers do not come round -/

/-- The run from a state ends before the identifiers come round. -/
def Unwrapped (chain : ChainKey) (state : State) (events : List Event) : Prop :=
  ∃ issued, Sequenced state.pendingRequests ∧
    state.pendingRequests.lastRequestId.toNat ≤ issued ∧
    issued + (run (transition chain) state events).2.length < 2 ^ 64

theorem Unwrapped.next {state : State} {event : Event} {events : List Event}
    (unwrapped : Unwrapped chain state (event :: events)) :
    Unwrapped chain (transition chain state event).1 events := by
  obtain ⟨issued, sequenced, last, bounded⟩ := unwrapped
  simp only [run, List.length_append] at bounded
  obtain ⟨sequenced', last'⟩ := transition_sequenced chain event sequenced last (by omega)
  exact ⟨_, sequenced', last', by omega⟩

theorem Unwrapped.append {state : State} {first second : List Event}
    (unwrapped : Unwrapped chain state (first ++ second)) :
    Unwrapped chain state first ∧ Unwrapped chain (run (transition chain) state first).1 second := by
  constructor
  · obtain ⟨issued, sequenced, last, bounded⟩ := unwrapped
    rw [run_append, List.length_append] at bounded
    exact ⟨issued, sequenced, last, by omega⟩
  · induction first generalizing state with
    | nil => exact unwrapped
    | cons event first inductionHypothesis => exact inductionHypothesis unwrapped.next

theorem Unwrapped.of_runFrom {start : State × List Effect} (starts : Starts start)
    {events later : List Event}
    (bounded : (runFrom chain start (events ++ later)).2.length < 2 ^ 64) :
    Unwrapped chain (runFrom chain start events).1 later := by
  simp only [runFrom, run_append, List.length_append] at bounded
  obtain ⟨sequenced, last⟩ := runFrom_sequenced chain starts events
    (by simp only [runFrom, List.length_append]; omega)
  refine ⟨_, sequenced, last, ?_⟩
  simp only [runFrom, List.length_append]
  omega

/-! ### The drain of a state -/

/-- The pools a seed request in flight asks for. -/
def batchOf (state : State) (id : UInt64) : Finset PoolRef :=
  match (state.pendingRequests.collection .poolData)[id]? with
  | some request => request.payload.pools.toList.toFinset
  | none => ∅

omit [BloomHash] in
theorem batchOf_inFlight {state : State} {id : UInt64} {payload : GetPoolData}
    (inFlight : state.pendingRequests.InFlight ⟨.poolData, id, payload⟩) :
    batchOf state id = payload.pools.toList.toFinset := by
  obtain ⟨tick, found⟩ := inFlight
  have lookup : (state.pendingRequests.collection .poolData)[id]? = some ⟨payload, tick⟩ := found
  simp only [batchOf, lookup]

omit [BloomHash] in
theorem mem_batchOf (state : State) (id : UInt64) (pool : PoolRef) :
    pool ∈ batchOf state id ↔
      ∃ payload, state.pendingRequests.InFlight ⟨.poolData, id, payload⟩ ∧
        pool ∈ payload.pools := by
  constructor
  · intro member
    unfold batchOf at member
    split at member
    · rename_i request found
      refine ⟨request.payload, ⟨request.dispatchedAt, found⟩, ?_⟩
      exact Std.ExtTreeSet.mem_toList.mp (List.mem_toFinset.mp member)
    · exact absurd member (Finset.notMem_empty _)
  · rintro ⟨payload, inFlight, named⟩
    rw [batchOf_inFlight inFlight]
    exact List.mem_toFinset.mpr (Std.ExtTreeSet.mem_toList.mpr named)

omit [BloomHash] in
/-- The pools some seed request in flight asks for, request by request. -/
theorem mem_pendingPools_iff {state : State} {ids : List UInt64}
    (all : ids.Perm (state.pendingRequests.collection .poolData).keys) (pool : PoolRef) :
    pool ∈ PendingRequests.pendingPoolDataPools state.pendingRequests ↔
      ∃ batch ∈ ids.map (batchOf state), pool ∈ batch := by
  rw [← covers_pool]
  constructor
  · intro covered
    obtain ⟨id, payload, inFlight, named⟩ := inFlight_of_covers covered
    obtain ⟨tick, found⟩ := inFlight
    have listed : id ∈ ids :=
      all.mem_iff.mpr (Std.ExtTreeMap.mem_keys.mpr ((HashMap.mem_iff_exists _ _).mpr ⟨_, found⟩))
    exact ⟨_, List.mem_map_of_mem listed, (mem_batchOf _ _ _).mpr ⟨payload, ⟨tick, found⟩, named⟩⟩
  · rintro ⟨batch, membership, member⟩
    obtain ⟨id, -, rfl⟩ := List.mem_map.mp membership
    obtain ⟨payload, inFlight, named⟩ := (mem_batchOf _ _ _).mp member
    exact ⟨_, inFlight, named⟩

/-- How many pools the drain takes at a time. -/
def seedChunk (chain : ChainKey) (state : State) : Nat :=
  if SeedsOpen chain state then finalizedPoolSeedChunk else 0

/-- A drain settles what the snapshot covers and holds what the requests in flight ask
for, the ones to be answered next first. -/
structure Drains (fails : PoolRef → Prop) (state : State) (answers : List SeedAnswer)
    (drain : Drain PoolRef) : Prop where
  settled : ∀ pool, pool ∈ drain.settled ↔ pool ∈ state.blocks.finalizedSnapshot
  waiting : drain.waiting = answers.map (fun answer => batchOf state answer.1)
  fresh : ∃ ids, drain.fresh = ids.map (batchOf state) ∧
    (answers.map Prod.fst ++ ids).Perm (state.pendingRequests.collection .poolData).keys
  honest : ∀ answer ∈ answers, ∀ payload,
    state.pendingRequests.InFlight ⟨.poolData, answer.1, payload⟩ →
    ReadsAllBut fails payload answer.2

variable {fails : PoolRef → Prop} [DecidablePred fails]

omit [BloomHash] [DecidablePred fails] in
theorem Drains.held {state : State} {answers : List SeedAnswer} {drain : Drain PoolRef}
    (drains : Drains fails state answers drain) (pool : PoolRef) :
    pool ∈ drain.held ↔
      pool ∈ PendingRequests.pendingPoolDataPools state.pendingRequests := by
  obtain ⟨ids, fresh, all⟩ := drains.fresh
  rw [mem_pendingPools_iff all, Drain.mem_held, drains.waiting, fresh, List.map_append,
    List.map_map]
  rfl

omit [BloomHash] [DecidablePred fails] in
/-- The drain takes the pools the kernel asks for. -/
theorem Drains.next_eq (chain : ChainKey) {state : State} {answers : List SeedAnswer} {drain : Drain PoolRef}
    (drains : Drains fails state answers drain) :
    drain.next (state.poolRegistry.verifiedPools chain).toList finalizedPoolSeedChunk =
      uncoveredPools chain state := by
  unfold Drain.next Drain.free uncoveredPools
  congr 1
  apply List.filter_congr
  intro pool _
  rw [Bool.eq_iff_iff, decide_eq_true_eq, Bool.and_eq_true, Bool.not_eq_true', Bool.not_eq_true',
    ← Bool.not_eq_true, ← Bool.not_eq_true, Std.ExtTreeMap.contains_iff_mem,
    Std.ExtTreeSet.contains_iff_mem, drains.settled, drains.held]

/-! ### One answer -/

omit [BloomHash] in
/-- The requests next to an answered one keep their pools. -/
theorem batchOf_congr {state state' : State} {ids : List UInt64}
    (same : ∀ id ∈ ids, (state'.pendingRequests.collection .poolData)[id]? =
      (state.pendingRequests.collection .poolData)[id]?) :
    ids.map (batchOf state') = ids.map (batchOf state) := by
  apply List.map_congr_left
  intro id listed
  simp only [batchOf, same id listed]

omit [BloomHash] in
theorem seedsApplied_collection (state : State) (id : UInt64) (payload : GetPoolData)
    (results : HashMap PoolRef PoolDataResult) :
    (seedsApplied state id payload results).pendingRequests.collection .poolData =
      (state.pendingRequests.collection .poolData).erase id := by
  simp [seedsApplied, State.withFinalizedPoolSeeds, State.take, RequestStore.takeRequest]

omit [BloomHash] in
/-- Absorbing an answer settles its batch. -/
theorem Drains.settle {state : State} {answer : SeedAnswer} {answers : List SeedAnswer}
    {drain : Drain PoolRef} (drains : Drains fails state (answer :: answers) drain)
    {payload : GetPoolData}
    (inFlight : state.pendingRequests.InFlight ⟨.poolData, answer.1, payload⟩)
    (current : payload.at_ = state.blocks.graph.anchor.hash) :
    Drains fails (seedsApplied state answer.1 payload answer.2) answers
      (drain.settle fails (batchOf state answer.1)
        (answers.map (fun answer => batchOf state answer.1))) := by
  obtain ⟨ids, fresh, all⟩ := drains.fresh
  have present : answer.1 ∈ state.pendingRequests.collection .poolData := by
    obtain ⟨tick, found⟩ := inFlight
    exact (HashMap.mem_iff_exists _ _).mpr ⟨_, found⟩
  have rest : (answers.map Prod.fst ++ ids).Perm
      ((state.pendingRequests.collection .poolData).erase answer.1).keys :=
    (all.trans (HashMap.keys_erase_perm present)).cons_inv
  have kept : ∀ id ∈ answers.map Prod.fst ++ ids,
      ((seedsApplied state answer.1 payload answer.2).pendingRequests.collection .poolData)[id]? =
        (state.pendingRequests.collection .poolData)[id]? := by
    intro id listed
    have other : id ≠ answer.1 := by
      have listed' := Std.ExtTreeMap.mem_keys.mp (rest.mem_iff.mp listed)
      rintro rfl
      exact absurd listed' (by simp)
    rw [seedsApplied_collection, HashMap.getElem?_erase, if_neg other]
  have same := batchOf_congr kept
  rw [List.map_append, List.map_append, List.map_map, List.map_map] at same
  obtain ⟨waits, forms⟩ := List.append_inj same (by simp)
  refine ⟨?_, waits.symm, ⟨ids, ?_, ?_⟩, ?_⟩
  · intro pool
    have honest := drains.honest answer List.mem_cons_self payload inFlight pool
    rw [Drain.mem_settle, drains.settled, mem_seedsApplied current, honest,
      batchOf_inFlight inFlight, List.mem_toFinset, Std.ExtTreeSet.mem_toList]
  · exact fresh.trans forms.symm
  · rw [seedsApplied_collection]
    exact rest
  · intro other membership payload' waiting
    have listed : other.1 ∈ answers.map Prod.fst ++ ids :=
      List.mem_append_left _ (List.mem_map_of_mem membership)
    obtain ⟨tick, found⟩ := waiting
    exact drains.honest other (List.mem_cons_of_mem _ membership) payload'
      ⟨tick, (kept other.1 listed).symm.trans found⟩

omit [BloomHash] [DecidablePred fails] in
/-- A state that differs in other requests has the same drain. -/
theorem Drains.congr {state state' : State} {answers : List SeedAnswer} {drain : Drain PoolRef}
    (drains : Drains fails state answers drain)
    (snapshot : state'.blocks.finalizedSnapshot = state.blocks.finalizedSnapshot)
    (untouched : state'.pendingRequests.collection .poolData =
      state.pendingRequests.collection .poolData) : Drains fails state' answers drain := by
  have batches : batchOf state' = batchOf state := by
    funext id
    simp only [batchOf, untouched]
  refine ⟨?_, ?_, ?_, ?_⟩
  · rw [snapshot]
    exact drains.settled
  · rw [batches]
    exact drains.waiting
  · rw [batches, untouched]
    exact drains.fresh
  · rintro answer membership payload ⟨tick, found⟩
    have found' : (state'.pendingRequests.collection .poolData)[answer.1]? =
      some ⟨payload, tick⟩ := found
    rw [untouched] at found'
    exact drains.honest answer membership payload ⟨tick, found'⟩

omit [BloomHash] [DecidablePred fails] in
/-- A request under an unused identifier becomes a fresh batch. -/
theorem Drains.form {state state' : State} {answers : List SeedAnswer} {drain : Drain PoolRef}
    (drains : Drains fails state answers drain)
    (snapshot : state'.blocks.finalizedSnapshot = state.blocks.finalizedSnapshot) {id : UInt64}
    (unused : id ∉ state.pendingRequests.collection .poolData) {payload : GetPoolData} {tick : Tick}
    (filed : state'.pendingRequests.collection .poolData =
      (state.pendingRequests.collection .poolData).insert id ⟨payload, tick⟩) :
    Drains fails state' answers
      { drain with fresh := payload.pools.toList.toFinset :: drain.fresh } := by
  obtain ⟨ids, fresh, all⟩ := drains.fresh
  have kept : ∀ other ∈ answers.map Prod.fst ++ ids,
      (state'.pendingRequests.collection .poolData)[other]? =
        (state.pendingRequests.collection .poolData)[other]? := by
    intro other listed
    have distinct : other ≠ id := by
      rintro rfl
      exact unused (Std.ExtTreeMap.mem_keys.mp (all.mem_iff.mp listed))
    rw [filed, HashMap.getElem?_insert, if_neg distinct]
  have same := batchOf_congr kept
  rw [List.map_append, List.map_append, List.map_map, List.map_map] at same
  obtain ⟨waits, forms⟩ := List.append_inj same (by simp)
  have formed : batchOf state' id = payload.pools.toList.toFinset := by
    apply batchOf_inFlight
    refine ⟨tick, ?_⟩
    have found : (state'.pendingRequests.collection .poolData)[id]? = some ⟨payload, tick⟩ := by
      rw [filed, HashMap.getElem?_insert, if_pos rfl]
    exact found
  refine ⟨?_, drains.waiting.trans waits.symm, ⟨id :: ids, ?_, ?_⟩, ?_⟩
  · rw [snapshot]
    exact drains.settled
  · rw [List.map_cons, formed, forms, fresh]
  · rw [filed]
    have middle : (answers.map Prod.fst ++ id :: ids).Perm
        (id :: (answers.map Prod.fst ++ ids)) := List.perm_middle
    exact (middle.trans (all.cons id)).trans (HashMap.keys_insert_perm unused _).symm
  · rintro answer membership payload' ⟨tick', found⟩
    have listed : answer.1 ∈ answers.map Prod.fst ++ ids :=
      List.mem_append_left _ (List.mem_map_of_mem membership)
    exact drains.honest answer membership payload' ⟨tick', (kept answer.1 listed).symm.trans found⟩

/-- The seed stage stays let through or held back while seeds are answered. -/
theorem seedsOpen_schedule (state : State) :
    SeedsOpen chain (scheduleUnknownCanonicalRequests chain (state, [])).1 ↔
      SeedsOpen chain state := by
  have issues := issues_schedule chain (state, [])
  have holes : logHoles chain (scheduleUnknownCanonicalRequests chain (state, [])).1 =
      logHoles chain state := by
    unfold logHoles
    rw [issues.blocks, issues.poolRegistry]
  have seeds : Issues (fun kind _ => kind = .poolData) (scheduleBeforeSeeds chain (state, []))
      (scheduleUnknownCanonicalRequests chain (state, [])) := by
    rw [schedule_eq_seeds]
    unfold scheduleFinalizedPoolSeedRequests
    split
    · exact Issues.refl _
    · simp only
      split
      · exact Issues.refl _
      · exact Issues.request _ .poolData _ rfl
  have backfill : PendingRequests.hasPendingBlockBackfill
      (scheduleUnknownCanonicalRequests chain (state, [])).1.pendingRequests =
      PendingRequests.hasPendingBlockBackfill
        (scheduleBeforeSeeds chain (state, [])).1.pendingRequests := by
    apply noBackfill_congr
    intro kind fetches
    apply seeds.untouched
    rintro payload rfl
    exact absurd fetches (by decide)
  constructor
  · rintro ⟨idle, -, -⟩
    exact (noBackfill_beforeSeeds chain state).mp (backfill ▸ idle)
  · intro opened
    refine ⟨?_, ?_, ?_⟩
    · rw [backfill]
      exact (noBackfill_beforeSeeds chain state).mpr opened
    · rw [issues.blocks]
      exact opened.2.1
    · rw [holes]
      exact opened.2.2

/-- The transition of an answer takes the drain one answer further. -/
theorem Drains.answered {state : State} (reached : Reached chain state) {answer : SeedAnswer}
    {answers : List SeedAnswer} {drain : Drain PoolRef}
    (drains : Drains fails state (answer :: answers) drain)
    (unwrapped : Unwrapped chain state [answer.event]) :
    Drains fails (transition chain state answer.event).1 answers
        ((drain.settle fails (batchOf state answer.1)
          (answers.map (fun answer => batchOf state answer.1))).refill
            (state.poolRegistry.verifiedPools chain).toList (seedChunk chain state)) ∧
      (transition chain state answer.event).1.poolRegistry = state.poolRegistry ∧
      seedChunk chain (transition chain state answer.event).1 = seedChunk chain state := by
  obtain ⟨ids, -, all⟩ := drains.fresh
  have listed : answer.1 ∈ (state.pendingRequests.collection .poolData).keys :=
    all.mem_iff.mp (by simp)
  obtain ⟨request, found⟩ := (HashMap.mem_iff_exists _ _).mp (Std.ExtTreeMap.mem_keys.mp listed)
  have inFlight : state.pendingRequests.InFlight ⟨.poolData, answer.1, request.payload⟩ :=
    ⟨request.dispatchedAt, found⟩
  have current := (reached.seedsChunked _ inFlight).1
  have settled := drains.settle inFlight current
  have handled := transition_poolDataReceived chain inFlight answer.2
  have evolves := (transition_continues chain state answer.event (fun restarts => restarts)).evolves
  obtain ⟨issued, sequenced, last, bounded⟩ := unwrapped
  simp only [run, List.append_nil] at bounded
  rw [SeedAnswer.event] at evolves bounded ⊢
  rw [handled] at evolves bounded ⊢
  have opened := seedsOpen_seedsApplied chain state answer.1 request.payload answer.2
  have issues := issues_schedule chain
    (seedsApplied state answer.1 request.payload answer.2, [])
  have snapshot : (scheduleUnknownCanonicalRequests chain
      (seedsApplied state answer.1 request.payload answer.2, [])).1.blocks.finalizedSnapshot =
      (seedsApplied state answer.1 request.payload answer.2).blocks.finalizedSnapshot := by
    rw [issues.blocks]
  have next := settled.next_eq chain
  have registry : (seedsApplied state answer.1 request.payload answer.2).poolRegistry =
      state.poolRegistry := rfl
  rw [registry] at next
  refine ⟨?_, issues.poolRegistry, ?_⟩
  · by_cases asked : SeedsOpen chain (seedsApplied state answer.1 request.payload answer.2) ∧
        uncoveredPools chain (seedsApplied state answer.1 request.payload answer.2) ≠ []
    · obtain ⟨earlier, id, effects, -, filed⟩ := schedule_seeds_asked asked.1 asked.2
      have chunk : seedChunk chain state = finalizedPoolSeedChunk := if_pos (opened.mp asked.1)
      have unused : id ∉ (seedsApplied state answer.1 request.payload
          answer.2).pendingRequests.collection .poolData := by
        rw [seedsApplied_collection]
        intro used
        obtain ⟨pending, foundId⟩ := (HashMap.mem_iff_exists _ _).mp
          (Std.ExtTreeMap.mem_of_mem_erase used)
        have below := sequenced ⟨.poolData, id, pending.payload⟩ ⟨pending.dispatchedAt, foundId⟩
        have after : id ∈ RequestStore.idsAfter state.pendingRequests.lastRequestId
            (scheduleUnknownCanonicalRequests chain
              (seedsApplied state answer.1 request.payload answer.2, [])).2.length := by
          rw [← evolves.ids, effects]
          simp
        have above := (RequestStore.toNat_of_mem_idsAfter (by omega) after).1
        simp only at below
        omega
      have formed := settled.form snapshot unused filed
      rw [chunk, Drain.refill, next, if_neg asked.2]
      have batch : (seedRequest chain
          (seedsApplied state answer.1 request.payload answer.2)).pools.toList.toFinset =
          (uncoveredPools chain
            (seedsApplied state answer.1 request.payload answer.2)).toFinset := by
        ext pool
        simp [seedRequest]
      rw [batch] at formed
      exact formed
    · obtain ⟨-, untouched⟩ := schedule_seeds_idle asked
      have kept := settled.congr snapshot untouched
      have nothing : (drain.settle fails (batchOf state answer.1)
          (answers.map (fun answer => batchOf state answer.1))).next
            (state.poolRegistry.verifiedPools chain).toList (seedChunk chain state) = [] := by
        rw [not_and_or, not_not] at asked
        rcases asked with closed | covered
        · have chunk : seedChunk chain state = 0 := if_neg (fun isOpen => closed (opened.mpr isOpen))
          rw [chunk, Drain.next, List.take_zero]
        · unfold seedChunk
          split
          · rw [next, covered]
          · rw [Drain.next, List.take_zero]
      rw [Drain.refill, if_pos nothing]
      exact kept
  · unfold seedChunk
    simp only [seedsOpen_schedule, opened]

/-! ### A round and a number of rounds -/

/-- The answers of a round take the drain to the end of its round. -/
theorem Drains.finished {state : State} (reached : Reached chain state)
    {answers : List SeedAnswer} {drain : Drain PoolRef}
    (drains : Drains fails state answers drain)
    (unwrapped : Unwrapped chain state (answers.map SeedAnswer.event)) :
    Drains fails (run (transition chain) state (answers.map SeedAnswer.event)).1 []
        (drain.finish (state.poolRegistry.verifiedPools chain).toList fails
          (seedChunk chain state)) ∧
      Reached chain (run (transition chain) state (answers.map SeedAnswer.event)).1 ∧
      (run (transition chain) state (answers.map SeedAnswer.event)).1.poolRegistry =
        state.poolRegistry ∧
      seedChunk chain (run (transition chain) state (answers.map SeedAnswer.event)).1 =
        seedChunk chain state := by
  induction answers generalizing state drain with
  | nil =>
    rw [Drain.finish_nil drains.waiting]
    exact ⟨drains, reached, rfl, rfl⟩
  | cons answer answers inductionHypothesis =>
    have whole : Unwrapped chain state ([answer.event] ++ answers.map SeedAnswer.event) := unwrapped
    have first := whole.append.1
    obtain ⟨next, registry, chunk⟩ := drains.answered reached first
    obtain ⟨last, reached', registry', chunk'⟩ :=
      inductionHypothesis (.step reached trivial) next unwrapped.next
    rw [registry, chunk] at last
    rw [Drain.finish_cons drains.waiting]
    exact ⟨last, reached', registry'.trans registry, chunk'.trans chunk⟩

omit [BloomHash] [DecidablePred fails] in
/-- At the start of a round the batches held wait in the order of the answers. -/
theorem Drains.await {state : State} {drain : Drain PoolRef}
    (drains : Drains fails state [] drain) {answers : List SeedAnswer}
    (answered : AnswersRound fails state answers) :
    Drains fails state answers
        (drain.await (answers.map (fun answer => batchOf state answer.1))) ∧
      (answers.map (fun answer => batchOf state answer.1)).Perm (drain.waiting ++ drain.fresh) := by
  constructor
  · refine ⟨drains.settled, rfl, ⟨[], rfl, ?_⟩, answered.honest⟩
    rw [List.append_nil]
    exact answered.each
  · obtain ⟨ids, fresh, all⟩ := drains.fresh
    rw [drains.waiting, fresh, List.map_nil, List.nil_append]
    have same := (answered.each.trans all.symm).map (batchOf state)
    rw [List.map_map] at same
    exact same

/-- The rounds of the kernel are rounds of the drain. -/
theorem Drains.rounds {state : State} (reached : Reached chain state) {drain : Drain PoolRef}
    (drains : Drains fails state [] drain) {rounds : List (List SeedAnswer)}
    (answered : SeedRounds chain fails state rounds)
    (unwrapped : Unwrapped chain state (roundEvents rounds)) :
    ∃ last, Drain.Rounds (state.poolRegistry.verifiedPools chain).toList fails
        (seedChunk chain state) rounds.length drain last ∧
      Drains fails (run (transition chain) state (roundEvents rounds)).1 [] last := by
  induction rounds generalizing state drain with
  | nil => exact ⟨drain, .done drain, drains⟩
  | cons answers rounds inductionHypothesis =>
    have split : roundEvents (answers :: rounds) =
        answers.map SeedAnswer.event ++ roundEvents rounds := by
      simp [roundEvents]
    rw [split] at unwrapped ⊢
    obtain ⟨awaiting, order⟩ := drains.await answered.1
    obtain ⟨finished, reached', registry, chunk⟩ :=
      awaiting.finished reached unwrapped.append.1
    obtain ⟨last, rest, final⟩ := inductionHypothesis reached' finished answered.2
      unwrapped.append.2
    rw [registry, chunk] at rest
    rw [run_append]
    exact ⟨last, .round order rest, final⟩

/-- The drain in which a state stands. -/
def drainOf (state : State) : Drain PoolRef where
  settled := state.blocks.finalizedSnapshot.keys.toFinset
  waiting := []
  fresh := (state.pendingRequests.collection .poolData).keys.map (batchOf state)

omit [BloomHash] [DecidablePred fails] in
variable (fails) in
theorem drains_drainOf (state : State) : Drains fails state [] (drainOf state) where
  settled pool := by simp [drainOf, Std.ExtTreeMap.mem_keys]
  waiting := rfl
  fresh := ⟨_, rfl, .refl _⟩
  honest := by simp

/-- The failing pools without a state that are listed before a pool. -/
def failingBefore (chain : ChainKey) (fails : PoolRef → Prop) [DecidablePred fails] (state : State)
    (pool : PoolRef) : List PoolRef :=
  ((state.poolRegistry.verifiedPools chain).toList.takeWhile (fun other => other ≠ pool)).filter
    (fun other => fails other ∧ other ∉ state.blocks.finalizedSnapshot)

/-- A pool has a state, is being read, or is not held up by the failing pools before it:
they do not fill the requests in flight, and the seed stage is let through. -/
def Seedable (chain : ChainKey) (fails : PoolRef → Prop) [DecidablePred fails] (state : State)
    (pool : PoolRef) : Prop :=
  pool ∈ state.blocks.finalizedSnapshot ∨
    pool ∈ PendingRequests.pendingPoolDataPools state.pendingRequests ∨
    SeedsOpen chain state ∧ (failingBefore chain fails state pool).length <
      finalizedPoolSeedChunk * (state.pendingRequests.collection .poolData).size

instance (state : State) (pool : PoolRef) : Decidable (Seedable chain fails state pool) :=
  inferInstanceAs (Decidable (_ ∨ _ ∨ _ ∧ _))

/-- What a pool needs of the state is what it needs of the drain. -/
theorem seedable_iff (state : State) (pool : PoolRef) :
    Seedable chain fails state pool ↔
      pool ∈ (drainOf state).settled ∨ pool ∈ (drainOf state).held ∨
        (Drain.failingAhead (state.poolRegistry.verifiedPools chain).toList fails
            (drainOf state).settled pool).length <
          seedChunk chain state * ((drainOf state).waiting ++ (drainOf state).fresh).length := by
  have drains := drains_drainOf fails state
  have ahead : Drain.failingAhead (state.poolRegistry.verifiedPools chain).toList fails
      (drainOf state).settled pool = failingBefore chain fails state pool := by
    apply List.filter_congr
    intro other _
    simp only [drains.settled]
  have batches : ((drainOf state).waiting ++ (drainOf state).fresh).length =
      (state.pendingRequests.collection .poolData).size := by
    simp [drainOf]
  rw [drains.settled, drains.held, ahead, batches, Seedable]
  unfold seedChunk
  by_cases opened : SeedsOpen chain state
  · rw [if_pos opened, and_iff_right opened]
  · simp [opened]

/-- After any rounds only seedable pools have a state. -/
theorem seedable_of_seeded {state : State} (reached : Reached chain state)
    {rounds : List (List SeedAnswer)} (answered : SeedRounds chain fails state rounds)
    (unwrapped : Unwrapped chain state (roundEvents rounds)) {pool : PoolRef}
    (seeded : pool ∈
      (run (transition chain) state (roundEvents rounds)).1.blocks.finalizedSnapshot) :
    Seedable chain fails state pool := by
  obtain ⟨last, drained, final⟩ :=
    (drains_drainOf fails state).rounds reached answered unwrapped
  have distinct := HashSet.nodup_toList (state.poolRegistry.verifiedPools chain)
  rw [← final.settled] at seeded
  rw [seedable_iff]
  by_contra starving
  rw [not_or, not_or, Nat.not_lt] at starving
  refine drained.starves distinct ⟨starving.1, starving.2.1, ?_, starving.2.2⟩ seeded
  unfold seedChunk
  split
  · right
    intro batch membership
    obtain ⟨id, present, rfl⟩ := List.mem_map.mp membership
    obtain ⟨request, found⟩ :=
      (HashMap.mem_iff_exists _ _).mp (Std.ExtTreeMap.mem_keys.mp present)
    have inFlight : state.pendingRequests.InFlight ⟨.poolData, id, request.payload⟩ :=
      ⟨request.dispatchedAt, found⟩
    rw [batchOf_inFlight inFlight]
    exact (List.toFinset_card_le _).trans (reached.seedsChunked _ inFlight).2
  · exact .inl rfl

/-- After enough rounds a pool whose reads succeed has a state exactly when the failing
pools before it leave room for it. -/
theorem seeded_after_rounds_iff {state : State} (reached : Reached chain state)
    {rounds : List (List SeedAnswer)} (answered : SeedRounds chain fails state rounds)
    (unwrapped : Unwrapped chain state (roundEvents rounds))
    (enough : 2 * (state.poolRegistry.verifiedPools chain).toList.length ≤ rounds.length)
    {pool : PoolRef} (verified : pool ∈ state.poolRegistry.verifiedPools chain)
    (works : ¬ fails pool) :
    pool ∈ (run (transition chain) state (roundEvents rounds)).1.blocks.finalizedSnapshot ↔
      Seedable chain fails state pool := by
  refine ⟨seedable_of_seeded reached answered unwrapped, ?_⟩
  intro seedable
  obtain ⟨last, drained, final⟩ :=
    (drains_drainOf fails state).rounds reached answered unwrapped
  have few : (Drain.unsettled (state.poolRegistry.verifiedPools chain).toList fails
      (drainOf state).settled).card ≤ (state.poolRegistry.verifiedPools chain).toList.length :=
    (Finset.card_filter_le _ _).trans (List.toFinset_card_le _)
  rw [← final.settled]
  exact drained.settles (HashSet.nodup_toList _) (Std.ExtTreeSet.mem_toList.mpr verified) works
    (by omega) ((seedable_iff state pool).mp seedable)

/-- No read that failed is asked for again by the transition that takes it. -/
def NotRequestedAgain (chain : ChainKey) (state : State) (id : UInt64) (payload : GetPoolData)
    (results : HashMap PoolRef PoolDataResult) : Prop :=
  ∀ pool ∈ payload.pools, reads results pool = false →
    ¬ ∃ request ∈ (transition chain state (.poolDataReceived id results)).2,
      Names request.kind request.requestPayload (.pool pool)

/-- From any reached state, after enough rounds every verified pool whose reads succeed has a state exactly when the failing pools leave room for each
of them, and a failed read is not requested again at once exactly when the seed stage is
held back or the pool is not among the first ones left over. -/
theorem seed_reads_settle_iff (chain : ChainKey) {start : State × List Effect}
    (starts : Starts start) (events : List Event) (fails : PoolRef → Prop)
    [DecidablePred fails] :
    (∀ rounds, SeedRounds chain fails (runFrom chain start events).1 rounds →
      (runFrom chain start (events ++ roundEvents rounds)).2.length < 2 ^ 64 →
      2 * ((runFrom chain start events).1.poolRegistry.verifiedPools chain).toList.length ≤
        rounds.length →
      ((∀ pool ∈ (runFrom chain start events).1.poolRegistry.verifiedPools chain, ¬ fails pool →
          pool ∈ (runFrom chain start (events ++ roundEvents rounds)).1.blocks.finalizedSnapshot) ↔
        ∀ pool ∈ (runFrom chain start events).1.poolRegistry.verifiedPools chain, ¬ fails pool →
          Seedable chain fails (runFrom chain start events).1 pool)) ∧
    ∀ id payload results,
      (runFrom chain start events).1.pendingRequests.InFlight ⟨.poolData, id, payload⟩ →
      (NotRequestedAgain chain (runFrom chain start events).1 id payload results ↔
        (SeedsOpen chain (runFrom chain start events).1 → ∀ pool ∈ payload.pools,
          reads results pool = false →
          pool ∉ (leftUncovered chain (runFrom chain start events).1 id results).take
            finalizedPoolSeedChunk)) := by
  have reached : Reached chain (runFrom chain start events).1 := .of_runFrom starts events
  constructor
  · intro rounds answered bounded enough
    have unwrapped := Unwrapped.of_runFrom starts bounded
    have final : (runFrom chain start (events ++ roundEvents rounds)).1 =
        (run (transition chain) (runFrom chain start events).1 (roundEvents rounds)).1 := by
      simp only [runFrom, run_append]
    rw [final]
    apply forall_congr'
    intro pool
    apply imp_congr_right
    intro verified
    apply imp_congr_right
    exact fun works => seeded_after_rounds_iff reached answered unwrapped enough verified works
  · intro id payload results inFlight
    unfold NotRequestedAgain
    constructor
    · intro never opened pool requested failed again
      apply never pool requested failed
      exact (requested_again_iff reached inFlight results pool).mpr ⟨opened, again⟩
    · intro passed pool requested failed again
      obtain ⟨opened, first⟩ := (requested_again_iff reached inFlight results pool).mp again
      exact passed opened pool requested failed first

/-! ### Registries with failing pools -/

def listedPool (index : Nat) : PoolRef where
  key := .uniswapV3 (BitVec.ofNat 160 index)
  chain := .ethereum

/-- A number of verified pools, listed by their index. -/
def listedRegistry (count : Nat) : TrustedPoolRegistry where
  verified := (List.range count).foldl (fun verified index =>
    verified.insert (listedPool index) ⟨0xa, 0xb, .tiered .fee500⟩) ∅
  rejected := ∅

def listedStart (count : Nat) : State × List Effect :=
  State.activateFromSeed 0x10 100 ∅ (listedRegistry count) .new []

/-- One head has been observed on the anchor, and the first chunk is asked for under
identifier 1. -/
def listedState (count : Nat) : State :=
  letI : BloomHash := BloomHash.tabulated
  (runFrom .ethereum (listedStart count) [.headObserved 0x11 0x10 0 101]).1

/-- The request in flight in a listed state. -/
def listedRequest (count : Nat) : GetPoolData where
  at_ := 0x10
  pools := HashSet.collect ((List.range count).map listedPool)

omit [BloomHash] in
theorem listed_inFlight : (listedState 1).pendingRequests.InFlight
    ⟨.poolData, 1, listedRequest 1⟩ := ⟨Tick.initial, by rfl⟩

def readOf (pool : PoolRef) : HashMap PoolRef PoolDataResult :=
  (∅ : HashMap PoolRef PoolDataResult).insert pool (.ok sampleState)

omit [BloomHash] in
theorem reads_readOf (pool other : PoolRef) : reads (readOf pool) other = true ↔ other = pool := by
  rw [reads_iff, readOf, HashMap.getElem?_insert]
  by_cases same : other = pool <;> simp [same]

omit [BloomHash] [DecidablePred fails] in
theorem AnswersRound.single {state : State} {id : UInt64} {payload : GetPoolData}
    {results : HashMap PoolRef PoolDataResult}
    (keys : (state.pendingRequests.collection .poolData).keys = [id])
    (inFlight : state.pendingRequests.InFlight ⟨.poolData, id, payload⟩)
    (honest : ReadsAllBut fails payload results) : AnswersRound fails state [(id, results)] where
  each := keys ▸ .refl _
  honest := by
    intro answer membership payload' inFlight'
    obtain rfl := List.mem_singleton.mp membership
    obtain rfl := RequestStore.inFlight_functional inFlight' inFlight
    exact honest

/-- The first of two pools cannot be read, and is asked for again in every round. -/
def besideRounds : List (List SeedAnswer) :=
  [[(1, readOf (listedPool 1))], [(2, ∅)], [(3, ∅)], [(4, ∅)]]

omit [BloomHash] in
theorem besideRounds_answered :
    letI : BloomHash := BloomHash.tabulated
    SeedRounds .ethereum (fun pool => pool = listedPool 0) (listedState 2) besideRounds := by
  let _ : BloomHash := BloomHash.tabulated
  have unread : ReadsAllBut (fun pool => pool = listedPool 0) (listedRequest 1) ∅ := by
    intro pool
    simp [reads_iff, listedRequest]
  have read : ReadsAllBut (fun pool => pool = listedPool 0) (listedRequest 2)
      (readOf (listedPool 1)) := by
    intro pool
    have different : listedPool 1 ≠ listedPool 0 := by decide
    have asked : pool ∈ (listedRequest 2).pools ↔ pool = listedPool 0 ∨ pool = listedPool 1 := by
      simp [listedRequest, List.range_succ]
    rw [reads_readOf, asked]
    grind
  refine ⟨.single (by rfl) ⟨Tick.initial, by rfl⟩ read, ?_⟩
  refine ⟨.single (by decide +kernel) ⟨Tick.initial, by rfl⟩ unread, ?_⟩
  refine ⟨.single (by decide +kernel) ⟨Tick.initial, by rfl⟩ unread, ?_⟩
  exact ⟨.single (by decide +kernel) ⟨Tick.initial, by rfl⟩ unread, trivial⟩

omit [BloomHash] in
/-- The pool beside the failing one has a state after the rounds, and the failed read is asked
for again by the transition that takes it. -/
theorem seed_reads_settle_iff_beside :
    letI : BloomHash := BloomHash.tabulated
    listedPool 1 ∈ (runFrom .ethereum (listedStart 2) ([.headObserved 0x11 0x10 0 101] ++
        roundEvents besideRounds)).1.blocks.finalizedSnapshot ∧
      ¬ NotRequestedAgain .ethereum (listedState 2) 1 (listedRequest 2)
        (readOf (listedPool 1)) := by
  let _ : BloomHash := BloomHash.tabulated
  have settles := @seed_reads_settle_iff BloomHash.tabulated .ethereum _
    (.activateFromSeed 0x10 100 ∅ (listedRegistry 2) .new []) [.headObserved 0x11 0x10 0 101]
    (fun pool => pool = listedPool 0) _
  constructor
  · refine (settles.1 _ besideRounds_answered (by decide +kernel) (by decide +kernel)).mpr ?_
      (listedPool 1) (by decide +kernel) (by decide +kernel)
    intro pool verified _
    have asked : ∀ pool ∈ ((listedState 2).poolRegistry.verifiedPools .ethereum).toList,
        pool ∈ PendingRequests.pendingPoolDataPools (listedState 2).pendingRequests := by
      decide +kernel
    exact .inr (.inl (asked pool (Std.ExtTreeSet.mem_toList.mpr verified)))
  · intro never
    have inFlight : (listedState 2).pendingRequests.InFlight ⟨.poolData, 1, listedRequest 2⟩ :=
      ⟨Tick.initial, by rfl⟩
    have passed := (settles.2 1 (listedRequest 2) (readOf (listedPool 1)) inFlight).mp never
    exact passed (by decide +kernel) (listedPool 0) (by decide +kernel) (by decide +kernel)
      (by decide +kernel)

omit [BloomHash] in
theorem listed_reached (count : Nat) :
    letI : BloomHash := BloomHash.tabulated
    Reached .ethereum (listedState count) := by
  let _ : BloomHash := BloomHash.tabulated
  exact Reached.of_runFrom (.activateFromSeed 0x10 100 ∅ (listedRegistry count) .new []) _

omit [BloomHash] in
/-- A hundred failing pools fill the one request in flight. -/
theorem last_listed_blocked :
    letI : BloomHash := BloomHash.tabulated
    ¬ Seedable .ethereum (fun pool => pool ≠ listedPool 100) (listedState 101)
      (listedPool 100) := by
  decide +kernel

omit [BloomHash] in
/-- A failed read is asked for again by the transition that takes it, and a hundred pools
whose reads fail keep the pool after them from ever being seeded. -/
theorem failing_reads_spin_and_starve :
    letI : BloomHash := BloomHash.tabulated
    (listedPool 0 ∈ (listedRequest 1).pools ∧
      (listedState 1).pendingRequests.InFlight ⟨.poolData, 1, listedRequest 1⟩ ∧
      ∃ request ∈ (transition .ethereum (listedState 1) (.poolDataReceived 1 ∅)).2,
        Names request.kind request.requestPayload (.pool (listedPool 0))) ∧
    listedPool 100 ∈ (listedState 101).poolRegistry.verifiedPools .ethereum ∧
    PendingRequests.hasPendingBlockBackfill (listedState 101).pendingRequests = false ∧
    ∀ rounds, SeedRounds .ethereum (fun pool => pool ≠ listedPool 100) (listedState 101) rounds →
      Unwrapped .ethereum (listedState 101) (roundEvents rounds) →
      listedPool 100 ∉ (run (transition .ethereum) (listedState 101)
        (roundEvents rounds)).1.blocks.finalizedSnapshot := by
  let _ : BloomHash := BloomHash.tabulated
  refine ⟨⟨by decide +kernel, listed_inFlight, ?_⟩, by decide +kernel, by decide +kernel, ?_⟩
  · apply (requested_again_iff (listed_reached 1) listed_inFlight _ _).mpr
    decide +kernel
  · intro rounds answered unwrapped seeded
    exact last_listed_blocked (seedable_of_seeded (listed_reached 101) answered unwrapped seeded)

end ArmchairAnalyst.Kernel

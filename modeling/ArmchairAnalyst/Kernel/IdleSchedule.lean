import ArmchairAnalyst.Kernel.ScheduledWork

/-!
# When the scheduling chain has nothing to do

The chain issues no request exactly when everything the present chain lacks is in
flight and the seed stage is held back or finds every pool covered.
-/

namespace ArmchairAnalyst.Kernel

open RequestStore (Covers)

/-- A loop whose rounds leave a state alone leaves it alone. -/
theorem foldl_idle {S Item : Type} {round : S → Item → S} {state : S} {items : List Item}
    (idle : ∀ item ∈ items, round state item = state) : items.foldl round state = state := by
  induction items with
  | nil => rfl
  | cons item items inductionHypothesis =>
    rw [List.foldl_cons, idle item List.mem_cons_self]
    exact inductionHypothesis (fun other membership => idle other (List.mem_cons_of_mem _ membership))

/-- A step that appends no effect to none issued nothing, so its targets were in flight. -/
theorem Asks.idle {output output' : State × List Effect} {wanted : Target → Prop}
    (asks : Asks output output' wanted) (before : output.2 = []) (after : output'.2 = []) :
    output' = output ∧
      ∀ target, wanted target → Covers Names output.1.pendingRequests target := by
  obtain ⟨core, payloads, store, count, named⟩ := asks
  rw [before, after, List.length_nil, Nat.zero_add, eq_comm, List.length_eq_zero_iff] at count
  rw [count] at store
  constructor
  · apply Prod.ext
    · have kept : output'.1.pendingRequests = output.1.pendingRequests := store
      rw [core, kept]
    · rw [before, after]
  · intro target wants
    rcases named target wants with covered | ⟨entry, membership, -⟩
    · exact covered
    · rw [count] at membership
      exact absurd membership List.not_mem_nil

/-- The chain only appends effects. -/
theorem Asks.length_le {output output' : State × List Effect} {wanted : Target → Prop}
    (asks : Asks output output' wanted) : output.2.length ≤ output'.2.length := by
  obtain ⟨-, payloads, -, count, -⟩ := asks
  rw [count]
  exact Nat.le_add_right _ _

theorem Asks.effects_nil {output output' : State × List Effect} {wanted : Target → Prop}
    (asks : Asks output output' wanted) (after : output'.2 = []) : output.2 = [] := by
  have fewer := asks.length_le
  rw [after] at fewer
  exact List.length_eq_zero_iff.mp (Nat.le_zero.mp fewer)

/-! ### Stages without work -/

theorem missingHeaders_idle {output : State × List Effect}
    (covered : ∀ hash ∈ output.1.blocks.graph.missingParents,
      Covers Names output.1.pendingRequests (.header hash)) :
    scheduleMissingHeaderRequests output = output := by
  apply foldl_idle
  intro hash missing
  exact if_pos ((covers_header _ _).mp (covered hash missing))

theorem unknownLogs_idle [BloomHash] {chain : ChainKey} {output : State × List Effect}
    (covered : ∀ hash ∈ logHoles chain output.1,
      Covers Names output.1.pendingRequests (.logs hash)) :
    scheduleUnknownCanonicalLogRequests chain output = output := by
  have none_ : output.1.blocks.graph.unknownLogHoleHashes
      (trustedAddresses chain output.1.poolRegistry)
      (PendingRequests.pendingBlockLogHashes output.1.pendingRequests) streamSettleDepth = [] := by
    rw [List.eq_nil_iff_forall_not_mem]
    intro hash listed
    obtain ⟨hole, unasked⟩ := (BlocksGraph.mem_unknownLogHoleHashes _ _ _ _ _).mp listed
    exact unasked ((covers_logs _ _).mp (covered hash hole))
  unfold scheduleUnknownCanonicalLogRequests
  simp only [none_, List.foldl_nil]

theorem requestUnseen_idle {Item : Type} [Ord Item] [Std.TransOrd Item] [Std.LawfulEqOrd Item]
    [DecidableEq Item] {kind : RequestKind} {payload : BlockHash → HashSet Item → kind.Payload}
    {wanted : State → HashSet ProtocolPoolKey → List Item}
    {pass : (State × List Effect) × HashSet Item} {block : BlockHash × HashSet ProtocolPoolKey}
    (seen : ∀ item ∈ wanted pass.1.1 block.2, item ∈ pass.2) :
    requestUnseen kind payload wanted pass block = pass := by
  apply if_pos
  rw [Std.ExtTreeSet.isEmpty_iff, Std.ExtTreeSet.eq_empty_iff_forall_not_mem]
  intro item listed
  obtain ⟨wants, fresh⟩ := (mem_unseen _ _ _).mp listed
  exact fresh (seen item wants)

theorem poolMetadata_idle {chain : ChainKey} {output : State × List Effect}
    {blocks : List (BlockHash × HashSet ProtocolPoolKey)}
    (covered : ∀ block ∈ blocks, ∀ key ∈ unknownCandidates chain output.1 block.2,
      Covers Names output.1.pendingRequests (.candidate key)) :
    scheduleUnknownCanonicalPoolMetadataRequests chain blocks output = output := by
  unfold scheduleUnknownCanonicalPoolMetadataRequests
  rw [requestPoolCandidates_eq, foldl_idle]
  intro block membership
  exact requestUnseen_idle (fun key unknown =>
    (covers_candidate _ _).mp (covered block membership key unknown))

theorem tokenMetadata_idle {chain : ChainKey} {output : State × List Effect}
    {blocks : List (BlockHash × HashSet ProtocolPoolKey)}
    (covered : ∀ block ∈ blocks, ∀ token ∈ unknownCandidateTokens chain output.1 block.2,
      Covers Names output.1.pendingRequests (.token token)) :
    scheduleUnknownCanonicalTokenMetadataRequests chain blocks output = output := by
  unfold scheduleUnknownCanonicalTokenMetadataRequests
  rw [requestCandidateTokens_eq, foldl_idle]
  intro block membership
  exact requestUnseen_idle (fun token unknown =>
    (covers_token _ _).mp (covered block membership token unknown))

theorem beforeSeeds_idle [BloomHash] {chain : ChainKey} {output : State × List Effect}
    (covered : ∀ target, WantedWork chain output.1 target →
      Covers Names output.1.pendingRequests target) :
    scheduleBeforeSeeds chain output = output := by
  have headers : scheduleMissingHeaderRequests output = output :=
    missingHeaders_idle (fun hash missing => covered (.header hash) missing)
  have logs : scheduleUnknownCanonicalLogRequests chain output = output :=
    unknownLogs_idle (fun hash hole => covered (.logs hash) hole)
  have pools : scheduleUnknownCanonicalPoolMetadataRequests chain
      output.1.blocks.graph.poolLogCandidatesFromHead output = output := by
    apply poolMetadata_idle
    intro block membership key unknown
    obtain ⟨named, unknown⟩ := List.mem_filter.mp unknown
    exact covered (.candidate key) ⟨block, membership, Std.ExtTreeSet.mem_toList.mp named,
      by simpa using unknown⟩
  have tokens : scheduleUnknownCanonicalTokenMetadataRequests chain
      output.1.blocks.graph.poolLogCandidatesFromHead output = output := by
    apply tokenMetadata_idle
    intro block membership token unknown
    obtain ⟨named, unknown⟩ := List.mem_filter.mp unknown
    exact covered (.token token) ⟨block, membership, named, by simpa using unknown⟩
  simp only [scheduleBeforeSeeds, headers, logs, pools, tokens]

/-- Every verified pool has a state or is being read, unless the seed stage is held back. -/
def SeedsAsked (chain : ChainKey) (state : State) : Prop :=
  PendingRequests.hasPendingBlockBackfill state.pendingRequests = true ∨
    ∀ pool ∈ state.poolRegistry.verifiedPools chain, pool ∈ state.blocks.finalizedSnapshot ∨
      ∃ id payload, state.pendingRequests.InFlight ⟨.poolData, id, payload⟩ ∧ pool ∈ payload.pools

theorem uncoveredPools_eq_nil (chain : ChainKey) (state : State) :
    uncoveredPools chain state = [] ↔
      ∀ pool ∈ state.poolRegistry.verifiedPools chain, pool ∈ state.blocks.finalizedSnapshot ∨
        ∃ id payload, state.pendingRequests.InFlight ⟨.poolData, id, payload⟩ ∧
          pool ∈ payload.pools := by
  have pending : ∀ pool, pool ∈ PendingRequests.pendingPoolDataPools state.pendingRequests ↔
      ∃ id payload, state.pendingRequests.InFlight ⟨.poolData, id, payload⟩ ∧
        pool ∈ payload.pools := by
    intro pool
    rw [← covers_pool]
    constructor
    · exact inFlight_of_covers
    · rintro ⟨id, payload, inFlight, named⟩
      exact ⟨_, inFlight, named⟩
  have chunk : finalizedPoolSeedChunk ≠ 0 := by decide
  rw [uncoveredPools, List.take_eq_nil_iff, or_iff_right chunk, List.filter_eq_nil_iff]
  apply forall_congr'
  intro pool
  rw [Std.ExtTreeSet.mem_toList, ← pending]
  apply imp_congr_right
  intro verified
  rw [Bool.and_eq_true, Bool.not_eq_true', Bool.not_eq_true', not_and, Bool.not_eq_false,
    Std.ExtTreeSet.contains_iff_mem, ← Bool.not_eq_true, Std.ExtTreeMap.contains_iff_mem,
    ← or_iff_not_imp_left]

theorem poolSeeds_idle {chain : ChainKey} {output : State × List Effect}
    (asked : SeedsAsked chain output.1) :
    scheduleFinalizedPoolSeedRequests chain output = output := by
  unfold scheduleFinalizedPoolSeedRequests
  rcases asked with backfilling | covered
  · exact if_pos backfilling
  · split
    · rfl
    · have nothing := (uncoveredPools_eq_nil chain output.1).mpr covered
      simp only [nothing, List.isEmpty_nil, if_true]

theorem seedsAsked_of_idle {chain : ChainKey} {state : State}
    (idle : (scheduleFinalizedPoolSeedRequests chain (state, [])).2 = []) :
    SeedsAsked chain state := by
  cases backfilling : PendingRequests.hasPendingBlockBackfill state.pendingRequests with
  | true => exact .inl backfilling
  | false =>
    right
    rw [← uncoveredPools_eq_nil, List.eq_nil_iff_forall_not_mem]
    intro pool uncovered
    have covered := ((asks_poolSeeds chain (state, [])).idle rfl idle).2 (.pool pool)
      ⟨backfilling, pool, uncovered, rfl⟩
    exact not_mem_pendingPools uncovered ((covers_pool _ _).mp covered)

theorem schedule_idle_iff [BloomHash] (chain : ChainKey) (state : State) :
    scheduleUnknownCanonicalRequests chain (state, []) = (state, []) ↔
      (∀ target, WantedWork chain state target → Covers Names state.pendingRequests target) ∧
        SeedsAsked chain state := by
  rw [schedule_eq_seeds]
  constructor
  · intro idle
    have silent : (scheduleFinalizedPoolSeedRequests chain
        (scheduleBeforeSeeds chain (state, []))).2 = [] := by rw [idle]
    have early := (asks_poolSeeds chain _).effects_nil silent
    obtain ⟨same, covered⟩ := (asks_beforeSeeds chain (state, [])).idle rfl early
    rw [same] at silent
    exact ⟨covered, seedsAsked_of_idle silent⟩
  · rintro ⟨covered, asked⟩
    have early : scheduleBeforeSeeds chain (state, []) = (state, []) := beforeSeeds_idle covered
    rw [early]
    exact poolSeeds_idle asked

theorem CompleteWork.covers [BloomHash] {chain : ChainKey} {state : State}
    (complete : CompleteWork chain state) (target : Target)
    (wants : WantedWork chain state target) : Covers Names state.pendingRequests target := by
  cases target with
  | header hash =>
    obtain ⟨id, inFlight⟩ := complete.headers hash wants
    exact ⟨_, inFlight, rfl⟩
  | logs hash =>
    obtain ⟨id, inFlight⟩ := complete.logs hash wants
    exact ⟨_, inFlight, rfl⟩
  | candidate key =>
    obtain ⟨block, membership, named, unknown⟩ := wants
    rcases complete.candidates block membership key named with known | ⟨id, payload, inFlight, asks⟩
    · rw [unknown] at known
      exact absurd known (by decide)
    · exact ⟨_, inFlight, asks⟩
  | token token =>
    obtain ⟨block, membership, named, unknown⟩ := wants
    rcases complete.tokens block membership token named with known | ⟨id, payload, inFlight, asks⟩
    · rw [unknown] at known
      exact absurd known (by decide)
    · exact ⟨_, inFlight, asks⟩
  | pool pool => exact wants.elim

/-- Everything a delivered head would make the kernel ask for is in flight or known. -/
structure NothingToAsk [BloomHash] (chain : ChainKey) (state : State) (hash : BlockHash)
    (number : UInt64) : Prop where
  complete : CompleteWork chain state
  seeded : SeedsAsked chain state
  calm : orphanSuspected state hash number = false

/-- The scheduling chain with the orphan probe does nothing exactly when there is nothing
to ask for. -/
theorem fullArm_idle_iff [BloomHash] (chain : ChainKey) (state : State) (hash : BlockHash)
    (number : UInt64) :
    withFinalityProbeIfOrphanSuspected hash number
        (scheduleUnknownCanonicalRequests chain (state, [])) = (state, []) ↔
      NothingToAsk chain state hash number := by
  constructor
  · intro idle
    have silent : (withFinalityProbeIfOrphanSuspected hash number
        (scheduleUnknownCanonicalRequests chain (state, []))).2 = [] := by rw [idle]
    have early := (asks_probe hash number _).effects_nil silent
    obtain ⟨same, -⟩ := (asks_schedule chain (state, [])).idle rfl early
    rw [same] at silent
    obtain ⟨covered, asked⟩ := (schedule_idle_iff chain state).mp same
    refine ⟨CompleteWork.of_covers covered, asked, ?_⟩
    rw [← Bool.not_eq_true]
    intro suspected
    have probes : withFinalityProbeIfOrphanSuspected hash number (state, []) =
        issueRequest (state, []) .canonicalHeader ⟨state.blocks.graph.anchor.number⟩ :=
      if_pos suspected
    rw [probes] at silent
    exact absurd silent (by simp [issueRequest])
  · intro nothing
    rw [(schedule_idle_iff chain state).mpr ⟨nothing.complete.covers, nothing.seeded⟩]
    exact if_neg (by simp [nothing.calm])

end ArmchairAnalyst.Kernel

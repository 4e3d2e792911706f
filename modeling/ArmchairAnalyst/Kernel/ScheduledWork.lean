import ArmchairAnalyst.Kernel.WorkInFlight

/-!
# What the scheduling chain puts in flight

A stage asks for its wanted targets that nothing in flight names. Until the
identifier sequence comes round, everything a chain of stages wanted is in flight
at its end.
-/

namespace ArmchairAnalyst.Kernel

open RequestStore (Covers Exclusive Evolves Sequenced)

/-- The step from one output to a later one issues payloads in turn, and every wanted
target was in flight before or is named by one of them. -/
structure Asks (output output' : State × List Effect) (wanted : Target → Prop) : Prop where
  core : SameCore output.1 output'.1
  issued : ∃ payloads : List ((kind : RequestKind) × kind.Payload),
    output'.1.pendingRequests =
      output.1.pendingRequests.issueAll output.1.tick payloads ∧
    output'.2.length = output.2.length + payloads.length ∧
    ∀ target, wanted target → Covers Names output.1.pendingRequests target ∨
      ∃ entry ∈ payloads, Names entry.1 entry.2 target

theorem covers_of_issueAll {store : PendingRequests} {tick : Tick} {target : Target}
    {payloads : List ((kind : RequestKind) × kind.Payload)}
    (covers : Covers Names (store.issueAll tick payloads) target) :
    Covers Names store target ∨ ∃ entry ∈ payloads, Names entry.1 entry.2 target := by
  induction payloads generalizing store with
  | nil => exact .inl covers
  | cons first payloads inductionHypothesis =>
    rcases inductionHypothesis covers with earlier | ⟨entry, membership, named⟩
    · rcases RequestStore.covers_of_issue earlier with named | before
      · exact .inr ⟨first, List.mem_cons_self, named⟩
      · exact .inl before
    · exact .inr ⟨entry, List.mem_cons_of_mem _ membership, named⟩

namespace Asks

variable {output output' : State × List Effect} {wanted wanted' : Target → Prop}

theorem refl (output : State × List Effect) : Asks output output (fun _ => False) :=
  ⟨rfl, [], rfl, rfl, fun _ absurd => absurd.elim⟩

theorem trans {first second third : State × List Effect} (asks : Asks first second wanted)
    (asks' : Asks second third wanted') :
    Asks first third (fun target => wanted target ∨ wanted' target) := by
  obtain ⟨core, payloads, store, count, named⟩ := asks
  obtain ⟨core', payloads', store', count', named'⟩ := asks'
  have tick : second.1.tick = first.1.tick := by rw [core]
  refine ⟨core.trans core', payloads ++ payloads', ?_, ?_, ?_⟩
  · rw [store', store, tick, RequestStore.issueAll_append]
  · rw [count', count, List.length_append, Nat.add_assoc]
  · rintro target (early | late)
    · rcases named target early with covered | ⟨entry, membership, names⟩
      · exact .inl covered
      · exact .inr ⟨entry, List.mem_append_left _ membership, names⟩
    · rcases named' target late with covered | ⟨entry, membership, names⟩
      · rw [store] at covered
        rcases covers_of_issueAll covered with before | ⟨entry, membership, names⟩
        · exact .inl before
        · exact .inr ⟨entry, List.mem_append_left _ membership, names⟩
      · exact .inr ⟨entry, List.mem_append_right _ membership, names⟩

/-- Fewer targets may be wanted, and those in flight already. -/
theorem weaken (asks : Asks output output' wanted)
    (weaker : ∀ target, wanted' target →
      wanted target ∨ Covers Names output.1.pendingRequests target) :
    Asks output output' wanted' := by
  obtain ⟨core, payloads, store, count, named⟩ := asks
  refine ⟨core, payloads, store, count, fun target wants => ?_⟩
  rcases weaker target wants with wants | covered
  · exact named target wants
  · exact .inl covered

theorem request (output : State × List Effect) (kind : RequestKind) (payload : kind.Payload) :
    Asks output (issueRequest output kind payload) (Names kind payload) :=
  ⟨rfl, [⟨kind, payload⟩], rfl, by simp [issueRequest],
    fun _ named => .inr ⟨_, List.mem_cons_self, named⟩⟩

theorem foldl {Item : Type} {round : State × List Effect → Item → State × List Effect}
    {items : List Item} {wanted : Item → Target → Prop}
    (each : ∀ item output, Asks output (round output item) (wanted item))
    (output : State × List Effect) :
    Asks output (items.foldl round output) (fun target => ∃ item ∈ items, wanted item target) := by
  induction items generalizing output with
  | nil => exact (refl output).weaken (by simp)
  | cons item items inductionHypothesis =>
    refine ((each item output).trans (inductionHypothesis (round output item))).weaken ?_
    rintro target ⟨other, membership, wants⟩
    rcases List.mem_cons.mp membership with rfl | later
    · exact .inl (.inl wants)
    · exact .inl (.inr ⟨other, later, wants⟩)

/-- Until the sequence comes round, what is wanted is in flight afterwards. -/
theorem covers (asks : Asks output output' wanted)
    (sequenced : Sequenced output.1.pendingRequests)
    (bounded : output.1.pendingRequests.lastRequestId.toNat +
      (output'.2.length - output.2.length) < 2 ^ 64) {target : Target} (wants : wanted target) :
    Covers Names output'.1.pendingRequests target := by
  obtain ⟨-, payloads, store, count, named⟩ := asks
  rw [count, Nat.add_sub_cancel_left] at bounded
  obtain ⟨kept, filed⟩ := sequenced.inFlight_issueAll bounded output.1.tick
  rw [store]
  rcases named target wants with ⟨request, inFlight, names⟩ | ⟨entry, membership, names⟩
  · exact ⟨request, kept request inFlight, names⟩
  · obtain ⟨id, inFlight⟩ := filed entry membership
    exact ⟨_, inFlight, names⟩

end Asks

/-! ### The stages -/

theorem asks_requestMissingHeader (hash : BlockHash) (output : State × List Effect) :
    Asks output (requestMissingHeader output hash) (· = .header hash) := by
  unfold requestMissingHeader
  split
  · rename_i pending
    apply (Asks.refl output).weaken
    rintro target rfl
    exact .inr ((covers_header _ _).mpr pending)
  · apply (Asks.request output .blockHeader ⟨hash⟩).weaken
    rintro target rfl
    exact .inl rfl

theorem asks_missingHeaders (output : State × List Effect) :
    Asks output (scheduleMissingHeaderRequests output) (fun target =>
      ∃ hash ∈ output.1.blocks.graph.missingParents, target = .header hash) :=
  Asks.foldl asks_requestMissingHeader output

/-- The holes a chain without requests in flight would have to fill. -/
def logHoles [BloomHash] (chain : ChainKey) (state : State) : List BlockHash :=
  state.blocks.graph.unknownLogHoleHashes (trustedAddresses chain state.poolRegistry) ∅
    streamSettleDepth

theorem asks_unknownLogs [BloomHash] (chain : ChainKey) (output : State × List Effect) :
    Asks output (scheduleUnknownCanonicalLogRequests chain output) (fun target =>
      ∃ hash ∈ logHoles chain output.1, target = .logs hash) := by
  refine (Asks.foldl (fun hash output' => Asks.request output' .blockLogs ⟨hash⟩) output).weaken ?_
  rintro target ⟨hash, hole, rfl⟩
  by_cases pending : hash ∈ PendingRequests.pendingBlockLogHashes output.1.pendingRequests
  · exact .inr ((covers_logs _ _).mpr pending)
  · exact .inl ⟨hash, (BlocksGraph.mem_unknownLogHoleHashes _ _ _ _ _).mpr ⟨hole, pending⟩, rfl⟩

section Sweep

variable {Item : Type} [Ord Item] [Std.TransOrd Item] [Std.LawfulEqOrd Item] [DecidableEq Item]
  {kind : RequestKind} {payload : BlockHash → HashSet Item → kind.Payload}
  {target : Item → Target} {wanted : State → HashSet ProtocolPoolKey → List Item}

omit [Std.LawfulEqOrd Item] [DecidableEq Item] in
theorem asks_requestUnseen
    (names : ∀ at_ items other, Names kind (payload at_ items) other ↔
      ∃ item ∈ items, other = target item)
    (pass : (State × List Effect) × HashSet Item)
    (block : BlockHash × HashSet ProtocolPoolKey) :
    Asks pass.1 (requestUnseen kind payload wanted pass block).1 (fun other =>
        ∃ item ∈ unseen (wanted pass.1.1 block.2) pass.2, other = target item) ∧
      ∀ item, item ∈ (requestUnseen kind payload wanted pass block).2 ↔
        item ∈ pass.2 ∨ item ∈ unseen (wanted pass.1.1 block.2) pass.2 := by
  unfold requestUnseen
  simp only
  split
  · rename_i nothing
    have empty : ∀ item, item ∉ unseen (wanted pass.1.1 block.2) pass.2 := by
      intro item
      rw [Std.ExtTreeSet.isEmpty_iff.mp nothing]
      exact Std.ExtTreeSet.not_mem_empty
    constructor
    · apply (Asks.refl pass.1).weaken
      rintro other ⟨item, membership, -⟩
      exact absurd membership (empty item)
    · exact fun item => ⟨.inl, fun either => either.resolve_right (empty item)⟩
  · constructor
    · apply (Asks.request pass.1 kind _).weaken
      exact fun other requested => .inl ((names _ _ other).mpr requested)
    · exact fun item => Std.ExtTreeSet.mem_union_iff

/-- A sweep asks for everything its blocks want that does not count as asked for yet. -/
theorem asks_sweep (target : Item → Target) (wanted : State → HashSet ProtocolPoolKey → List Item)
    (stable : ∀ state state', SameCore state state' → wanted state' = wanted state)
    (names : ∀ at_ items other, Names kind (payload at_ items) other ↔
      ∃ item ∈ items, other = target item)
    (blocks : List (BlockHash × HashSet ProtocolPoolKey))
    (pass : (State × List Effect) × HashSet Item) :
    Asks pass.1 (blocks.foldl (requestUnseen kind payload wanted) pass).1 (fun other =>
      ∃ block ∈ blocks, ∃ item ∈ wanted pass.1.1 block.2, item ∉ pass.2 ∧
        other = target item) := by
  induction blocks generalizing pass with
  | nil => exact (Asks.refl pass.1).weaken (by simp)
  | cons block blocks inductionHypothesis =>
    obtain ⟨asks, seen⟩ := asks_requestUnseen names pass block
    have same := stable _ _ asks.core
    refine (asks.trans (inductionHypothesis _)).weaken ?_
    rintro other ⟨block', membership, item, wants, fresh, rfl⟩
    left
    by_cases now : item ∈ unseen (wanted pass.1.1 block.2) pass.2
    · exact .inl ⟨item, now, rfl⟩
    · rcases List.mem_cons.mp membership with rfl | later
      · exact absurd ((mem_unseen _ _ _).mpr ⟨wants, fresh⟩) now
      · refine .inr ⟨block', later, item, ?_, ?_, rfl⟩
        · rw [same]
          exact wants
        · rw [seen item]
          exact fun either => either.elim fresh now

end Sweep

theorem asks_poolMetadata (chain : ChainKey)
    (blocks : List (BlockHash × HashSet ProtocolPoolKey)) (output : State × List Effect) :
    Asks output (scheduleUnknownCanonicalPoolMetadataRequests chain blocks output)
      (fun target => ∃ block ∈ blocks, ∃ key ∈ unknownCandidates chain output.1 block.2,
        target = .candidate key) := by
  unfold scheduleUnknownCanonicalPoolMetadataRequests
  rw [requestPoolCandidates_eq]
  refine (asks_sweep .candidate (unknownCandidates chain) ?_ ?_ blocks
    (output, PendingRequests.pendingPoolMetadataCandidates output.1.pendingRequests)).weaken ?_
  · rintro state state' core
    rw [core]
    rfl
  · intro at_ candidates other
    cases other <;> simp [Names]
  · rintro target ⟨block, membership, key, unknown, rfl⟩
    by_cases pending : key ∈ PendingRequests.pendingPoolMetadataCandidates
        output.1.pendingRequests
    · exact .inr ((covers_candidate _ _).mpr pending)
    · exact .inl ⟨block, membership, key, unknown, pending, rfl⟩

theorem asks_tokenMetadata (chain : ChainKey)
    (blocks : List (BlockHash × HashSet ProtocolPoolKey)) (output : State × List Effect) :
    Asks output (scheduleUnknownCanonicalTokenMetadataRequests chain blocks output)
      (fun target => ∃ block ∈ blocks, ∃ token ∈ unknownCandidateTokens chain output.1 block.2,
        target = .token token) := by
  unfold scheduleUnknownCanonicalTokenMetadataRequests
  rw [requestCandidateTokens_eq]
  refine (asks_sweep .token (unknownCandidateTokens chain) ?_ ?_ blocks
    (output, PendingRequests.pendingTokenMetadataTokens output.1.pendingRequests)).weaken ?_
  · rintro state state' core
    rw [core]
    rfl
  · intro at_ tokens other
    cases other <;> simp [Names]
  · rintro target ⟨block, membership, token, unknown, rfl⟩
    by_cases pending : token ∈ PendingRequests.pendingTokenMetadataTokens
        output.1.pendingRequests
    · exact .inr ((covers_token _ _).mpr pending)
    · exact .inl ⟨block, membership, token, unknown, pending, rfl⟩

/-- The seed stage asks for one chunk of uncovered pools while no block is being fetched. -/
theorem asks_poolSeeds (chain : ChainKey) (output : State × List Effect) :
    Asks output (scheduleFinalizedPoolSeedRequests chain output) (fun target =>
      PendingRequests.hasPendingBlockBackfill output.1.pendingRequests = false ∧
        ∃ pool ∈ uncoveredPools chain output.1, target = .pool pool) := by
  unfold scheduleFinalizedPoolSeedRequests
  split
  · rename_i backfilling
    apply (Asks.refl output).weaken
    rintro target ⟨idle, -⟩
    rw [backfilling] at idle
    exact absurd idle (by decide)
  · simp only
    split
    · rename_i nothing
      apply (Asks.refl output).weaken
      rintro target ⟨-, pool, uncovered, -⟩
      rw [List.isEmpty_iff.mp nothing] at uncovered
      exact absurd uncovered List.not_mem_nil
    · apply (Asks.request output .poolData _).weaken
      rintro target ⟨-, pool, uncovered, rfl⟩
      exact .inl ((HashSet.mem_collect _ _).mpr uncovered)

theorem asks_probe (hash : BlockHash) (number : UInt64) (output : State × List Effect) :
    Asks output (withFinalityProbeIfOrphanSuspected hash number output) (fun _ => False) := by
  unfold withFinalityProbeIfOrphanSuspected
  split
  · exact (Asks.request output .canonicalHeader _).weaken (fun _ absurd => absurd.elim)
  · exact Asks.refl output

/-! ### The scheduling chain -/

/-- What a state wants to be in flight or known already. -/
def WantedWork [BloomHash] (chain : ChainKey) (state : State) : Target → Prop
  | .header hash => hash ∈ state.blocks.graph.missingParents
  | .logs hash => hash ∈ logHoles chain state
  | .candidate key => ∃ block ∈ state.blocks.graph.poolLogCandidatesFromHead,
      key ∈ block.2 ∧ state.poolRegistry.isKnown chain key = false
  | .token token => ∃ block ∈ state.blocks.graph.poolLogCandidatesFromHead,
      token ∈ candidateTokens chain state.poolRegistry block.2 ∧
        state.tokenRegistry.isKnown token = false
  | .pool _ => False

theorem WantedWork.of_sameCore [BloomHash] {chain : ChainKey} {state state' : State}
    (same : SameCore state state') : WantedWork chain state' = WantedWork chain state := by
  funext target
  rw [same]
  cases target <;> rfl

/-- The stages before the one that asks for anchor states. -/
def scheduleBeforeSeeds [BloomHash] (chain : ChainKey) (output : State × List Effect) :
    State × List Effect :=
  let output := scheduleMissingHeaderRequests output
  let output := scheduleUnknownCanonicalLogRequests chain output
  let candidatesFromHead := output.1.blocks.graph.poolLogCandidatesFromHead
  let output := scheduleUnknownCanonicalPoolMetadataRequests chain candidatesFromHead output
  scheduleUnknownCanonicalTokenMetadataRequests chain candidatesFromHead output

theorem schedule_eq_seeds [BloomHash] (chain : ChainKey) (output : State × List Effect) :
    scheduleUnknownCanonicalRequests chain output =
      scheduleFinalizedPoolSeedRequests chain (scheduleBeforeSeeds chain output) := rfl

theorem asks_beforeSeeds [BloomHash] (chain : ChainKey) (output : State × List Effect) :
    Asks output (scheduleBeforeSeeds chain output) (WantedWork chain output.1) := by
  have headers := asks_missingHeaders output
  generalize first : scheduleMissingHeaderRequests output = output₁ at headers
  have logs := headers.trans (asks_unknownLogs chain output₁)
  generalize second : scheduleUnknownCanonicalLogRequests chain output₁ = output₂ at logs
  have pools := logs.trans
    (asks_poolMetadata chain output₂.1.blocks.graph.poolLogCandidatesFromHead output₂)
  generalize third : scheduleUnknownCanonicalPoolMetadataRequests chain
    output₂.1.blocks.graph.poolLogCandidatesFromHead output₂ = output₃ at pools
  have tokens := pools.trans
    (asks_tokenMetadata chain output₂.1.blocks.graph.poolLogCandidatesFromHead output₃)
  simp only [scheduleBeforeSeeds, first, second, third]
  refine tokens.weaken (fun target wants => .inl ?_)
  cases target with
  | header hash => exact .inl (.inl (.inl ⟨hash, wants, rfl⟩))
  | logs hash =>
    have hole : hash ∈ logHoles chain output₁.1 := by
      rw [headers.core]
      exact wants
    exact .inl (.inl (.inr ⟨hash, hole, rfl⟩))
  | candidate key =>
    obtain ⟨block, membership, named, unknown⟩ := wants
    refine .inl (.inr ⟨block, ?_, key, ?_, rfl⟩)
    · rw [logs.core]
      exact membership
    · rw [logs.core]
      exact List.mem_filter.mpr ⟨Std.ExtTreeSet.mem_toList.mpr named, by simp [unknown]⟩
  | token token =>
    obtain ⟨block, membership, named, unknown⟩ := wants
    refine .inr ⟨block, ?_, token, ?_, rfl⟩
    · rw [logs.core]
      exact membership
    · rw [pools.core]
      exact List.mem_filter.mpr ⟨named, by simp [unknown]⟩
  | pool pool => exact wants.elim

theorem asks_schedule [BloomHash] (chain : ChainKey) (output : State × List Effect) :
    Asks output (scheduleUnknownCanonicalRequests chain output) (WantedWork chain output.1) := by
  rw [schedule_eq_seeds]
  exact ((asks_beforeSeeds chain output).trans (asks_poolSeeds chain _)).weaken
    (fun _ wants => .inl (.inl wants))

/-! ### Transitions that run the chain -/

/-- The transitions that reach the scheduling chain: a head that is neither its own
parent nor the tip again, any header, and logs or answers that are matched. -/
def RunsSchedule (chain : ChainKey) (state : State) : Event → Prop
  | .headObserved hash parentHash logsBloom number =>
    let admission := (state.withLogHeadObserved hash parentHash number logsBloom
      (maxPendingBlocks chain)).2
    admission ≠ .selfParent ∧
      ¬ (admission = .duplicateBlock ∧ hash = state.blocks.graph.observedHead)
  | .blockHeaderReceived _ _ _ _ _ => True
  | .blockLogsReceived requestId _ =>
    ((state.take .blockLogs requestId).2).isSome
  | .blockLogsRangeReceived requestId _ => ((state.take .logsRange requestId).2).isSome
  | .logObserved blockHash _ => blockHash ∈ state.blocks.graph.nodes
  | .poolMetadataReceived requestId _ => ((state.take .poolMetadata requestId).2).isSome
  | .tokenMetadataReceived requestId _ => ((state.take .tokenMetadata requestId).2).isSome
  | .poolDataReceived requestId _ => ((state.take .poolData requestId).2).isSome
  | .finalizedBlockObserved _ _ | .blockHeaderNotFound _
  | .canonicalHeaderAtHeightReceived _ _ _ | .requestFailed _ | .tick _ => False

instance (chain : ChainKey) (state : State) (event : Event) :
    Decidable (RunsSchedule chain state event) :=
  match event with
  | .headObserved _ _ _ _ => inferInstanceAs (Decidable (_ ∧ ¬ (_ ∧ _)))
  | .blockHeaderReceived _ _ _ _ _ => isTrue trivial
  | .blockLogsReceived _ _ | .blockLogsRangeReceived _ _ | .poolMetadataReceived _ _
  | .tokenMetadataReceived _ _ | .poolDataReceived _ _ => inferInstanceAs (Decidable (_ = true))
  | .logObserved _ _ => inferInstanceAs (Decidable (_ ∈ _))
  | .finalizedBlockObserved _ _ | .blockHeaderNotFound _
  | .canonicalHeaderAtHeightReceived _ _ _ | .requestFailed _ | .tick _ => isFalse id

/-- The scheduling chain after a step that only asked for more asks for all wanted work. -/
theorem Asks.schedule [BloomHash] {chain : ChainKey} {before output : State × List Effect}
    {wanted : Target → Prop} (asks : Asks before output wanted) :
    Asks before (scheduleUnknownCanonicalRequests chain output) (WantedWork chain before.1) := by
  apply (asks.trans (asks_schedule chain output)).weaken
  intro target wants
  rw [WantedWork.of_sameCore asks.core]
  exact .inl (.inr wants)

theorem Asks.probe {hash : BlockHash} {number : UInt64} {before output : State × List Effect}
    {wanted : Target → Prop} (asks : Asks before output wanted) :
    Asks before (withFinalityProbeIfOrphanSuspected hash number output) wanted :=
  (asks.trans (asks_probe hash number output)).weaken (fun _ wants => .inl (.inl wants))

theorem answered_asks [BloomHash] {chain : ChainKey} {state : State} {event : Event}
    {kind : RequestKind} {id : UInt64} {apply_ : State → kind.Payload → State}
    (absorbed : absorb chain state event = applied state kind id apply_)
    (handled : transition chain state event = answered chain state kind id apply_)
    (matched : ((state.take kind id).2).isSome) :
    Asks (absorb chain state event, []) (transition chain state event)
      (WantedWork chain (absorb chain state event)) := by
  have ran : transition chain state event =
      scheduleUnknownCanonicalRequests chain (absorb chain state event, []) := by
    rw [handled, absorbed]
    unfold answered applied
    generalize state.take kind id = result at matched
    obtain ⟨state', _ | request⟩ := result
    · simp at matched
    · rfl
  rw [ran]
  exact (Asks.refl _).schedule

theorem headObserved_scheduling [BloomHash] {chain : ChainKey} {state : State}
    {hash parent : BlockHash} {bloom : Bloom} {number : UInt64}
    (runs : RunsSchedule chain state (.headObserved hash parent bloom number)) :
    transition chain state (.headObserved hash parent bloom number) =
      withFinalityProbeIfOrphanSuspected hash number (scheduleUnknownCanonicalRequests chain
        (absorb chain state (.headObserved hash parent bloom number), [])) := by
  obtain ⟨proper, fresh⟩ := runs
  have own : absorb chain state (.headObserved hash parent bloom number) =
      (state.withLogHeadObserved hash parent number bloom (maxPendingBlocks chain)).1 := rfl
  simp only [transition, transitionOutcome, headObserved]
  generalize state.withLogHeadObserved hash parent number bloom (maxPendingBlocks chain) =
    result at proper fresh own ⊢
  obtain ⟨absorbed, admission⟩ := result
  simp only at proper fresh own
  cases admission with
  | selfParent => exact absurd rfl proper
  | duplicateBlock =>
    have moved : ¬ hash = state.blocks.graph.observedHead := fun tip => fresh ⟨rfl, tip⟩
    simp only [moved, if_false, TransitionOutcome.ofOutput, own]
  | admitted => simp only [TransitionOutcome.ofOutput, own]
  | anchorReadmitted => simp only [TransitionOutcome.ofOutput, own]
  | conflictingParent => simp only [TransitionOutcome.ofOutput, own]
  | pendingBufferFull => simp only [TransitionOutcome.ofOutput, own]

theorem headerReceived_asks [BloomHash] (chain : ChainKey) (state : State) (id : UInt64)
    (hash parent : BlockHash) (bloom : Bloom) (number : UInt64) :
    Asks (absorb chain state (.blockHeaderReceived id hash parent bloom number), [])
      (transition chain state (.blockHeaderReceived id hash parent bloom number))
      (WantedWork chain (absorb chain state (.blockHeaderReceived id hash parent bloom number))) := by
  have handled : transition chain state (.blockHeaderReceived id hash parent bloom number) =
      blockHeaderReceived chain state id hash parent bloom number := transition_of_output rfl
  have own : absorb chain state (.blockHeaderReceived id hash parent bloom number) =
      ((state.withLogHeaderReceived hash parent number bloom (maxPendingBlocks chain)).take
        .blockHeader id).1 := rfl
  rw [handled]
  unfold blockHeaderReceived
  simp only
  generalize (state.withLogHeaderReceived hash parent number bloom (maxPendingBlocks chain)).take
    .blockHeader id = result at own ⊢
  obtain ⟨absorbed, _ | request⟩ := result
  · rw [own]
    exact (Asks.refl _).schedule.probe
  · rw [own]
    have answer : ∀ {output : State × List Effect}, Asks (absorbed, []) output (fun _ => False) →
        Asks (absorbed, []) (withFinalityProbeIfOrphanSuspected hash number
          (scheduleUnknownCanonicalRequests chain output)) (WantedWork chain absorbed) :=
      fun asks => asks.schedule.probe
    by_cases other : request.payload.blockHash = hash
    · have matched : ¬ request.payload.blockHash ≠ hash := not_not.mpr other
      simp only [if_neg matched]
      exact answer (Asks.refl _)
    · -- Another block came back, so the header is asked for again first.
      simp only [if_pos other]
      exact answer ((Asks.request (absorbed, []) .blockHeader request.payload).weaken
        (fun _ (impossible : False) => impossible.elim))

/-- A transition that runs the scheduling chain asks for all wanted work. -/
theorem transition_asks [BloomHash] {chain : ChainKey} {state : State} {event : Event}
    (runs : RunsSchedule chain state event) :
    Asks (absorb chain state event, []) (transition chain state event)
      (WantedWork chain (absorb chain state event)) := by
  cases event with
  | headObserved hash parent bloom number =>
    rw [headObserved_scheduling runs]
    exact (Asks.refl _).schedule.probe
  | blockHeaderReceived id hash parent bloom number =>
    exact headerReceived_asks chain state id hash parent bloom number
  | blockLogsReceived id logs => exact answered_asks rfl (transition_of_output rfl) runs
  | blockLogsRangeReceived id blocks => exact answered_asks rfl (transition_of_output rfl) runs
  | logObserved hash logs =>
    have present : hash ∈ state.blocks.graph.nodes := runs
    have absorbed : absorb chain state (.logObserved hash logs) =
        state.withLogStreamed hash logs := if_pos present
    have ran : transition chain state (.logObserved hash logs) =
        scheduleUnknownCanonicalRequests chain (absorb chain state (.logObserved hash logs), []) := by
      rw [transition_of_output rfl, absorbed]
      exact if_pos present
    rw [ran]
    exact (Asks.refl _).schedule
  | poolMetadataReceived id metadata => exact answered_asks rfl (transition_of_output rfl) runs
  | tokenMetadataReceived id metadata => exact answered_asks rfl (transition_of_output rfl) runs
  | poolDataReceived id pools => exact answered_asks rfl (transition_of_output rfl) runs
  | finalizedBlockObserved hash number => exact absurd runs id
  | blockHeaderNotFound _ => exact absurd runs id
  | canonicalHeaderAtHeightReceived _ hash number => exact absurd runs id
  | requestFailed _ => exact absurd runs id
  | tick order => exact absurd runs id

/-- Until the identifiers come round, a transition that runs the scheduling chain leaves
all wanted work in flight, and what was in flight once the event was absorbed. -/
theorem transition_covers [BloomHash] {chain : ChainKey} {state : State} {event : Event}
    (runs : RunsSchedule chain state event) (sequenced : Sequenced state.pendingRequests)
    (bounded : state.pendingRequests.lastRequestId.toNat +
      (transition chain state event).2.length < 2 ^ 64) {target : Target}
    (wants : WantedWork chain (absorb chain state event) target ∨
      Covers Names (absorb chain state event).pendingRequests target) :
    Covers Names (transition chain state event).1.pendingRequests target := by
  obtain ⟨sequenced', last⟩ := sequenced.evolves (absorb_evolves chain state event)
    (by simp only [List.length_nil]; omega)
  rw [List.length_nil, Nat.add_zero] at last
  have asks := (transition_asks runs).weaken (fun _ wants => wants)
  exact asks.covers sequenced' (by simp only [List.length_nil]; omega) wants

/-! ### Sequenced runs -/

theorem transition_sequenced [BloomHash] (chain : ChainKey) {state : State} (event : Event)
    {issued : Nat} (sequenced : Sequenced state.pendingRequests)
    (last : state.pendingRequests.lastRequestId.toNat ≤ issued)
    (bounded : issued + (transition chain state event).2.length < 2 ^ 64) :
    Sequenced (transition chain state event).1.pendingRequests ∧
      (transition chain state event).1.pendingRequests.lastRequestId.toNat ≤
        issued + (transition chain state event).2.length := by
  by_cases restarts : Reinitialises state event
  · cases event with
    | canonicalHeaderAtHeightReceived id hash number =>
      rw [transition_reinitialises chain state id restarts]
      exact ⟨Sequenced.new, Nat.zero_le _⟩
    | _ => exact absurd restarts id
  · obtain ⟨sequenced', last'⟩ := sequenced.evolves
      (transition_continues chain state event restarts).evolves (by omega)
    exact ⟨sequenced', by omega⟩

theorem run_sequenced [BloomHash] (chain : ChainKey) {state : State} (events : List Event)
    {issued : Nat} (sequenced : Sequenced state.pendingRequests)
    (last : state.pendingRequests.lastRequestId.toNat ≤ issued)
    (bounded : issued + (run (transition chain) state events).2.length < 2 ^ 64) :
    Sequenced (run (transition chain) state events).1.pendingRequests ∧
      (run (transition chain) state events).1.pendingRequests.lastRequestId.toNat ≤
        issued + (run (transition chain) state events).2.length := by
  induction events generalizing state issued with
  | nil => exact ⟨sequenced, last⟩
  | cons event events inductionHypothesis =>
    simp only [run, List.length_append] at bounded ⊢
    obtain ⟨sequenced', last'⟩ := transition_sequenced chain event sequenced last (by omega)
    obtain ⟨final, finalLast⟩ := inductionHypothesis sequenced' last' (by omega)
    exact ⟨final, by omega⟩

theorem runFrom_sequenced [BloomHash] (chain : ChainKey) {start : State × List Effect}
    (starts : Starts start) (events : List Event)
    (bounded : (runFrom chain start events).2.length < 2 ^ 64) :
    Sequenced (runFrom chain start events).1.pendingRequests ∧
      (runFrom chain start events).1.pendingRequests.lastRequestId.toNat ≤
        (runFrom chain start events).2.length := by
  simp only [runFrom, List.length_append] at bounded ⊢
  obtain ⟨sequenced, last⟩ := Sequenced.new.evolves starts.evolves
    (by simp only [RequestStore.new, UInt64.toNat_zero]; omega)
  have begins : start.1.pendingRequests.lastRequestId.toNat ≤ start.2.length := by
    rw [last]
    simp [RequestStore.new]
  exact run_sequenced chain events sequenced begins bounded

theorem runFrom_concat [BloomHash] (chain : ChainKey) (start : State × List Effect)
    (events : List Event) (event : Event) :
    runFrom chain start (events ++ [event]) =
      ((transition chain (runFrom chain start events).1 event).1,
        (runFrom chain start events).2 ++
          (transition chain (runFrom chain start events).1 event).2) := by
  simp only [runFrom, run_append, run, List.append_nil, List.append_assoc]

theorem Reached.of_runFrom [BloomHash] {chain : ChainKey} {start : State × List Effect}
    (starts : Starts start) (events : List Event) :
    Reached chain (runFrom chain start events).1 := by
  apply Reachable.run (.init ⟨start.2, starts⟩)
  generalize start.1 = state
  induction events generalizing state with
  | nil => trivial
  | cons event events inductionHypothesis => exact ⟨trivial, inductionHypothesis _⟩

/-! ### The work of a run -/

/-- Nothing is asked for twice at the same time. -/
structure UniqueWork (requests : PendingRequests) : Prop where
  headers : ∀ id id' payload payload', requests.InFlight ⟨.blockHeader, id, payload⟩ →
    requests.InFlight ⟨.blockHeader, id', payload'⟩ →
    payload.blockHash = payload'.blockHash → id = id'
  logs : ∀ id id' payload payload', requests.InFlight ⟨.blockLogs, id, payload⟩ →
    requests.InFlight ⟨.blockLogs, id', payload'⟩ →
    payload.blockHash = payload'.blockHash → id = id'
  candidates : ∀ id id' payload payload', requests.InFlight ⟨.poolMetadata, id, payload⟩ →
    requests.InFlight ⟨.poolMetadata, id', payload'⟩ → id ≠ id' →
    ∀ key ∈ payload.candidates, key ∉ payload'.candidates
  tokens : ∀ id id' payload payload', requests.InFlight ⟨.tokenMetadata, id, payload⟩ →
    requests.InFlight ⟨.tokenMetadata, id', payload'⟩ → id ≠ id' →
    ∀ token ∈ payload.tokens, token ∉ payload'.tokens
  pools : ∀ id id' payload payload', requests.InFlight ⟨.poolData, id, payload⟩ →
    requests.InFlight ⟨.poolData, id', payload'⟩ → id ≠ id' →
    ∀ pool ∈ payload.pools, pool ∉ payload'.pools

/-- Everything the present chain lacks is in flight or known. -/
structure CompleteWork [BloomHash] (chain : ChainKey) (state : State) : Prop where
  headers : ∀ hash ∈ state.blocks.graph.missingParents,
    ∃ id, state.pendingRequests.InFlight ⟨.blockHeader, id, ⟨hash⟩⟩
  logs : ∀ hash ∈ logHoles chain state,
    ∃ id, state.pendingRequests.InFlight ⟨.blockLogs, id, ⟨hash⟩⟩
  candidates : ∀ block ∈ state.blocks.graph.poolLogCandidatesFromHead, ∀ key ∈ block.2,
    state.poolRegistry.isKnown chain key = true ∨
      ∃ id payload, state.pendingRequests.InFlight ⟨.poolMetadata, id, payload⟩ ∧
        key ∈ payload.candidates
  tokens : ∀ block ∈ state.blocks.graph.poolLogCandidatesFromHead,
    ∀ token ∈ candidateTokens chain state.poolRegistry block.2,
      state.tokenRegistry.isKnown token = true ∨
        ∃ id payload, state.pendingRequests.InFlight ⟨.tokenMetadata, id, payload⟩ ∧
          token ∈ payload.tokens

theorem UniqueWork.of_exclusive {requests : PendingRequests}
    (exclusive : Exclusive Names requests) : UniqueWork requests where
  headers _ _ _ payload' first second same :=
    congrArg AnyIssuedRequest.requestId
      (exclusive _ _ (.header payload'.blockHash) first second same rfl)
  logs _ _ _ payload' first second same :=
    congrArg AnyIssuedRequest.requestId
      (exclusive _ _ (.logs payload'.blockHash) first second same rfl)
  candidates _ _ _ _ first second distinct key named named' :=
    distinct (congrArg AnyIssuedRequest.requestId
      (exclusive _ _ (.candidate key) first second named named'))
  tokens _ _ _ _ first second distinct token named named' :=
    distinct (congrArg AnyIssuedRequest.requestId
      (exclusive _ _ (.token token) first second named named'))
  pools _ _ _ _ first second distinct pool named named' :=
    distinct (congrArg AnyIssuedRequest.requestId
      (exclusive _ _ (.pool pool) first second named named'))

/-- What covers a target is in flight under the target's kind. -/
theorem inFlight_of_covers {requests : PendingRequests} {target : Target}
    (covered : Covers Names requests target) :
    ∃ id payload, requests.InFlight ⟨target.kind, id, payload⟩ ∧
      Names target.kind payload target := by
  obtain ⟨⟨kind, id, payload⟩, inFlight, named⟩ := covered
  obtain rfl := named.kind
  exact ⟨id, payload, inFlight, named⟩

theorem CompleteWork.of_covers [BloomHash] {chain : ChainKey} {state : State}
    (covers : ∀ target, WantedWork chain state target →
      Covers Names state.pendingRequests target) : CompleteWork chain state where
  headers := by
    intro hash missing
    obtain ⟨id, payload, inFlight, named⟩ := inFlight_of_covers (covers (.header hash) missing)
    have same : payload = ⟨hash⟩ := congrArg GetBlockHeader.mk named
    exact ⟨id, same ▸ inFlight⟩
  logs := by
    intro hash hole
    obtain ⟨id, payload, inFlight, named⟩ := inFlight_of_covers (covers (.logs hash) hole)
    have same : payload = ⟨hash⟩ := congrArg GetBlockLogs.mk named
    exact ⟨id, same ▸ inFlight⟩
  candidates := by
    intro block membership key named
    cases known : state.poolRegistry.isKnown chain key with
    | true => exact .inl rfl
    | false =>
      exact .inr (inFlight_of_covers (covers (.candidate key) ⟨block, membership, named, known⟩))
  tokens := by
    intro block membership token named
    cases known : state.tokenRegistry.isKnown token with
    | true => exact .inl rfl
    | false =>
      exact .inr (inFlight_of_covers (covers (.token token) ⟨block, membership, named, known⟩))

/-- In every run no work is in flight twice, and after every transition that runs the
scheduling chain all of it is, until the identifiers come round. -/
theorem work_unique_and_complete [BloomHash] (chain : ChainKey) {start : State × List Effect}
    (starts : Starts start) (events : List Event) :
    UniqueWork (runFrom chain start events).1.pendingRequests ∧
      ∀ event, RunsSchedule chain (runFrom chain start events).1 event →
        (runFrom chain start (events ++ [event])).2.length < 2 ^ 64 →
        CompleteWork chain (runFrom chain start (events ++ [event])).1 := by
  refine ⟨UniqueWork.of_exclusive (Reached.of_runFrom starts events).exclusive, ?_⟩
  intro event runs bounded
  rw [runFrom_concat] at bounded ⊢
  rw [List.length_append] at bounded
  obtain ⟨sequenced, last⟩ := runFrom_sequenced chain starts events (by omega)
  refine CompleteWork.of_covers (fun target wants => ?_)
  rw [WantedWork.of_sameCore (transition_asks runs).core] at wants
  exact transition_covers runs sequenced (by omega) (.inl wants)

theorem work_unique_and_complete_answeredHeader :
    letI : BloomHash := BloomHash.tabulated
    UniqueWork (runFrom .ethereum (State.init 0x10 100, []) answeredHeader).1.pendingRequests ∧
      CompleteWork .ethereum (runFrom .ethereum (State.init 0x10 100, [])
        (answeredHeader ++ [.headObserved 0x14 0x13 0 104])).1 := by
  obtain ⟨unique, complete⟩ := @work_unique_and_complete BloomHash.tabulated .ethereum _
    (.init 0x10 100) answeredHeader
  refine ⟨unique, ?_⟩
  apply complete
  · decide +kernel
  · decide +kernel

/-! ### Coming round -/

/-- A window of two blocks whose parents are missing. -/
def twoHoles : List SeedBlock :=
  [{ hash := 0x30, parent := 0x20, number := 110, logs := [] },
    { hash := 0x31, parent := 0x21, number := 110, logs := [] }]

/-- The first header is in flight under the first identifier, the second one under the last. -/
def lapped (last : UInt64) : PendingRequests where
  lastRequestId := last
  collection := Function.update (fun _ => ∅) .blockHeader
    (((∅ : HashMap UInt64 (PendingPayload GetBlockHeader)).insert 1 ⟨⟨0x20⟩, Tick.initial⟩).insert
      last ⟨⟨0x21⟩, Tick.initial⟩)

theorem lapped_retry {last : UInt64} (other : last ≠ 1) :
    ((lapped last).retry ⟨.blockHeader, last⟩ Tick.initial).1 = lapped (last + 1) := by
  have found : ((lapped last).collection .blockHeader)[last]? =
      some ⟨⟨0x21⟩, Tick.initial⟩ := by
    simp [lapped]
  simp only [RequestStore.retry, RequestStore.takeRequest, found]
  simp only [RequestStore.issueRequest, RequestStore.withCollection, lapped,
    Function.update_self, Function.update_idem]
  congr 2
  apply HashMap.ext_getElem?
  intro id
  simp only [Std.ExtTreeMap.getElem?_insert, Std.ExtTreeMap.getElem?_erase]
  grind

/-- The second header's request fails again and again, and is issued anew each time. -/
def laps (count : Nat) : List Event :=
  (List.range count).map (fun i => .requestFailed ⟨.blockHeader, UInt64.ofNat (i + 2)⟩)

theorem run_laps [BloomHash] (chain : ChainKey) (state : State)
    (fresh : state.tick = Tick.initial) (count : Nat) (bounded : count < 2 ^ 64 - 1) :
    (run (transition chain) { state with pendingRequests := lapped 2 } (laps count)).1 =
      { state with pendingRequests := lapped (UInt64.ofNat (count + 2)) } := by
  induction count with
  | zero => rfl
  | succ count inductionHypothesis =>
    have split : laps (count + 1) =
        laps count ++ [.requestFailed ⟨.blockHeader, UInt64.ofNat (count + 2)⟩] := by
      simp [laps, List.range_succ]
    have other : UInt64.ofNat (count + 2) ≠ 1 := by
      intro same
      have values := congrArg UInt64.toNat same
      rw [UInt64.toNat_ofNat', Nat.mod_eq_of_lt (by omega)] at values
      simp at values
    rw [split, run_append, inductionHypothesis (by omega)]
    simp only [run]
    rw [transition_of_output rfl]
    simp only [requestFailed, fresh, lapped_retry other]
    have next : UInt64.ofNat (count + 2) + 1 = UInt64.ofNat (count + 1 + 2) := by
      rw [show count + 1 + 2 = count + 2 + 1 from rfl, UInt64.ofNat_add (count + 2)]
      rfl
    rw [next]

theorem twoHoles_start :
    (State.activateFromSeed 0x10 100 ∅ .new .new twoHoles).1 =
      { activated 0x10 100 ∅ .new .new twoHoles with pendingRequests := lapped 2 } := by
  have missing : (BlocksGraph.fromSeed 0x10 100 twoHoles).missingParents = [0x20, 0x21] := by
    decide +kernel
  simp only [State.activateFromSeed, missing, List.foldl_cons, List.foldl_nil, issueRequest,
    RequestStore.issueRequest, RequestStore.withCollection, Function.update_self,
    Function.update_idem]
  rfl

theorem twoHoles_lapped [BloomHash] (chain : ChainKey) (count : Nat) (bounded : count < 2 ^ 64 - 1) :
    (runFrom chain (State.activateFromSeed 0x10 100 ∅ .new .new twoHoles) (laps count)).1 =
      { activated 0x10 100 ∅ .new .new twoHoles with
        pendingRequests := lapped (UInt64.ofNat (count + 2)) } := by
  simp only [runFrom, twoHoles_start]
  exact run_laps chain _ rfl count bounded

/-- After 2^64 requests a new header is asked for under the identifier of an old one,
which is then missing and not in flight. -/
theorem coming_round_loses_a_header :
    letI : BloomHash := BloomHash.tabulated
    let start := State.activateFromSeed 0x10 100 ∅ .new .new twoHoles
    let events := laps (2 ^ 64 - 2)
    let event : Event := .headObserved 0x32 0x22 0 110
    Starts start ∧ RunsSchedule .ethereum (runFrom .ethereum start events).1 event ∧
      ¬ CompleteWork .ethereum (runFrom .ethereum start (events ++ [event])).1 := by
  let _ : BloomHash := BloomHash.tabulated
  intro start events event
  have round : UInt64.ofNat (2 ^ 64 - 2 + 2) = 0 := by decide
  have lap := twoHoles_lapped .ethereum (2 ^ 64 - 2) (by omega)
  rw [round] at lap
  refine ⟨.activateFromSeed _ _ _ _ _ _, ?_, ?_⟩
  · rw [lap]
    decide +kernel
  · intro complete
    rw [runFrom_concat, lap] at complete
    obtain ⟨id, inFlight⟩ := complete.headers 0x20 (by decide +kernel)
    have pending := (hasPendingHeaderRequest_iff _ _).mpr ⟨id, inFlight⟩
    exact absurd pending (by decide +kernel)

end ArmchairAnalyst.Kernel

import ArmchairAnalyst.Kernel.Transition

/-!
# What the schedulers do

A scheduler issues requests and changes nothing else. What it may ask for is a
property of the state it runs on.
-/

namespace ArmchairAnalyst.Kernel

open RequestStore (Evolves)

/-- Two states that differ at most in the requests in flight. -/
def SameCore (state state' : State) : Prop :=
  state' = { state with pendingRequests := state'.pendingRequests }

theorem SameCore.refl (state : State) : SameCore state state := rfl

theorem SameCore.trans {first second third : State} (same : SameCore first second)
    (same' : SameCore second third) : SameCore first third := by
  unfold SameCore at *
  rw [same', same]

/-- The step from one output to a later one only issued requests of a certain sort. -/
structure Issues (holds : (kind : RequestKind) → kind.Payload → Prop)
    (output output' : State × List Effect) : Prop where
  core : SameCore output.1 output'.1
  issued : ∃ issued, output'.2 = output.2 ++ issued ∧
    Evolves output.1.pendingRequests issued output'.1.pendingRequests ∧
    ∀ request ∈ issued, holds request.kind request.requestPayload
  untouched : ∀ kind, (∀ payload, ¬ holds kind payload) →
    output'.1.pendingRequests.collection kind = output.1.pendingRequests.collection kind

namespace Issues

variable {holds holds' : (kind : RequestKind) → kind.Payload → Prop}

theorem refl (output : State × List Effect) : Issues holds output output :=
  ⟨rfl, ⟨[], by simp, Evolves.refl _, by simp⟩, fun _ _ => rfl⟩

theorem trans {first second third : State × List Effect} (issues : Issues holds first second)
    (issues' : Issues holds second third) : Issues holds first third := by
  obtain ⟨core, ⟨issued, effects, evolves, sort⟩, untouched⟩ := issues
  obtain ⟨core', ⟨issued', effects', evolves', sort'⟩, untouched'⟩ := issues'
  refine ⟨core.trans core', ⟨issued ++ issued', ?_, evolves.trans evolves', ?_⟩, ?_⟩
  · rw [effects', effects, List.append_assoc]
  · intro request membership
    rcases List.mem_append.mp membership with membership | membership
    · exact sort request membership
    · exact sort' request membership
  · intro kind other
    rw [untouched' kind other, untouched kind other]

theorem weaken {first second : State × List Effect} (issues : Issues holds first second)
    (weaker : ∀ kind payload, holds kind payload → holds' kind payload) :
    Issues holds' first second := by
  obtain ⟨core, ⟨issued, effects, evolves, sort⟩, untouched⟩ := issues
  refine ⟨core, ⟨issued, effects, evolves, fun request membership =>
    weaker _ _ (sort request membership)⟩, fun kind other => ?_⟩
  exact untouched kind (fun payload held => other payload (weaker kind payload held))

theorem request (output : State × List Effect) (kind : RequestKind) (payload : kind.Payload)
    (sort : holds kind payload) : Issues holds output (issueRequest output kind payload) := by
  refine ⟨rfl, ⟨[⟨kind, output.1.pendingRequests.lastRequestId + 1, payload⟩], rfl,
    Evolves.issue _ _ _ _, ?_⟩, ?_⟩
  · intro request membership
    obtain rfl := List.mem_singleton.mp membership
    exact sort
  · intro other unused
    have distinct : other ≠ kind := by
      rintro rfl
      exact unused payload sort
    simp [issueRequest, RequestStore.issueRequest, distinct]

/-- A loop whose rounds only issue requests only issues requests. -/
theorem foldl {Item : Type} {round : State × List Effect → Item → State × List Effect}
    {items : List Item}
    (each : ∀ item ∈ items, ∀ output, Issues holds output (round output item))
    (output : State × List Effect) : Issues holds output (items.foldl round output) := by
  induction items generalizing output with
  | nil => exact Issues.refl output
  | cons item items inductionHypothesis =>
    exact (each item List.mem_cons_self output).trans
      (inductionHypothesis (fun other membership => each other (List.mem_cons_of_mem _ membership))
        _)

theorem blocks {first second : State × List Effect} (issues : Issues holds first second) :
    second.1.blocks = first.1.blocks := by
  rw [issues.core]

theorem poolRegistry {first second : State × List Effect} (issues : Issues holds first second) :
    second.1.poolRegistry = first.1.poolRegistry := by
  rw [issues.core]

theorem tokenRegistry {first second : State × List Effect} (issues : Issues holds first second) :
    second.1.tokenRegistry = first.1.tokenRegistry := by
  rw [issues.core]

/-- Requests are only added, apart from an identifier used twice. -/
theorem effects {first second : State × List Effect} (issues : Issues holds first second) :
    ∃ issued, second.2 = first.2 ++ issued := by
  obtain ⟨issued, appended, -⟩ := issues.issued
  exact ⟨issued, appended⟩

end Issues

/-! ### What is asked for -/

/-- The requests the scheduling chain may issue on a state. -/
def Scheduled (chain : ChainKey) (state : State) : (kind : RequestKind) → kind.Payload → Prop
  | .blockHeader, payload => payload.blockHash ∈ state.blocks.graph.missingParents
  | .blockLogs, payload => payload.blockHash ∈ state.blocks.graph.presentChainFromHead.map Prod.fst
  | .poolMetadata, payload =>
    (∃ candidate, candidate ∈ payload.candidates) ∧
      ∀ candidate ∈ payload.candidates, state.poolRegistry.isKnown chain candidate = false ∧
        ∃ block ∈ state.blocks.graph.poolLogCandidatesFromHead, candidate ∈ block.2
  | .tokenMetadata, payload =>
    ∀ token ∈ payload.tokens, state.tokenRegistry.isKnown token = false
  | .poolData, payload =>
    payload.at_ = state.blocks.graph.anchor.hash ∧
      payload.pools.toList.length ≤ finalizedPoolSeedChunk ∧
      ∀ pool ∈ payload.pools, pool ∈ state.poolRegistry.verifiedPools chain ∧
        pool ∉ state.blocks.finalizedSnapshot
  | .logsRange, _ => False
  | .canonicalHeader, _ => False

/-- What the stages after the header stage may ask for. -/
def ScheduledAfterHeaders (chain : ChainKey) (state : State) (kind : RequestKind)
    (payload : kind.Payload) : Prop :=
  kind ≠ .blockHeader ∧ Scheduled chain state kind payload

theorem Scheduled.of_sameCore {chain : ChainKey} {state state' : State}
    (same : SameCore state state') {kind : RequestKind} {payload : kind.Payload}
    (scheduled : Scheduled chain state' kind payload) : Scheduled chain state kind payload := by
  rw [same] at scheduled
  exact scheduled

theorem issues_requestMissingHeader {holds : (kind : RequestKind) → kind.Payload → Prop}
    (output : State × List Effect) (missingHash : BlockHash)
    (sort : holds .blockHeader ⟨missingHash⟩) :
    Issues holds output (requestMissingHeader output missingHash) := by
  unfold requestMissingHeader
  split
  · exact Issues.refl output
  · exact Issues.request output .blockHeader ⟨missingHash⟩ sort

theorem issues_missingHeaders (chain : ChainKey) (output : State × List Effect) :
    Issues (Scheduled chain output.1) output (scheduleMissingHeaderRequests output) :=
  Issues.foldl (fun missingHash membership output' =>
    issues_requestMissingHeader output' missingHash membership) output

theorem ScheduledAfterHeaders.of_sameCore {chain : ChainKey} {state state' : State}
    (same : SameCore state state') {kind : RequestKind} {payload : kind.Payload}
    (scheduled : ScheduledAfterHeaders chain state' kind payload) :
    ScheduledAfterHeaders chain state kind payload :=
  ⟨scheduled.1, scheduled.2.of_sameCore same⟩

theorem issues_unknownLogs [BloomHash] (chain : ChainKey) (output : State × List Effect) :
    Issues (ScheduledAfterHeaders chain output.1) output
      (scheduleUnknownCanonicalLogRequests chain output) := by
  refine Issues.foldl (fun hash membership output' => Issues.request output' .blockLogs ⟨hash⟩
    ⟨by decide, ?_⟩) output
  obtain ⟨entry, listed, rfl⟩ := List.mem_map.mp membership
  obtain ⟨index, found⟩ := List.mem_iff_getElem?.mp (List.mem_filter.mp listed).1
  rw [List.getElem?_zipIdx] at found
  obtain ⟨block, lookup, rfl⟩ := Option.map_eq_some_iff.mp found
  exact List.mem_map.mpr ⟨block, List.mem_of_getElem? lookup, rfl⟩

theorem issues_requestPoolCandidates {chain : ChainKey} {state : State}
    (pass : (State × List Effect) × HashSet ProtocolPoolKey) (same : SameCore state pass.1.1)
    {block : BlockHash × HashSet ProtocolPoolKey}
    (listed : block ∈ state.blocks.graph.poolLogCandidatesFromHead) :
    Issues (ScheduledAfterHeaders chain state) pass.1
      (requestPoolCandidates chain pass block).1 := by
  unfold requestPoolCandidates
  simp only
  split
  · exact Issues.refl pass.1
  · rename_i something
    refine Issues.request pass.1 .poolMetadata _ ⟨by decide, ?_, ?_⟩
    · rw [Std.ExtTreeSet.isEmpty_iff, Std.ExtTreeSet.eq_empty_iff_forall_not_mem] at something
      exact not_forall_not.mp something
    · intro candidate membership
      rw [HashSet.mem_collect, List.mem_filter] at membership
      have unknown := membership.2
      rw [same] at unknown
      simp only [Bool.and_eq_true, Bool.not_eq_true'] at unknown
      exact ⟨unknown.1, block, listed, Std.ExtTreeSet.mem_toList.mp membership.1⟩

theorem issues_poolMetadata (chain : ChainKey) (output : State × List Effect) :
    Issues (ScheduledAfterHeaders chain output.1) output
      (scheduleUnknownCanonicalPoolMetadataRequests chain
        output.1.blocks.graph.poolLogCandidatesFromHead output) := by
  unfold scheduleUnknownCanonicalPoolMetadataRequests
  generalize start : (output, PendingRequests.pendingPoolMetadataCandidates
    output.1.pendingRequests) = pass
  have issues : Issues (ScheduledAfterHeaders chain output.1) output pass.1 := by
    rw [← start]
    exact Issues.refl output
  clear start
  generalize listing : output.1.blocks.graph.poolLogCandidatesFromHead = candidates
  have listed : ∀ block ∈ candidates,
      block ∈ output.1.blocks.graph.poolLogCandidatesFromHead := by simp [listing]
  clear listing
  induction candidates generalizing pass with
  | nil => exact issues
  | cons block blocks inductionHypothesis =>
    apply inductionHypothesis
    · exact issues.trans
        (issues_requestPoolCandidates pass issues.core (listed block List.mem_cons_self))
    · exact fun other membership => listed other (List.mem_cons_of_mem _ membership)

theorem issues_requestCandidateTokens {chain : ChainKey} {state : State}
    (pass : (State × List Effect) × HashSet TokenAddress) (same : SameCore state pass.1.1)
    (block : BlockHash × HashSet ProtocolPoolKey) :
    Issues (ScheduledAfterHeaders chain state) pass.1
      (requestCandidateTokens chain pass block).1 := by
  unfold requestCandidateTokens
  simp only
  split
  · exact Issues.refl pass.1
  · refine Issues.request pass.1 .tokenMetadata _ ⟨by decide, ?_⟩
    intro token membership
    rw [HashSet.mem_collect, List.mem_filter] at membership
    have unknown := membership.2
    rw [same] at unknown
    simp only [Bool.and_eq_true, Bool.not_eq_true'] at unknown
    exact unknown.1

theorem issues_tokenMetadata (chain : ChainKey)
    (candidates : List (BlockHash × HashSet ProtocolPoolKey)) (output : State × List Effect) :
    Issues (ScheduledAfterHeaders chain output.1) output
      (scheduleUnknownCanonicalTokenMetadataRequests chain candidates output) := by
  unfold scheduleUnknownCanonicalTokenMetadataRequests
  generalize start : (output, PendingRequests.pendingTokenMetadataTokens
    output.1.pendingRequests) = pass
  have issues : Issues (ScheduledAfterHeaders chain output.1) output pass.1 := by
    rw [← start]
    exact Issues.refl output
  clear start
  induction candidates generalizing pass with
  | nil => exact issues
  | cons block blocks inductionHypothesis =>
    exact inductionHypothesis _
      (issues.trans (issues_requestCandidateTokens pass issues.core block))

theorem mem_uncoveredPools {chain : ChainKey} {state : State} {pool : PoolRef}
    (membership : pool ∈ uncoveredPools chain state) :
    pool ∈ state.poolRegistry.verifiedPools chain ∧ pool ∉ state.blocks.finalizedSnapshot := by
  obtain ⟨listed, uncovered⟩ := List.mem_filter.mp (List.mem_of_mem_take membership)
  refine ⟨Std.ExtTreeSet.mem_toList.mp listed, ?_⟩
  simp only [Bool.and_eq_true, Bool.not_eq_true'] at uncovered
  rw [← Std.ExtTreeMap.contains_iff_mem, uncovered.1]
  exact Bool.false_ne_true

theorem issues_poolSeeds (chain : ChainKey) (output : State × List Effect) :
    Issues (ScheduledAfterHeaders chain output.1) output (scheduleFinalizedPoolSeedRequests chain output) := by
  unfold scheduleFinalizedPoolSeedRequests
  split
  · exact Issues.refl output
  · simp only
    split
    · exact Issues.refl output
    · refine Issues.request output .poolData _ ⟨by decide, rfl, ?_, ?_⟩
      · exact (HashSet.length_toList_collect_le _).trans (List.length_take_le _ _)
      intro pool membership
      rw [HashSet.mem_collect] at membership
      exact mem_uncoveredPools membership

/-- The scheduling chain after the header stage. -/
def scheduleAfterHeaders [BloomHash] (chain : ChainKey) (output : State × List Effect) :
    State × List Effect :=
  let output := scheduleUnknownCanonicalLogRequests chain output
  let candidatesFromHead := output.1.blocks.graph.poolLogCandidatesFromHead
  let output := scheduleUnknownCanonicalPoolMetadataRequests chain candidatesFromHead output
  let output := scheduleUnknownCanonicalTokenMetadataRequests chain candidatesFromHead output
  scheduleFinalizedPoolSeedRequests chain output

theorem schedule_eq [BloomHash] (chain : ChainKey) (output : State × List Effect) :
    scheduleUnknownCanonicalRequests chain output =
      scheduleAfterHeaders chain (scheduleMissingHeaderRequests output) := rfl

theorem issues_afterHeaders [BloomHash] (chain : ChainKey) (output : State × List Effect) :
    Issues (ScheduledAfterHeaders chain output.1) output (scheduleAfterHeaders chain output) := by
  have logs := issues_unknownLogs chain output
  generalize first : scheduleUnknownCanonicalLogRequests chain output = output₁ at logs
  have pools := logs.trans ((issues_poolMetadata chain output₁).weaken
    (fun _ _ scheduled => scheduled.of_sameCore logs.core))
  generalize second : scheduleUnknownCanonicalPoolMetadataRequests chain
    output₁.1.blocks.graph.poolLogCandidatesFromHead output₁ = output₂ at pools
  have tokens := pools.trans ((issues_tokenMetadata chain
    output₁.1.blocks.graph.poolLogCandidatesFromHead output₂).weaken
    (fun _ _ scheduled => scheduled.of_sameCore pools.core))
  generalize third : scheduleUnknownCanonicalTokenMetadataRequests chain
    output₁.1.blocks.graph.poolLogCandidatesFromHead output₂ = output₃ at tokens
  have seeds := tokens.trans ((issues_poolSeeds chain output₃).weaken
    (fun _ _ scheduled => scheduled.of_sameCore tokens.core))
  simp only [scheduleAfterHeaders, first, second, third]
  exact seeds

theorem issues_schedule [BloomHash] (chain : ChainKey) (output : State × List Effect) :
    Issues (Scheduled chain output.1) output (scheduleUnknownCanonicalRequests chain output) := by
  have headers := issues_missingHeaders chain output
  rw [schedule_eq]
  exact headers.trans ((issues_afterHeaders chain _).weaken
    (fun _ _ scheduled => (scheduled.of_sameCore headers.core).2))

/-- The finality probe asks for the anchor's own height. -/
theorem issues_probe (hash : BlockHash) (number : UInt64) (output : State × List Effect) :
    Issues (fun kind payload =>
        (⟨kind, payload⟩ : (kind : RequestKind) × kind.Payload) =
          ⟨.canonicalHeader, ⟨output.1.blocks.graph.anchor.number⟩⟩) output
      (withFinalityProbeIfOrphanSuspected hash number output) := by
  unfold withFinalityProbeIfOrphanSuspected
  split
  · exact Issues.request output .canonicalHeader _ rfl
  · exact Issues.refl output

theorem issues_logRanges [BloomHash] (chain : ChainKey) (target : BlockHash)
    (output : State × List Effect) :
    Issues (fun kind _ => kind = .logsRange) output
      (scheduleMissingLogRangeRequests chain target output) :=
  Issues.foldl (fun _ _ output' => Issues.request output' .logsRange _ rfl) output

end ArmchairAnalyst.Kernel

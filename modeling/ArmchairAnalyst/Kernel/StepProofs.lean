import ArmchairAnalyst.Kernel.AdmissionProofs
import ArmchairAnalyst.Kernel.SchedulingProofs

/-!
# What one transition does

A transition absorbs the event into the state and then issues requests. The two
parts are separated here, so that a property of the state only has to be checked
against the absorbing part.
-/

namespace ArmchairAnalyst.Kernel

open RequestStore (Evolves)

/-- The answer that restarts the kernel: another block is canonical at the anchor's height. -/
def Reinitialises (state : State) : Event → Prop
  | .canonicalHeaderAtHeightReceived _ hash number =>
    number = state.blocks.graph.anchor.number ∧ hash ≠ state.blocks.graph.anchor.hash
  | _ => False

instance (state : State) (event : Event) : Decidable (Reinitialises state event) := by
  cases event <;> unfold Reinitialises <;> infer_instance

/-- The state after an answer has been matched with its request and applied. -/
def applied (state : State) (kind : RequestKind) (requestId : UInt64)
    (apply_ : State → kind.Payload → State) : State :=
  match state.take kind requestId with
  | (state, some request) => apply_ state request.payload
  | (state, none) => state

/-- The state a transition continues from, before any request is issued. -/
def absorb [BloomHash] (chain : ChainKey) (state : State) : Event → State
  | .headObserved hash parentHash logsBloom number =>
    (state.withLogHeadObserved hash parentHash number logsBloom (maxPendingBlocks chain)).1
  | .finalizedBlockObserved blockHash _ => state.withFinalizedBlockObserved chain blockHash
  | .blockHeaderReceived requestId hash parentHash logsBloom number =>
    ((state.withLogHeaderReceived hash parentHash number logsBloom (maxPendingBlocks chain)).take
      .blockHeader requestId).1
  | .blockHeaderNotFound requestId => (state.take .blockHeader requestId).1
  | .canonicalHeaderAtHeightReceived requestId _ _ => (state.take .canonicalHeader requestId).1
  | .blockLogsReceived requestId logs =>
    applied state .blockLogs requestId (fun state payload =>
      state.withLogComplete payload.blockHash logs)
  | .blockLogsRangeReceived requestId blocks =>
    applied state .logsRange requestId (fun state payload =>
      state.withLogsRange payload.covered blocks)
  | .logObserved blockHash logs =>
    if blockHash ∈ state.blocks.graph.nodes then state.withLogStreamed blockHash logs
    else state.withStreamedLogsBuffered blockHash logs
  | .poolMetadataReceived requestId metadata =>
    applied state .poolMetadata requestId (fun state payload =>
      let metadata := metadata.filter (fun candidate _ => payload.candidates.contains candidate)
      { state with poolRegistry := state.poolRegistry.withMetadataResults chain metadata })
  | .tokenMetadataReceived requestId metadata =>
    applied state .tokenMetadata requestId (fun state payload =>
      let metadata := metadata.filter (fun token _ => payload.tokens.contains token)
      { state with tokenRegistry := state.tokenRegistry.withMetadataResults metadata })
  | .poolDataReceived requestId pools =>
    applied state .poolData requestId (fun state payload =>
      state.withFinalizedPoolSeeds payload.at_ pools)
  | .requestFailed _ => state
  | .tick _ => { state with tick := state.tick.next }

/-- What a transition may newly ask for. -/
def Asked (chain : ChainKey) (absorbed : State) (kind : RequestKind) (payload : kind.Payload) :
    Prop :=
  kind ∈ [.blockHeader, .logsRange, .canonicalHeader] ∨ Scheduled chain absorbed kind payload

/-- A transition result: the absorbed state, with requests issued for a reason. -/
structure Continues (chain : ChainKey) (before absorbed : State) (result : State × List Effect) :
    Prop where
  core : SameCore absorbed result.1
  evolves : Evolves before.pendingRequests result.2 result.1.pendingRequests
  reasons : ∀ request ∈ result.2, Asked chain absorbed request.kind request.requestPayload ∨
    ∃ id, before.pendingRequests.InFlight ⟨request.kind, id, request.requestPayload⟩

/-- Requests issued from the absorbed state on. -/
theorem Continues.of_issues {chain : ChainKey} {before absorbed : State}
    {result : State × List Effect} (issues : Issues (Asked chain absorbed) (absorbed, []) result)
    (evolves : Evolves before.pendingRequests [] absorbed.pendingRequests) :
    Continues chain before absorbed result := by
  obtain ⟨core, ⟨issued, effects, evolves', sort⟩, -⟩ := issues
  obtain rfl : result.2 = issued := by simpa using effects
  exact ⟨core, evolves.trans evolves', fun request membership => .inl (sort request membership)⟩

theorem Continues.idle {chain : ChainKey} {before absorbed : State}
    (evolves : Evolves before.pendingRequests [] absorbed.pendingRequests) :
    Continues chain before absorbed (absorbed, []) :=
  .of_issues (Issues.refl _) evolves

/-! ### Requests after a state has been absorbed -/

theorem asked_schedule [BloomHash] {chain : ChainKey} {absorbed : State}
    {output : State × List Effect} (same : SameCore absorbed output.1) :
    Issues (Asked chain absorbed) output (scheduleUnknownCanonicalRequests chain output) :=
  (issues_schedule chain output).weaken (fun _ _ scheduled => .inr (scheduled.of_sameCore same))

theorem asked_probe {chain : ChainKey} {absorbed : State} (hash : BlockHash) (number : UInt64)
    (output : State × List Effect) :
    Issues (Asked chain absorbed) output
      (withFinalityProbeIfOrphanSuspected hash number output) := by
  refine (issues_probe hash number output).weaken (fun kind payload probe => .inl ?_)
  obtain ⟨rfl, -⟩ := Sigma.mk.inj probe
  simp

theorem asked_scheduleAndProbe [BloomHash] (chain : ChainKey) (hash : BlockHash)
    (number : UInt64) {absorbed : State} {output : State × List Effect}
    (same : SameCore absorbed output.1) :
    Issues (Asked chain absorbed) output (withFinalityProbeIfOrphanSuspected hash number
      (scheduleUnknownCanonicalRequests chain output)) :=
  (asked_schedule same).trans (asked_probe hash number _)

theorem asked_header {chain : ChainKey} {absorbed : State} (output : State × List Effect)
    (hash : BlockHash) :
    Issues (Asked chain absorbed) output (requestMissingHeader output hash) :=
  issues_requestMissingHeader output hash (.inl (by simp))

/-! ### Absorbing and the requests in flight -/

@[simp] theorem mapGraph_pendingRequests (state : State) (f : BlocksGraph → BlocksGraph) :
    (state.mapGraph f).pendingRequests = state.pendingRequests := rfl

@[simp] theorem withStreamedLogsDrained_pendingRequests (state : State) (hash : BlockHash) :
    (state.withStreamedLogsDrained hash).pendingRequests = state.pendingRequests := by
  unfold State.withStreamedLogsDrained
  split
  · rfl
  · split <;> rfl

@[simp] theorem withLogHeadObserved_pendingRequests (state : State) (hash parent : BlockHash)
    (number : UInt64) (bloom : Bloom) (maxPending : Nat) :
    (state.withLogHeadObserved hash parent number bloom maxPending).1.pendingRequests =
      state.pendingRequests := by
  simp [State.withLogHeadObserved]

@[simp] theorem withLogHeaderReceived_pendingRequests (state : State) (hash parent : BlockHash)
    (number : UInt64) (bloom : Bloom) (maxPending : Nat) :
    (state.withLogHeaderReceived hash parent number bloom maxPending).pendingRequests =
      state.pendingRequests := by
  simp [State.withLogHeaderReceived]

@[simp] theorem withLogComplete_pendingRequests (state : State) (hash : BlockHash)
    (logs : List PoolLog) :
    (state.withLogComplete hash logs).pendingRequests = state.pendingRequests := rfl

theorem foldl_withLogComplete_pendingRequests {Item : Type} (target : Item → BlockHash)
    (logs : Item → List PoolLog) (items : List Item) (state : State) :
    (items.foldl (fun state item => state.withLogComplete (target item) (logs item))
      state).pendingRequests = state.pendingRequests := by
  induction items generalizing state with
  | nil => rfl
  | cons item items inductionHypothesis =>
    rw [List.foldl_cons, inductionHypothesis, withLogComplete_pendingRequests]

@[simp] theorem withLogsRange_pendingRequests (state : State) (covered : HashSet BlockHash)
    (blocks : List (BlockHash × List PoolLog)) :
    (state.withLogsRange covered blocks).pendingRequests = state.pendingRequests := by
  exact (foldl_withLogComplete_pendingRequests (fun hash => hash) (fun _ => []) _ _).trans
    (foldl_withLogComplete_pendingRequests Prod.fst Prod.snd _ _)

theorem evolves_finalized [BloomHash] (state : State) (chain : ChainKey) (hash : BlockHash) :
    Evolves state.pendingRequests []
      (state.withFinalizedBlockObserved chain hash).pendingRequests := by
  unfold State.withFinalizedBlockObserved
  simp only
  split
  · exact PendingRequests.evolves_retainingBlockTargets _ _
  · exact Evolves.refl _

theorem evolves_take (state : State) (kind : RequestKind) (id : UInt64) :
    Evolves state.pendingRequests [] (state.take kind id).1.pendingRequests :=
  Evolves.take _ _ _

theorem evolves_applied (state : State) (kind : RequestKind) (id : UInt64)
    {apply_ : State → kind.Payload → State}
    (quiet : ∀ state payload, (apply_ state payload).pendingRequests = state.pendingRequests) :
    Evolves state.pendingRequests [] (applied state kind id apply_).pendingRequests := by
  unfold applied
  have taken := evolves_take state kind id
  generalize state.take kind id = result at taken
  obtain ⟨state', _ | request⟩ := result
  · exact taken
  · rw [quiet]
    exact taken

/-- Absorbing an event issues nothing. -/
theorem absorb_evolves [BloomHash] (chain : ChainKey) (state : State) (event : Event) :
    Evolves state.pendingRequests [] (absorb chain state event).pendingRequests := by
  cases event with
  | headObserved hash parent bloom number =>
    simp only [absorb, withLogHeadObserved_pendingRequests]
    exact Evolves.refl _
  | finalizedBlockObserved hash number => exact evolves_finalized state chain hash
  | blockHeaderReceived id hash parent bloom number =>
    have taken := evolves_take (state.withLogHeaderReceived hash parent number bloom
      (maxPendingBlocks chain)) .blockHeader id
    rw [withLogHeaderReceived_pendingRequests] at taken
    exact taken
  | blockHeaderNotFound id => exact evolves_take state _ _
  | canonicalHeaderAtHeightReceived id hash number => exact evolves_take state _ _
  | blockLogsReceived id logs =>
    exact evolves_applied state .blockLogs id
      (fun state payload => withLogComplete_pendingRequests state payload.blockHash logs)
  | blockLogsRangeReceived id blocks =>
    exact evolves_applied state .logsRange id (fun _ _ => withLogsRange_pendingRequests _ _ _)
  | logObserved hash logs =>
    simp only [absorb]
    split
    · exact Evolves.refl _
    · unfold State.withStreamedLogsBuffered
      split <;> exact Evolves.refl _
  | poolMetadataReceived id metadata =>
    apply evolves_applied state .poolMetadata id
    intro state payload
    rfl
  | tokenMetadataReceived id metadata =>
    apply evolves_applied state .tokenMetadata id
    intro state payload
    rfl
  | poolDataReceived id pools =>
    apply evolves_applied state .poolData id
    intro state payload
    rfl
  | requestFailed id => exact Evolves.refl _
  | tick order => exact Evolves.refl _

/-! ### The transition -/

/-- What a transition may do after absorbing the event. -/
inductive Follows [BloomHash] (chain : ChainKey) (state : State) (event : Event) :
    State × List Effect → Prop
  | idle : Follows chain state event (absorb chain state event, [])
  | selfParent {hash : BlockHash} {bloom : Bloom} {number : UInt64} :
    event = .headObserved hash hash bloom number →
    Follows chain state event (requestMissingHeader (absorb chain state event, []) hash)
  | scheduled :
    Follows chain state event
      (scheduleUnknownCanonicalRequests chain (absorb chain state event, []))
  | probed (hash : BlockHash) (number : UInt64) :
    Follows chain state event (withFinalityProbeIfOrphanSuspected hash number
      (scheduleUnknownCanonicalRequests chain (absorb chain state event, [])))
  | reissued {id : UInt64} {hash parent : BlockHash} {bloom : Bloom} {number : UInt64}
    {payload : GetBlockHeader} :
    event = .blockHeaderReceived id hash parent bloom number →
    state.pendingRequests.InFlight ⟨.blockHeader, id, payload⟩ → payload.blockHash ≠ hash →
    Follows chain state event (withFinalityProbeIfOrphanSuspected hash number
      (scheduleUnknownCanonicalRequests chain
        (issueRequest (absorb chain state event, []) .blockHeader payload)))
  | ranges (target : BlockHash) :
    Follows chain state event
      (scheduleMissingLogRangeRequests chain target (absorb chain state event, []))
  | retried (ids : List RequestId) (tick : Tick) :
    (absorb chain state event).pendingRequests = state.pendingRequests →
    Follows chain state event
      ({ absorb chain state event with
          pendingRequests := (state.pendingRequests.retryAll tick ids).1 },
        (state.pendingRequests.retryAll tick ids).2)

/-- A transition that makes progress returns what its handler returns. -/
theorem transition_of_output [BloomHash] {chain : ChainKey} {state : State} {event : Event}
    {output : State × List Effect}
    (progressed : transitionOutcome chain state event = .ofOutput output) :
    transition chain state event = output := by
  simp only [transition, progressed, TransitionOutcome.ofOutput]

theorem answered_cases [BloomHash] (chain : ChainKey) (state : State) (kind : RequestKind)
    (id : UInt64) (apply_ : State → kind.Payload → State) :
    answered chain state kind id apply_ = (applied state kind id apply_, []) ∨
      answered chain state kind id apply_ =
        scheduleUnknownCanonicalRequests chain (applied state kind id apply_, []) := by
  unfold answered applied
  generalize state.take kind id = result
  obtain ⟨state', _ | request⟩ := result
  · exact .inl rfl
  · exact .inr rfl

/-- An answer to a request in flight is applied to its payload and followed by the
scheduling chain. -/
theorem answered_inFlight [BloomHash] (chain : ChainKey) {state : State} {kind : RequestKind}
    {id : UInt64} {payload : kind.Payload}
    (inFlight : state.pendingRequests.InFlight ⟨kind, id, payload⟩)
    (apply_ : State → kind.Payload → State) :
    answered chain state kind id apply_ =
      scheduleUnknownCanonicalRequests chain (apply_ (state.take kind id).1 payload, []) := by
  obtain ⟨tick, found⟩ := inFlight
  have matched : (state.take kind id).2 = some ⟨payload, tick⟩ := found
  simp only [answered, matched]

/-- An answer to nothing in flight changes nothing. -/
theorem answered_stale [BloomHash] (chain : ChainKey) {state : State} {kind : RequestKind}
    {id : UInt64} (stale : ∀ payload, ¬ state.pendingRequests.InFlight ⟨kind, id, payload⟩)
    (apply_ : State → kind.Payload → State) :
    answered chain state kind id apply_ = ((state.take kind id).1, []) := by
  have unmatched : (state.take kind id).2 = none := by
    cases found : (state.take kind id).2 with
    | none => rfl
    | some request => exact absurd ⟨request.dispatchedAt, found⟩ (stale request.payload)
  simp only [answered, unmatched]

/-- An answered event is idle or followed by the scheduling chain. -/
theorem follows_answered [BloomHash] {chain : ChainKey} {state : State} {event : Event}
    {kind : RequestKind} {id : UInt64} {apply_ : State → kind.Payload → State}
    (absorbed : absorb chain state event = applied state kind id apply_)
    (handled : transition chain state event = answered chain state kind id apply_) :
    Follows chain state event (transition chain state event) := by
  rw [handled]
  rcases answered_cases chain state kind id apply_ with idle | scheduled
  · rw [idle, ← absorbed]
    exact .idle
  · rw [scheduled, ← absorbed]
    exact .scheduled

theorem withLogHeadObserved_selfParent {state : State} {hash parent : BlockHash}
    {number : UInt64} {bloom : Bloom} {maxPending : Nat}
    (refused : (state.withLogHeadObserved hash parent number bloom maxPending).2 = .selfParent) :
    parent = hash := by
  have admits := state.blocks.graph.withDataCapped_admits hash parent
    { number, logsBloom := some bloom, logs := .unknown } maxPending
  simp only [State.withLogHeadObserved, BlocksGraph.withBlockCapped] at refused
  generalize state.blocks.graph.withDataCapped hash parent
    { number, logsBloom := some bloom, logs := .unknown } maxPending = result at admits refused
  cases admits with
  | selfParent same => exact same.symm
  | _ => simp at refused

theorem headObserved_follows [BloomHash] (chain : ChainKey) (state : State)
    (hash parent : BlockHash) (bloom : Bloom) (number : UInt64) :
    Follows chain state (.headObserved hash parent bloom number)
      (transition chain state (.headObserved hash parent bloom number)) := by
  have own : absorb chain state (.headObserved hash parent bloom number) =
      (state.withLogHeadObserved hash parent number bloom (maxPendingBlocks chain)).1 := rfl
  have refusal : (state.withLogHeadObserved hash parent number bloom
      (maxPendingBlocks chain)).2 = .selfParent → parent = hash :=
    withLogHeadObserved_selfParent
  simp only [transition, transitionOutcome, headObserved]
  generalize state.withLogHeadObserved hash parent number bloom (maxPendingBlocks chain) =
    result at own refusal ⊢
  obtain ⟨absorbed, admission⟩ := result
  simp only at own refusal
  cases admission with
  | selfParent =>
    obtain rfl := refusal rfl
    simp only [TransitionOutcome.ofOutput, ← own]
    exact .selfParent rfl
  | duplicateBlock =>
    by_cases tip : hash = state.blocks.graph.observedHead
    · simp only [tip, if_true, ← own]
      exact .idle
    · simp only [tip, if_false, TransitionOutcome.ofOutput, ← own]
      exact .probed hash number
  | admitted =>
    simp only [TransitionOutcome.ofOutput, ← own]
    exact .probed hash number
  | anchorReadmitted =>
    simp only [TransitionOutcome.ofOutput, ← own]
    exact .probed hash number
  | conflictingParent =>
    simp only [TransitionOutcome.ofOutput, ← own]
    exact .probed hash number
  | pendingBufferFull =>
    simp only [TransitionOutcome.ofOutput, ← own]
    exact .probed hash number

theorem blockHeaderReceived_follows [BloomHash] (chain : ChainKey) (state : State)
    (id : UInt64) (hash parent : BlockHash) (bloom : Bloom) (number : UInt64) :
    Follows chain state (.blockHeaderReceived id hash parent bloom number)
      (transition chain state (.blockHeaderReceived id hash parent bloom number)) := by
  have handled : transition chain state (.blockHeaderReceived id hash parent bloom number) =
      blockHeaderReceived chain state id hash parent bloom number := transition_of_output rfl
  have own : absorb chain state (.blockHeaderReceived id hash parent bloom number) =
      ((state.withLogHeaderReceived hash parent number bloom (maxPendingBlocks chain)).take
        .blockHeader id).1 := rfl
  have inFlight : ∀ request, ((state.withLogHeaderReceived hash parent number bloom
      (maxPendingBlocks chain)).take .blockHeader id).2 = some request →
      state.pendingRequests.InFlight ⟨.blockHeader, id, request.payload⟩ := by
    intro request taken
    have found := RequestStore.inFlight_of_taken taken
    rwa [withLogHeaderReceived_pendingRequests] at found
  rw [handled]
  unfold blockHeaderReceived
  simp only
  generalize (state.withLogHeaderReceived hash parent number bloom (maxPendingBlocks chain)).take
    .blockHeader id = result at own inFlight ⊢
  obtain ⟨absorbed, _ | request⟩ := result
  · simp only at own ⊢
    rw [← own]
    exact .probed hash number
  · simp only at own inFlight ⊢
    rw [← own]
    by_cases other : request.payload.blockHash = hash
    · rw [if_neg (not_not.mpr other)]
      exact .probed hash number
    · rw [if_pos other]
      exact .reissued rfl (inFlight request rfl) other

/-- Every transition but a re-initialisation follows the absorbed state in one of these ways. -/
theorem transition_follows [BloomHash] (chain : ChainKey) (state : State) (event : Event)
    (keeps : ¬ Reinitialises state event) :
    Follows chain state event (transition chain state event) := by
  cases event with
  | headObserved hash parent bloom number =>
    exact headObserved_follows chain state hash parent bloom number
  | finalizedBlockObserved hash number =>
    rw [transition_of_output rfl]
    exact .ranges hash
  | blockHeaderReceived id hash parent bloom number =>
    exact blockHeaderReceived_follows chain state id hash parent bloom number
  | blockHeaderNotFound id =>
    rw [transition_of_output rfl]
    exact .idle
  | canonicalHeaderAtHeightReceived id hash number =>
    have result : canonicalHeaderAtHeightReceived state id hash number =
        ((state.take .canonicalHeader id).1, []) := if_neg keeps
    rw [transition_of_output rfl, result]
    exact .idle
  | blockLogsReceived id logs => exact follows_answered rfl (transition_of_output rfl)
  | blockLogsRangeReceived id blocks => exact follows_answered rfl (transition_of_output rfl)
  | logObserved hash logs =>
    rw [transition_of_output rfl]
    unfold logObserved
    by_cases present : hash ∈ state.blocks.graph.nodes
    · rw [if_pos present]
      have absorbed : absorb chain state (.logObserved hash logs) =
          state.withLogStreamed hash logs := if_pos present
      rw [← absorbed]
      exact .scheduled
    · rw [if_neg present]
      have absorbed : absorb chain state (.logObserved hash logs) =
          state.withStreamedLogsBuffered hash logs := if_neg present
      rw [← absorbed]
      exact .idle
  | poolMetadataReceived id metadata => exact follows_answered rfl (transition_of_output rfl)
  | tokenMetadataReceived id metadata => exact follows_answered rfl (transition_of_output rfl)
  | poolDataReceived id pools => exact follows_answered rfl (transition_of_output rfl)
  | requestFailed id =>
    rw [transition_of_output rfl]
    have once : requestFailed state id =
        ({ state with pendingRequests := (state.pendingRequests.retryAll state.tick [id]).1 },
          (state.pendingRequests.retryAll state.tick [id]).2) := by
      simp [requestFailed, RequestStore.retryAll]
    rw [once]
    exact .retried [id] state.tick rfl
  | tick order =>
    rw [transition_of_output rfl]
    exact .retried _ state.tick.next rfl

/-- A retry asks again for what was in flight. -/
theorem retried_reasons (store : RequestStore RequestKind.Payload) (ids : List RequestId)
    (tick : Tick) :
    ∀ request ∈ (store.retryAll tick ids).2,
      ∃ id, store.InFlight ⟨request.kind, id, request.requestPayload⟩ := by
  have all : RequestStore.AllPayloads
      (fun kind payload => ∃ id, store.InFlight ⟨kind, id, payload⟩) store :=
    fun request inFlight => ⟨request.requestId, inFlight⟩
  exact all.retryAll_issued ids tick

/-- Every transition but a re-initialisation continues from the absorbed state. -/
theorem transition_continues [BloomHash] (chain : ChainKey) (state : State) (event : Event)
    (keeps : ¬ Reinitialises state event) :
    Continues chain state (absorb chain state event) (transition chain state event) := by
  have follows := transition_follows chain state event keeps
  have evolves := absorb_evolves chain state event
  generalize transition chain state event = result at follows
  cases follows with
  | idle => exact .idle evolves
  | selfParent _ => exact .of_issues (asked_header _ _) evolves
  | scheduled => exact .of_issues (asked_schedule (SameCore.refl _)) evolves
  | probed hash number =>
    exact .of_issues (asked_scheduleAndProbe chain hash number (SameCore.refl _)) evolves
  | @reissued id hash parent bloom number payload _ _ _ =>
    have reissue : Issues (Asked chain (absorb chain state event)) (absorb chain state event, [])
        (issueRequest (absorb chain state event, []) .blockHeader payload) :=
      Issues.request _ .blockHeader _ (.inl (by simp))
    exact .of_issues (reissue.trans (asked_scheduleAndProbe chain hash number reissue.core)) evolves
  | ranges target =>
    exact .of_issues ((issues_logRanges chain target _).weaken
      (fun kind _ range => .inl (by simp [range]))) evolves
  | retried ids tick _ =>
    exact ⟨rfl, Evolves.retryAll _ _ _, fun request membership =>
      .inr (retried_reasons _ ids tick request membership)⟩

/-- A re-initialisation keeps the registries and starts everything else anew. -/
theorem transition_reinitialises [BloomHash] (chain : ChainKey) (state : State) (id : UInt64)
    {hash : BlockHash} {number : UInt64}
    (restarts : Reinitialises state (.canonicalHeaderAtHeightReceived id hash number)) :
    transition chain state (.canonicalHeaderAtHeightReceived id hash number) =
      ({ State.init hash number with
          poolRegistry := state.poolRegistry
          tokenRegistry := state.tokenRegistry }, []) := by
  have contradicts : number = (state.take .canonicalHeader id).1.blocks.graph.anchor.number ∧
      hash ≠ (state.take .canonicalHeader id).1.blocks.graph.anchor.hash := restarts
  rw [transition_of_output rfl]
  exact if_pos contradicts

end ArmchairAnalyst.Kernel

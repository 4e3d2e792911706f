import ArmchairAnalyst.Bootstrap.Exchanges

/-!
# Paging and retries of a bootstrap

However the scan is split into windows, and whatever fails, expires or is answered
twice, a bootstrap ends with what a single window and no failure end with. At the
deadline it ends with what has been accepted so far.
-/

namespace ArmchairAnalyst.Bootstrap

open RequestStore (Evolves Expects)

/-! ### What is assembled -/

def Exchange.anchor? : Exchange → Option FinalizedAnchor
  | ⟨.finalizedHeader, _, _, anchor⟩ => some anchor
  | _ => none

def Exchange.pools? : Exchange → Option (HashMap ProtocolPoolKey PoolMetadataResult)
  | ⟨.poolMetadata, _, _, metadata⟩ => some metadata
  | _ => none

def Exchange.tokens? : Exchange → Option (HashMap TokenAddress TokenMetadataResult)
  | ⟨.tokenMetadata, _, _, metadata⟩ => some metadata
  | _ => none

/-- What the accepted answers amount to: nothing without an anchor, and otherwise the
outcome with all of their blocks and metadata. -/
def assembled [FillerHash] (chain : ChainKey) (tipTrim : UInt64) (exchanges : List Exchange) :
    Completion :=
  match exchanges.findSome? Exchange.anchor? with
  | none => .abandoned
  | some anchor => .ready
      { anchor
        poolSnapshots := ∅
        poolRegistry := match exchanges.findSome? Exchange.pools? with
          | some metadata => TrustedPoolRegistry.new.withMetadataResults chain metadata
          | none => TrustedPoolRegistry.new
        tokenRegistry := match exchanges.findSome? Exchange.tokens? with
          | some metadata => TokenRegistry.new.withMetadataResults metadata
          | none => TokenRegistry.new
        seedBlocks := (GraphSeed.fromWindow (scannedBlocks exchanges) anchor tipTrim).blocks }

/-- The answers of a run with one window and no failure. -/
def unpagedRun (anchor : FinalizedAnchor) (blocks : List RangeLogBlock) (scanTip : UInt64)
    (pools : HashMap ProtocolPoolKey PoolMetadataResult)
    (tokens : HashMap TokenAddress TokenMetadataResult) : List Event :=
  [.finalizedHeaderReceived 1 anchor, .poolCandidatesReceived 2 blocks scanTip none,
    .poolMetadataReceived 3 pools, .tokenMetadataReceived 4 tokens]

theorem Scan.kinds {anchor : FinalizedAnchor} {windows : List Exchange}
    {next : Option GetPoolCandidatesInRange} (scan : Scan anchor windows next) :
    ∀ exchange ∈ windows, exchange.kind = .poolCandidates := by
  induction scan with
  | start => simp
  | window requestId answer _ inductionHypothesis =>
    intro exchange membership
    rcases List.mem_append.mp membership with earlier | last
    · exact inductionHypothesis exchange earlier
    · obtain rfl := List.mem_singleton.mp last
      rfl

/-- Windows bring neither an anchor nor metadata. -/
theorem Scan.findSome? {anchor : FinalizedAnchor} {windows : List Exchange}
    {next : Option GetPoolCandidatesInRange} (scan : Scan anchor windows next) :
    windows.findSome? Exchange.anchor? = none ∧ windows.findSome? Exchange.pools? = none ∧
      windows.findSome? Exchange.tokens? = none := by
  have kinds := scan.kinds
  simp only [List.findSome?_eq_none_iff]
  refine ⟨?_, ?_, ?_⟩
  all_goals
    rintro ⟨kind, requestId, payload, answer⟩ membership
    obtain rfl : kind = .poolCandidates := kinds _ membership
    rfl

variable [FillerHash] {chain : ChainKey} {policy : BootstrapPolicy} {state : State}
  {answered : List Exchange}

omit [FillerHash] in
/-- What the exchanges of a scan bring, with those that follow it. -/
theorem Scan.conversation {anchor : FinalizedAnchor} {windows : List Exchange}
    {next : Option GetPoolCandidatesInRange} (scan : Scan anchor windows next)
    (headerId : UInt64) (later : List Exchange) :
    (headerExchange headerId anchor :: windows ++ later).findSome? Exchange.anchor? = some anchor ∧
      (headerExchange headerId anchor :: windows ++ later).findSome? Exchange.pools? =
        later.findSome? Exchange.pools? ∧
      (headerExchange headerId anchor :: windows ++ later).findSome? Exchange.tokens? =
        later.findSome? Exchange.tokens? ∧
      scannedBlocks (headerExchange headerId anchor :: windows ++ later) =
        scannedBlocks windows ++ scannedBlocks later := by
  obtain ⟨-, pools, tokens⟩ := scan.findSome?
  refine ⟨rfl, ?_, ?_, ?_⟩
  · rw [List.findSome?_append, List.findSome?_cons]
    simp [headerExchange, Exchange.pools?, pools]
  · rw [List.findSome?_append, List.findSome?_cons]
    simp [headerExchange, Exchange.tokens?, tokens]
  · simp [scannedBlocks, headerExchange, Exchange.blocks]

/-- At the deadline every phase ends with what its exchanges amount to. -/
theorem completion_degraded {tipTrim : UInt64}
    {expected : Option ((kind : RequestKind) × kind.Payload)}
    (leads : LeadsTo chain tipTrim answered state.phase expected) (tick : Tick) :
    completion { state with tick, phase := degraded chain tipTrim state.phase } =
      some (assembled chain tipTrim answered) := by
  obtain ⟨store, phase, settings, startedAt, now⟩ := state
  simp only at leads
  cases leads with
  | anchoringChain => rfl
  | @discovering headerId anchor windows request scan =>
    obtain ⟨anchored, pools, tokens, blocks⟩ := scan.conversation headerId []
    rw [List.append_nil] at anchored pools tokens blocks
    simp only [completion, degraded, assembled, anchored, pools, tokens, blocks]
    simp [scannedBlocks]
  | @validatingPools headerId anchor windows scan =>
    obtain ⟨anchored, pools, tokens, blocks⟩ := scan.conversation headerId []
    rw [List.append_nil] at anchored pools tokens blocks
    simp only [completion, degraded, assembled, anchored, pools, tokens, blocks]
    simp [scannedBlocks]
  | @resolvingTokens headerId anchor windows poolsId metadata scan =>
    obtain ⟨anchored, pools, tokens, blocks⟩ := scan.conversation headerId
      [poolsExchange poolsId anchor (scannedBlocks windows) metadata]
    simp only [completion, degraded, assembled, anchored, pools, tokens, blocks]
    simp [poolsExchange, Exchange.pools?, Exchange.tokens?, scannedBlocks, Exchange.blocks,
      VerifiedPools.intoRegistry]
  | @ready headerId anchor windows poolsId metadata tokensId metadata' scan =>
    obtain ⟨anchored, pools, tokens, blocks⟩ := scan.conversation headerId
      [poolsExchange poolsId anchor (scannedBlocks windows) metadata,
        tokensExchange chain tokensId anchor ⟨metadata⟩ metadata']
    have bringsPools : [poolsExchange poolsId anchor (scannedBlocks windows) metadata,
        tokensExchange chain tokensId anchor ⟨metadata⟩ metadata'].findSome? Exchange.pools? =
          some metadata := rfl
    have bringsTokens : [poolsExchange poolsId anchor (scannedBlocks windows) metadata,
        tokensExchange chain tokensId anchor ⟨metadata⟩ metadata'].findSome? Exchange.tokens? =
          some metadata' := rfl
    have bringsBlocks : scannedBlocks [poolsExchange poolsId anchor (scannedBlocks windows) metadata,
        tokensExchange chain tokensId anchor ⟨metadata⟩ metadata'] = [] := rfl
    simp only [completion, degraded, assembled, anchored, pools, tokens, blocks, bringsPools,
      bringsTokens, bringsBlocks, List.append_nil, VerifiedPools.intoRegistry]

/-! ### The end of a bootstrap -/

/-- A finished bootstrap stays as it is. -/
theorem transition_finished {result : Completion} (finished : completion state = some result)
    (event : Event) : (transition chain state event).1.phase = state.phase := by
  obtain ⟨store, phase, settings, startedAt, tick⟩ := state
  cases phase with
  | anchoringChain => cases finished
  | discovering anchor blocks => cases finished
  | validatingPools anchor seed => cases finished
  | resolvingTokens anchor seed verified => cases finished
  | ready outcome =>
    cases event with
    | requestFailed id => rfl
    | tick order => rfl
    | _ => simp [transition, finalizedHeaderReceived, poolCandidatesReceived, poolMetadataReceived,
        tokenMetadataReceived, State.take]
  | abandoned =>
    cases event with
    | requestFailed id => rfl
    | tick order => rfl
    | _ => simp [transition, finalizedHeaderReceived, poolCandidatesReceived, poolMetadataReceived,
        tokenMetadataReceived, State.take]

theorem run_finished {result : Completion} (finished : completion state = some result)
    (events : List Event) : completion (run (transition chain) state events).1 = some result := by
  induction events generalizing state with
  | nil => exact finished
  | cons event events inductionHypothesis =>
    have next : completion (transition chain state event).1 = some result := by
      have kept : (transition chain state event).1.phase = state.phase :=
        transition_finished finished event
      unfold completion at finished ⊢
      rw [kept]
      exact finished
    exact inductionHypothesis next

/-- The tick that meets the deadline of an unfinished bootstrap ends it. -/
theorem tick_at_deadline {order : IterationOrder} (late : ¬ BeforeDeadline state (.tick order)) :
    (transition chain state (.tick order)).1 =
      { state with
        tick := state.tick.next
        phase := degraded chain state.policy.tipTrim state.phase } := by
  obtain ⟨unfinished, late⟩ := Classical.not_imp.mp late
  replace late := not_not.mp late
  obtain ⟨store, phase, settings, startedAt, tick⟩ := state
  cases phase with
  | ready outcome => cases unfinished
  | abandoned => cases unfinished
  | _ => simp [transition, ticked, if_pos late]

/-- One window and no failure lead to the outcome with its blocks. -/
theorem unpagedRun_completes (anchor : FinalizedAnchor) (blocks : List RangeLogBlock)
    (scanTip : UInt64) (pools : HashMap ProtocolPoolKey PoolMetadataResult)
    (tokens : HashMap TokenAddress TokenMetadataResult) :
    completion (run (transition chain) (init policy).1
        (unpagedRun anchor blocks scanTip pools tokens)).1 =
      some (.ready
        { anchor
          poolSnapshots := ∅
          poolRegistry := (VerifiedPools.mk pools).intoRegistry chain
          tokenRegistry := TokenRegistry.new.withMetadataResults tokens
          seedBlocks := (GraphSeed.fromWindow blocks anchor policy.tipTrim).blocks }) := by
  simp [unpagedRun, run, transition, init, State.advance, State.take, finalizedHeaderReceived,
    poolCandidatesReceived, poolMetadataReceived, tokenMetadataReceived,
    RequestStore.issueRequest, RequestStore.takeRequest, RequestStore.withCollection,
    RequestStore.new, completion]

/-- Only the exchange of a header brings an anchor. -/
theorem assembled_eq_abandoned_iff (chain : ChainKey) (tipTrim : UInt64)
    (exchanges : List Exchange) :
    assembled chain tipTrim exchanges = .abandoned ↔
      ∀ exchange ∈ exchanges, exchange.kind ≠ .finalizedHeader := by
  have brings : ∀ exchange : Exchange,
      exchange.anchor? = none ↔ exchange.kind ≠ .finalizedHeader := by
    rintro ⟨kind, requestId, payload, answer⟩
    cases kind <;> simp [Exchange.anchor?]
  have headers : exchanges.findSome? Exchange.anchor? = none ↔
      ∀ exchange ∈ exchanges, exchange.kind ≠ .finalizedHeader := by
    simp only [List.findSome?_eq_none_iff, brings]
  rw [← headers]
  unfold assembled
  split
  · simp_all
  · simp_all

/-- A run that is finished before the deadline has accepted one answer to each request of
a whole scan and to the two metadata requests, and has their outcome. -/
theorem exchanges_of_finished {events : List Event}
    (before : AllowedAlong (transition chain) BeforeDeadline (init policy).1 events)
    {result : Completion}
    (finished : completion (run (transition chain) (init policy).1 events).1 = some result) :
    ∃ headerId anchor windows poolsId pools tokensId tokens,
      Scan anchor windows none ∧
      exchanges chain policy events =
        headerExchange headerId anchor :: windows ++
          [poolsExchange poolsId anchor (scannedBlocks windows) pools,
            tokensExchange chain tokensId anchor ⟨pools⟩ tokens] ∧
      result = .ready
        { anchor
          poolSnapshots := ∅
          poolRegistry := (VerifiedPools.mk pools).intoRegistry chain
          tokenRegistry := TokenRegistry.new.withMetadataResults tokens
          seedBlocks := (GraphSeed.fromWindow (scannedBlocks windows) anchor policy.tipTrim).blocks } := by
  obtain ⟨-, expected, leads, -⟩ := run_tracks before
  generalize exchanges chain policy events = answered at leads
  generalize (run (transition chain) (init policy).1 events).1 = state at leads finished
  obtain ⟨store, phase, settings, startedAt, tick⟩ := state
  simp only at leads
  cases leads with
  | @ready headerId anchor windows poolsId pools tokensId tokens scan =>
    obtain rfl := Option.some.inj finished
    exact ⟨headerId, anchor, windows, poolsId, pools, tokensId, tokens, scan, rfl, rfl⟩
  | anchoringChain => cases finished
  | discovering scan => cases finished
  | validatingPools scan => cases finished
  | resolvingTokens scan => cases finished

/-- However it is paged and whatever fails, a run that is finished before the deadline ends
for good with the outcome of the run with a single window. -/
theorem insensitive_to_paging (chain : ChainKey) (policy : BootstrapPolicy) (events : List Event)
    (before : AllowedAlong (transition chain) BeforeDeadline (init policy).1 events)
    {result : Completion}
    (finished : completion (run (transition chain) (init policy).1 events).1 = some result) :
    (∃ headerId anchor windows poolsId pools tokensId tokens,
      Scan anchor windows none ∧
      exchanges chain policy events =
        headerExchange headerId anchor :: windows ++
          [poolsExchange poolsId anchor (scannedBlocks windows) pools,
            tokensExchange chain tokensId anchor ⟨pools⟩ tokens] ∧
      ∀ scanTip, completion (run (transition chain) (init policy).1
        (unpagedRun anchor (scannedBlocks windows) scanTip pools tokens)).1 = some result) ∧
      ∀ more, completion (run (transition chain) (init policy).1 (events ++ more)).1 =
        some result := by
  constructor
  · obtain ⟨headerId, anchor, windows, poolsId, pools, tokensId, tokens, scan, accepted, rfl⟩ :=
      exchanges_of_finished before finished
    exact ⟨headerId, anchor, windows, poolsId, pools, tokensId, tokens, scan, accepted,
      fun scanTip => unpagedRun_completes anchor _ scanTip pools tokens⟩
  · intro more
    rw [run_append]
    exact run_finished finished more

/-- A failed window whose answer comes after all, and is ignored. -/
def lateWindow : List Event :=
  [.finalizedHeaderReceived 1 ⟨0x10, 100⟩, .requestFailed ⟨.poolCandidates, 2⟩,
    .poolCandidatesReceived 2 [⟨103, 0x33, []⟩] 105 (some 104),
    .poolCandidatesReceived 3 [⟨103, 0x30, []⟩] 105 (some 104),
    .poolCandidatesReceived 4 [⟨105, 0x31, []⟩] 105 none,
    .poolMetadataReceived 5 ∅, .tokenMetadataReceived 6 ∅]

omit [FillerHash] in
theorem insensitive_to_paging_lateWindow :
    letI : FillerHash := ⟨fun _ _ => 0⟩
    ∃ result, ∀ more, completion (run (transition .ethereum) (init ⟨0, 60⟩).1
      (lateWindow ++ more)).1 = some result := by
  let _ : FillerHash := ⟨fun _ _ => 0⟩
  have finished : (completion (run (transition .ethereum) (init ⟨0, 60⟩).1 lateWindow).1).isSome := by
    decide +kernel
  obtain ⟨result, completed⟩ := Option.isSome_iff_exists.mp finished
  exact ⟨result, (insensitive_to_paging .ethereum ⟨0, 60⟩ lateWindow
    (by simp [lateWindow, AllowedAlong, BeforeDeadline]) completed).2⟩

/-- At the deadline a bootstrap ends for good with what it has accepted so far, and it is
abandoned just when it has not accepted an anchor. -/
theorem deadline_keeps_what_was_accepted (chain : ChainKey) (policy : BootstrapPolicy)
    (events : List Event)
    (before : AllowedAlong (transition chain) BeforeDeadline (init policy).1 events)
    {order : IterationOrder}
    (late : ¬ BeforeDeadline (run (transition chain) (init policy).1 events).1 (.tick order))
    (more : List Event) :
    completion (run (transition chain) (init policy).1 (events ++ .tick order :: more)).1 =
        some (assembled chain policy.tipTrim (exchanges chain policy events)) ∧
      (completion (run (transition chain) (init policy).1 (events ++ .tick order :: more)).1 =
          some .abandoned ↔
        ∀ exchange ∈ exchanges chain policy events, exchange.kind ≠ .finalizedHeader) := by
  obtain ⟨configured, expected, leads, -⟩ := run_tracks before
  rw [run_append]
  generalize exchanges chain policy events = answered at leads ⊢
  generalize (run (transition chain) (init policy).1 events).1 = state at *
  have ends : completion (run (transition chain) state (.tick order :: more)).1 =
      some (assembled chain policy.tipTrim answered) := by
    have ended : completion (transition chain state (.tick order)).1 =
        some (assembled chain policy.tipTrim answered) := by
      rw [tick_at_deadline late, configured]
      exact completion_degraded leads state.tick.next
    exact run_finished ended more
  refine ⟨ends, ?_⟩
  rw [ends, Option.some_inj]
  exact assembled_eq_abandoned_iff chain policy.tipTrim answered

omit [FillerHash] in
/-- The failed window is asked for again, and the deadline comes after its second answer. -/
theorem deadline_keeps_what_was_accepted_lateWindow :
    letI : FillerHash := ⟨fun _ _ => 0⟩
    (exchanges .ethereum ⟨0, 1⟩ (lateWindow.take 4)).map (·.requestId) = [1, 3] ∧
      ∀ more,
        completion (run (transition .ethereum) (init ⟨0, 1⟩).1
            (lateWindow.take 4 ++ .tick .ascending :: more)).1 =
          some (assembled .ethereum 0 (exchanges .ethereum ⟨0, 1⟩ (lateWindow.take 4))) ∧
        completion (run (transition .ethereum) (init ⟨0, 1⟩).1
            (lateWindow.take 4 ++ .tick .ascending :: more)).1 ≠ some .abandoned := by
  let _ : FillerHash := ⟨fun _ _ => 0⟩
  have before : AllowedAlong (transition .ethereum) BeforeDeadline (init ⟨0, 1⟩).1
      (lateWindow.take 4) := by simp [lateWindow, AllowedAlong, BeforeDeadline]
  have late : ¬ BeforeDeadline (run (transition .ethereum) (init ⟨0, 1⟩).1 (lateWindow.take 4)).1
      (.tick .ascending) := by
    intro early
    exact early (by decide +kernel) (by decide +kernel)
  have anchored : ∃ exchange ∈ exchanges .ethereum ⟨0, 1⟩ (lateWindow.take 4),
      exchange.kind = .finalizedHeader := by decide +kernel
  refine ⟨by decide +kernel, fun more => ?_⟩
  obtain ⟨ended, abandoned⟩ :=
    deadline_keeps_what_was_accepted .ethereum ⟨0, 1⟩ (lateWindow.take 4) before late more
  refine ⟨ended, fun gone => ?_⟩
  obtain ⟨exchange, listed, header⟩ := anchored
  exact abandoned.mp gone exchange listed header

/-! ### Superseded requests -/

/-- Every request that a run has issued, the first one included. -/
def issued (chain : ChainKey) (policy : BootstrapPolicy) (events : List Event) : List Effect :=
  (init policy).2 ++ (run (transition chain) (init policy).1 events).2

omit [FillerHash] in
theorem advance_evolves {pending : PendingRequests} (current : state.pending = pending)
    (phase : Phase) (kind : RequestKind) (payload : kind.Payload) :
    Evolves pending (state.advance phase kind payload).2
      (state.advance phase kind payload).1.pending := by
  rw [← current]
  exact Evolves.issue state.pending kind payload state.tick

/-- An answer takes its request and issues what follows. -/
theorem answer_evolves {event : Event} {requestId : UInt64} {kind : RequestKind}
    {answer : kind.Answer} (answers : event.answer? = some ⟨requestId, kind, answer⟩) :
    Evolves (state.pending.takeRequest kind requestId).1 (transition chain state event).2
      (transition chain state event).1.pending := by
  cases event with
  | finalizedHeaderReceived id anchor =>
    obtain ⟨rfl, same⟩ := Prod.mk.inj (Option.some.inj answers)
    obtain ⟨rfl, -⟩ := Sigma.mk.inj same
    simp only [transition, finalizedHeaderReceived]
    split
    · rename_i taken _
      obtain ⟨rfl, -⟩ := Prod.mk.inj taken
      apply advance_evolves
      rfl
    · rename_i taken _
      rw [← congrArg Prod.fst taken]
      exact Evolves.refl _
  | poolCandidatesReceived id blocks scanTip nextFrom =>
    obtain ⟨rfl, same⟩ := Prod.mk.inj (Option.some.inj answers)
    obtain ⟨rfl, -⟩ := Sigma.mk.inj same
    simp only [transition, poolCandidatesReceived]
    split
    · rename_i taken _
      obtain ⟨rfl, -⟩ := Prod.mk.inj taken
      split
      · apply advance_evolves
        rfl
      · apply advance_evolves
        rfl
    · rename_i taken _
      rw [← congrArg Prod.fst taken]
      exact Evolves.refl _
  | poolMetadataReceived id metadata =>
    obtain ⟨rfl, same⟩ := Prod.mk.inj (Option.some.inj answers)
    obtain ⟨rfl, -⟩ := Sigma.mk.inj same
    simp only [transition, poolMetadataReceived]
    split
    · rename_i taken _
      obtain ⟨rfl, -⟩ := Prod.mk.inj taken
      apply advance_evolves
      rfl
    · rename_i taken _
      rw [← congrArg Prod.fst taken]
      exact Evolves.refl _
  | tokenMetadataReceived id metadata =>
    obtain ⟨rfl, same⟩ := Prod.mk.inj (Option.some.inj answers)
    obtain ⟨rfl, -⟩ := Sigma.mk.inj same
    simp only [transition, tokenMetadataReceived]
    split
    · rename_i taken _
      obtain ⟨rfl, -⟩ := Prod.mk.inj taken
      exact Evolves.refl _
    · rename_i taken _
      rw [← congrArg Prod.fst taken]
      exact Evolves.refl _
  | requestFailed id => cases answers
  | tick order => cases answers

theorem transition_evolves (event : Event) :
    Evolves state.pending (transition chain state event).2
      (transition chain state event).1.pending := by
  cases answers : event.answer? with
  | some answer =>
    obtain ⟨requestId, kind, answer⟩ := answer
    exact (Evolves.take state.pending kind requestId).trans (answer_evolves answers)
  | none =>
    cases event with
    | requestFailed id => exact Evolves.retry state.pending id state.tick
    | tick order =>
      simp only [transition, ticked]
      split
      · exact Evolves.refl _
      · exact Evolves.refl _
      · split
        · exact Evolves.refl _
        · exact Evolves.retryAll _ _ _
    | finalizedHeaderReceived id anchor => cases answers
    | poolCandidatesReceived id blocks scanTip nextFrom => cases answers
    | poolMetadataReceived id metadata => cases answers
    | tokenMetadataReceived id metadata => cases answers

theorem run_evolves (events : List Event) :
    Evolves state.pending (run (transition chain) state events).2
      (run (transition chain) state events).1.pending := by
  induction events generalizing state with
  | nil => exact Evolves.refl _
  | cons event events inductionHypothesis =>
    exact (transition_evolves event).trans inductionHypothesis

theorem issued_evolves (events : List Event) :
    Evolves RequestStore.new (issued chain policy events)
      (run (transition chain) (init policy).1 events).1.pending := by
  have first : Evolves (RequestStore.new : PendingRequests) (init policy).2
      (init policy).1.pending := by
    apply advance_evolves
    rfl
  exact first.trans (run_evolves events)

theorem issued_append (first second : List Event) :
    issued chain policy (first ++ second) = issued chain policy first ++
      (run (transition chain) (run (transition chain) (init policy).1 first).1 second).2 := by
  simp [issued, run_append]

omit [FillerHash] in
/-- An exchange is completed by an answer to a request in flight. -/
theorem inFlight_of_exchange {event : Event} {exchange : Exchange}
    (completes : exchange? state event = some exchange) :
    event.answer? = some ⟨exchange.requestId, exchange.kind, exchange.answer⟩ ∧
      state.pending.InFlight exchange.request := by
  unfold exchange? at completes
  split at completes
  · rename_i requestId kind answer answers
    split at completes
    · obtain ⟨pending, found, rfl⟩ := Option.map_eq_some_iff.mp completes
      exact ⟨answers, RequestStore.inFlight_of_taken found⟩
    · cases completes
  · cases completes

/-- Every exchange of a run is an issued request with an answer to it. -/
theorem exchange_of_run {events : List Event} {exchange : Exchange}
    (membership : exchange ∈ exchanges chain policy events) :
    exchange.request ∈ issued chain policy events ∧
      ∃ event ∈ events,
        event.answer? = some ⟨exchange.requestId, exchange.kind, exchange.answer⟩ := by
  obtain ⟨taken, event, rest, rfl, completes⟩ := exists_of_mem_yieldsAlong membership
  obtain ⟨answers, inFlight⟩ := inFlight_of_exchange (Option.mem_toList.mp completes)
  refine ⟨?_, event, by simp, answers⟩
  rw [issued_append]
  exact List.mem_append_left _ (((issued_evolves taken).inFlight _ inFlight).resolve_right
    (RequestStore.not_inFlight_new _))

/-- An event that comes after a request was superseded completes no exchange under its
identifier. -/
theorem not_completed_of_superseded {first second : List Event}
    (bounded : (issued chain policy (first ++ second)).length < 2 ^ 64) {request : IssuedRequest}
    (handed : request ∈ issued chain policy first)
    (superseded :
      ¬ (run (transition chain) (init policy).1 first).1.pending.InFlight request)
    {event : Event} {exchange : Exchange}
    (completes : exchange? (run (transition chain) (init policy).1 (first ++ second)).1 event =
      some exchange) : exchange.requestId ≠ request.requestId := by
  rw [run_append] at completes
  rw [issued_append] at bounded
  exact (issued_evolves first).superseded (run_evolves second) bounded handed superseded
    (inFlight_of_exchange completes).2

/-- What is superseded after some steps is not answered by later ones, as long as the
identifiers have not come round. -/
theorem superseded_never_answered (chain : ChainKey) (policy : BootstrapPolicy)
    (first second : List Event) (bounded : (issued chain policy (first ++ second)).length < 2 ^ 64)
    {request : IssuedRequest} (handed : request ∈ issued chain policy first)
    (superseded :
      ¬ (run (transition chain) (init policy).1 first).1.pending.InFlight request) :
    ∀ exchange ∈ yieldsAlong (transition chain) (fun state event => (exchange? state event).toList)
        (run (transition chain) (init policy).1 first).1 second,
      exchange.requestId ≠ request.requestId := by
  intro exchange membership
  obtain ⟨taken, event, rest, rfl, completes⟩ := exists_of_mem_yieldsAlong membership
  have within : (issued chain policy (first ++ taken)).length < 2 ^ 64 := by
    rw [← List.append_assoc, issued_append] at bounded
    rw [List.length_append] at bounded
    omega
  apply not_completed_of_superseded within handed superseded
  rw [run_append]
  exact Option.mem_toList.mp completes

omit [FillerHash] in
theorem superseded_never_answered_lateWindow :
    letI : FillerHash := ⟨fun _ _ => 0⟩
    ¬ ∃ exchange ∈ yieldsAlong (transition .ethereum)
        (fun state event => (exchange? state event).toList)
        (run (transition .ethereum) (init ⟨0, 60⟩).1 (lateWindow.take 2)).1 (lateWindow.drop 2),
      exchange.requestId = 2 := by
  let _ : FillerHash := ⟨fun _ _ => 0⟩
  have handed : (⟨.poolCandidates, 2, ⟨100, none⟩⟩ : IssuedRequest) ∈
      issued .ethereum ⟨0, 60⟩ (lateWindow.take 2) := by
    simp [issued, lateWindow, run, init, State.advance, transition, finalizedHeaderReceived,
      State.take, RequestStore.issueRequest, RequestStore.takeRequest, RequestStore.new,
      RequestStore.withCollection]
  have gone : ((run (transition .ethereum) (init ⟨0, 60⟩).1
      (lateWindow.take 2)).1.pending.collection .poolCandidates)[(2 : UInt64)]?.isNone := by
    decide +kernel
  rintro ⟨exchange, completed, answered⟩
  refine superseded_never_answered .ethereum ⟨0, 60⟩ (lateWindow.take 2) (lateWindow.drop 2)
    (by decide +kernel) handed ?_ exchange completed answered
  rintro ⟨tick, found⟩
  rw [found] at gone
  cases gone

/-- The request of an exchange is superseded by the step that completes it. -/
theorem not_inFlight_of_exchange (events : List Event) {event : Event}
    (bounded : (issued chain policy (events ++ [event])).length < 2 ^ 64) {exchange : Exchange}
    (completes : exchange? (run (transition chain) (init policy).1 events).1 event =
      some exchange) :
    ¬ (run (transition chain) (init policy).1 (events ++ [event])).1.pending.InFlight
      exchange.request := by
  rw [issued_append] at bounded
  rw [run_append]
  have before : Evolves RequestStore.new (issued chain policy events)
      (run (transition chain) (init policy).1 events).1.pending := issued_evolves events
  generalize (run (transition chain) (init policy).1 events).1 = state at *
  obtain ⟨answers, inFlight⟩ := inFlight_of_exchange completes
  have handed : exchange.request ∈ issued chain policy events :=
    (before.inFlight _ inFlight).resolve_right (RequestStore.not_inFlight_new _)
  have taken := before.trans (Evolves.take state.pending exchange.kind exchange.requestId)
  rw [List.append_nil] at taken
  have bounded' : (issued chain policy events ++ (transition chain state event).2).length <
      2 ^ 64 := by
    simpa [run] using bounded
  intro again
  have gone := RequestStore.not_inFlight_take state.pending exchange.kind exchange.requestId
    exchange.requestPayload
  exact taken.superseded (answer_evolves answers) bounded' handed gone again rfl

/-- Two exchanges of a run are for different requests. -/
theorem exchanges_distinct {taken rest : List Event} {event last : Event}
    (bounded : (issued chain policy (taken ++ event :: rest ++ [last])).length < 2 ^ 64)
    {first second : Exchange}
    (completes : exchange? (run (transition chain) (init policy).1 taken).1 event = some first)
    (completes' : exchange? (run (transition chain) (init policy).1 (taken ++ event :: rest)).1
      last = some second) : second.requestId ≠ first.requestId := by
  rw [List.append_cons taken] at completes'
  have shorter : (issued chain policy (taken ++ [event] ++ rest)).length < 2 ^ 64 := by
    rw [List.append_cons taken, issued_append, List.length_append] at bounded
    omega
  have within : (issued chain policy (taken ++ [event])).length < 2 ^ 64 := by
    rw [issued_append, List.length_append] at shorter
    omega
  have handed : first.request ∈ issued chain policy (taken ++ [event]) := by
    rw [issued_append]
    exact List.mem_append_left _ (((issued_evolves taken).inFlight _
      (inFlight_of_exchange completes).2).resolve_right (RequestStore.not_inFlight_new _))
  -- the identifier of the first exchange is superseded right after it
  have superseded := not_inFlight_of_exchange taken within completes
  exact not_completed_of_superseded shorter handed superseded completes'

/-- Every request is answered at most once, as long as the identifiers have not come round. -/
theorem exchanges_nodup (chain : ChainKey) (policy : BootstrapPolicy) (events : List Event)
    (bounded : (issued chain policy events).length < 2 ^ 64) :
    ((exchanges chain policy events).map (·.requestId)).Nodup := by
  induction events using List.reverseRecOn with
  | nil => simp [exchanges, yieldsAlong]
  | append_singleton events last inductionHypothesis =>
    have shorter : (issued chain policy events).length < 2 ^ 64 := by
      rw [issued_append, List.length_append] at bounded
      omega
    have distinct := inductionHypothesis shorter
    have split : exchanges chain policy (events ++ [last]) = exchanges chain policy events ++
        (exchange? (run (transition chain) (init policy).1 events).1 last).toList := by
      simp [exchanges, yieldsAlong_append, yieldsAlong]
    rw [split]
    cases completes : exchange? (run (transition chain) (init policy).1 events).1 last with
    | none => simpa using distinct
    | some second =>
      rw [Option.toList_some, List.map_append, List.nodup_append']
      refine ⟨distinct, by simp, ?_⟩
      rw [List.map_singleton, List.disjoint_singleton]
      intro earlier
      obtain ⟨first, membership, same⟩ := List.mem_map.mp earlier
      obtain ⟨taken, event, rest, rfl, completed⟩ := exists_of_mem_yieldsAlong membership
      exact exchanges_distinct bounded (Option.mem_toList.mp completed) completes same.symm

omit [FillerHash] in
theorem exchanges_nodup_lateWindow :
    letI : FillerHash := ⟨fun _ _ => 0⟩
    ((exchanges .ethereum ⟨0, 60⟩ lateWindow).map (·.requestId)).Nodup := by
  let _ : FillerHash := ⟨fun _ _ => 0⟩
  exact exchanges_nodup .ethereum ⟨0, 60⟩ lateWindow (by decide +kernel)

end ArmchairAnalyst.Bootstrap

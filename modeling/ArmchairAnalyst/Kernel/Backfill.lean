import ArmchairAnalyst.Kernel.BackfillGraph
import ArmchairAnalyst.Kernel.HeaderRetry

/-!
# Header backfill

A head far above the known chain is followed down by header requests. Answered
truthfully they reconnect the chain exactly when the staging area can hold all
blocks of the gap but its lowest one.
-/

namespace ArmchairAnalyst.Kernel

/-- A kernel during a backfill, with the header requests it has made. -/
structure Backfill where
  state : State
  outstanding : List (UInt64 × BlockHash)
  requested : List BlockHash

section

variable [BloomHash] (chain : ChainKey) {length : Nat} (blocks : HonestChain length)

def Backfill.start (state : State) : Backfill :=
  let header := blocks.header length
  let (state, effects) := transition chain state
    (.headObserved (blocks.hash length) header.parentHash header.logsBloom header.number)
  { state
    outstanding := headerRequests effects
    requested := (headerRequests effects).map Prod.snd }

def Backfill.answer (backfill : Backfill) (id : UInt64) (hash : BlockHash) (header : Header) :
    Backfill :=
  let (state, effects) := transition chain backfill.state
    (.blockHeaderReceived id hash header.parentHash header.logsBloom header.number)
  { state
    outstanding := backfill.outstanding.erase (id, hash) ++ headerRequests effects
    requested := backfill.requested ++ (headerRequests effects).map Prod.snd }

/-- One outstanding request is answered truthfully. -/
inductive Answered : Backfill → Backfill → Prop
  | answer {backfill : Backfill} {id : UInt64} {i : Nat} : i ≤ length →
    (id, blocks.hash i) ∈ backfill.outstanding →
    Answered backfill (backfill.answer chain id (blocks.hash i) (blocks.header i))

/-- Every missing block was asked for once, and the chain is connected and canonical. -/
structure Reconnected (j : Nat) (backfill : Backfill) : Prop where
  answered : backfill.outstanding = []
  once : backfill.requested.Nodup
  missing : ∀ hash, hash ∈ backfill.requested ↔ ∃ i, j < i ∧ i < length ∧ hash = blocks.hash i
  connected : ∀ hash ∈ backfill.state.blocks.graph.nodes,
    (backfill.state.blocks.graph.connected hash).isSome
  canonical : backfill.state.blocks.graph.canonicalOldestToNewest =
    (List.range length).map (fun i => blocks.hash (i + 1))

/-- The answers come to an end in every order, and then the chain is reconnected. -/
def Settles (j : Nat) (backfill : Backfill) : Prop :=
  Acc (fun later earlier => Answered chain blocks earlier later) backfill ∧
    ∀ last, Relation.ReflTransGen (Answered chain blocks) backfill last →
      (∀ later, ¬ Answered chain blocks last later) → Reconnected blocks j last

def Reconnects (j : Nat) (state : State) : Prop :=
  Settles chain blocks j (Backfill.start chain blocks state)

/-- The state before the newest block is announced. -/
structure PrefixConnected (j : Nat) (state : State) : Prop where
  reached : Reached chain state
  graph : state.blocks.graph.Prefix blocks j
  head : state.blocks.graph.observedHead = blocks.hash j
  idle : ∀ i, j < i → i < length → ∀ id,
    ¬ state.pendingRequests.InFlight ⟨.blockHeader, id, ⟨blocks.hash i⟩⟩

end

/-! ### The header requests of one transition -/

theorem headerRequests_of_issues {first second : State × List Effect}
    (issues : Issues (fun kind _ => kind ≠ .blockHeader) first second) :
    headerRequests second.2 = headerRequests first.2 ∧
      second.1.pendingRequests.collection .blockHeader =
        first.1.pendingRequests.collection .blockHeader := by
  obtain ⟨-, ⟨issued, effects, -, sort⟩, untouched⟩ := issues
  constructor
  · have none : headerRequests issued = [] := by
      rw [headerRequests, List.filterMap_eq_nil_iff]
      rintro ⟨kind, id, payload⟩ membership
      have other := sort _ membership
      cases kind with
      | blockHeader => exact absurd rfl other
      | _ => rfl
    rw [effects, headerRequests, List.filterMap_append]
    exact (congrArg _ none).trans (List.append_nil _)
  · exact untouched .blockHeader (fun payload other => other rfl)

section

variable [BloomHash] (chain : ChainKey)

theorem issues_afterHeaderStage (hash : BlockHash) (number : UInt64)
    (output : State × List Effect) :
    Issues (fun kind _ => kind ≠ .blockHeader) (scheduleMissingHeaderRequests output)
      (withFinalityProbeIfOrphanSuspected hash number
        (scheduleUnknownCanonicalRequests chain output)) := by
  rw [schedule_eq]
  apply Issues.trans
  · exact (issues_afterHeaders chain _).weaken (fun kind _ scheduled => scheduled.1)
  · refine (issues_probe hash number _).weaken (fun kind payload probe => ?_)
    obtain ⟨rfl, -⟩ := Sigma.mk.inj probe
    simp

theorem scheduled_quiet {state : State} (hash : BlockHash) (number : UInt64)
    (settled : state.blocks.graph.missingParents = []) :
    headerRequests (withFinalityProbeIfOrphanSuspected hash number
      (scheduleUnknownCanonicalRequests chain (state, []))).2 = [] := by
  have stage : scheduleMissingHeaderRequests (state, []) = (state, []) := by
    simp only [scheduleMissingHeaderRequests, settled, List.foldl_nil]
  have later := headerRequests_of_issues (issues_afterHeaderStage chain hash number (state, []))
  rw [stage] at later
  exact later.1

theorem scheduled_asks {state : State} (hash : BlockHash) (number : UInt64)
    {missing : BlockHash} (only : state.blocks.graph.missingParents = [missing])
    (idle : ∀ id, ¬ state.pendingRequests.InFlight ⟨.blockHeader, id, ⟨missing⟩⟩) :
    let output := withFinalityProbeIfOrphanSuspected hash number
      (scheduleUnknownCanonicalRequests chain (state, []))
    ∃ id, headerRequests output.2 = [(id, missing)] ∧
      output.1.pendingRequests.InFlight ⟨.blockHeader, id, ⟨missing⟩⟩ ∧
      ∀ other ≠ missing, ∀ id', output.1.pendingRequests.InFlight ⟨.blockHeader, id', ⟨other⟩⟩ →
        state.pendingRequests.InFlight ⟨.blockHeader, id', ⟨other⟩⟩ := by
  have stage : scheduleMissingHeaderRequests (state, []) =
      issueRequest (state, []) .blockHeader ⟨missing⟩ := by
    simp only [scheduleMissingHeaderRequests, only, List.foldl_cons, List.foldl_nil]
    apply if_neg
    rw [hasPendingHeaderRequest_iff]
    exact fun ⟨id, inFlight⟩ => idle id inFlight
  obtain ⟨asked, untouched⟩ := headerRequests_of_issues
    (issues_afterHeaderStage chain hash number (state, []))
  rw [stage] at asked untouched
  refine ⟨state.pendingRequests.lastRequestId + 1, asked, ?_, ?_⟩
  · unfold RequestStore.InFlight
    rw [untouched]
    exact RequestStore.inFlight_issue _ _ _ _
  · intro other different id' inFlight
    unfold RequestStore.InFlight at inFlight
    rw [untouched] at inFlight
    rcases RequestStore.inFlight_of_issue inFlight with issued | earlier
    · simp only [AnyIssuedRequest.mk.injEq, heq_eq_eq, true_and] at issued
      exact absurd (GetBlockHeader.mk.inj issued.2) different
    · exact earlier

end

/-! ### The newest block -/

/-- A head that is not its own parent is followed by the scheduling chain, unless it
is the head already. -/
theorem transition_headObserved [BloomHash] (chain : ChainKey) (state : State)
    {hash parent : BlockHash} (proper : hash ≠ parent) (bloom : Bloom) (number : UInt64) :
    let absorbed := absorb chain state (.headObserved hash parent bloom number)
    transition chain state (.headObserved hash parent bloom number) = (absorbed, []) ∧
        hash = state.blocks.graph.observedHead ∨
      transition chain state (.headObserved hash parent bloom number) =
        withFinalityProbeIfOrphanSuspected hash number
          (scheduleUnknownCanonicalRequests chain (absorbed, [])) := by
  have own : absorb chain state (.headObserved hash parent bloom number) =
      (state.withLogHeadObserved hash parent number bloom (maxPendingBlocks chain)).1 := rfl
  have refusal : (state.withLogHeadObserved hash parent number bloom
      (maxPendingBlocks chain)).2 ≠ .selfParent :=
    fun refused => proper (withLogHeadObserved_selfParent refused).symm
  simp only [transition, transitionOutcome, headObserved]
  generalize state.withLogHeadObserved hash parent number bloom (maxPendingBlocks chain) =
    result at own refusal ⊢
  obtain ⟨absorbed, admission⟩ := result
  rw [own]
  cases admission with
  | selfParent => exact absurd rfl refusal
  | duplicateBlock =>
    by_cases tip : hash = state.blocks.graph.observedHead
    · exact .inl ⟨by simp only [tip, if_true], tip⟩
    · right
      simp only [tip, if_false, TransitionOutcome.ofOutput]
  | admitted => exact .inr rfl
  | anchorReadmitted => exact .inr rfl
  | conflictingParent => exact .inr rfl
  | pendingBufferFull => exact .inr rfl

theorem observedHead_present {graph : BlocksGraph} {hash : BlockHash}
    (present : hash = graph.anchor.hash ∨ hash ∈ graph.nodes) :
    (graph.withObservedHead hash).observedHead = hash := by
  rw [BlocksGraph.withObservedHead, if_pos present]

/-! ### Waiting for a block -/

/-- Block `m` is being asked for and everything above it is staged. -/
structure Waiting [BloomHash] (chain : ChainKey) {length : Nat} (blocks : HonestChain length)
    (base : BlocksGraph) (j m : Nat) (backfill : Backfill) (id : UInt64) : Prop where
  reached : Reached chain backfill.state
  gap : backfill.state.blocks.graph.Gap blocks base m
  head : backfill.state.blocks.graph.observedHead = blocks.hash length
  above : j < m
  below : m < length
  outstanding : backfill.outstanding = [(id, blocks.hash m)]
  inFlight : backfill.state.pendingRequests.InFlight ⟨.blockHeader, id, ⟨blocks.hash m⟩⟩
  idle : ∀ i, j < i → i < m → ∀ id',
    ¬ backfill.state.pendingRequests.InFlight ⟨.blockHeader, id', ⟨blocks.hash i⟩⟩

section

variable [BloomHash] {chain : ChainKey} {length : Nat} {blocks : HonestChain length}
  {base : BlocksGraph} {j m : Nat} {backfill : Backfill} {id : UInt64}

theorem waiting_of_scheduled (settled : base.Prefix blocks j) {absorbed : State}
    (gap : absorbed.blocks.graph.Gap blocks base m)
    (head : absorbed.blocks.graph.observedHead = blocks.hash length)
    (above : j < m) (below : m < length)
    (idle : ∀ i, j < i → i ≤ m → ∀ id',
      ¬ absorbed.pendingRequests.InFlight ⟨.blockHeader, id', ⟨blocks.hash i⟩⟩)
    {hash : BlockHash} {number : UInt64} {result : State × List Effect}
    (scheduled : result = withFinalityProbeIfOrphanSuspected hash number
      (scheduleUnknownCanonicalRequests chain (absorbed, [])))
    (reached : Reached chain result.1) (requested : List BlockHash) :
    ∃ id', headerRequests result.2 = [(id', blocks.hash m)] ∧
      Waiting chain blocks base j m ⟨result.1, headerRequests result.2, requested⟩ id' := by
  obtain ⟨id', asked, inFlight, others⟩ := scheduled_asks chain hash number
    (gap.missingParents settled above below) (idle m above (Nat.le_refl m))
  rw [← scheduled] at asked inFlight others
  have same : result.1.blocks = absorbed.blocks := by
    rw [scheduled]
    exact (issues_probe _ _ _).blocks.trans (issues_schedule chain (absorbed, [])).blocks
  refine ⟨id', asked, reached, ?_, ?_, above, below, asked, inFlight, ?_⟩
  · simp only [same]
    exact gap
  · simp only [same]
    exact head
  · intro i higher lower id'' again
    apply idle i higher (Nat.le_of_lt lower) id''
    apply others _ _ _ again
    exact blocks.hash_ne (by omega) (by omega) (by omega)

namespace Waiting

theorem answered_iff (waiting : Waiting chain blocks base j m backfill id) (later : Backfill) :
    Answered chain blocks backfill later ↔
      later = backfill.answer chain id (blocks.hash m) (blocks.header m) := by
  constructor
  · intro answered
    cases answered with
    | @answer id' i within listed =>
      rw [waiting.outstanding, List.mem_singleton, Prod.mk.injEq] at listed
      obtain ⟨rfl, same⟩ := listed
      rw [blocks.distinct i within m (Nat.le_of_lt waiting.below) same]
  · rintro rfl
    apply Answered.answer (Nat.le_of_lt waiting.below)
    rw [waiting.outstanding]
    exact List.mem_singleton_self _

theorem transition_answer (waiting : Waiting chain blocks base j (m + 1) backfill id) :
    let header := blocks.header (m + 1)
    transition chain backfill.state (.blockHeaderReceived id (blocks.hash (m + 1))
        header.parentHash header.logsBloom header.number) =
      withFinalityProbeIfOrphanSuspected (blocks.hash (m + 1)) header.number
        (scheduleUnknownCanonicalRequests chain
          (absorb chain backfill.state (.blockHeaderReceived id (blocks.hash (m + 1))
            (blocks.hash m) header.logsBloom header.number), [])) := by
  simp only
  rw [← blocks.linked m (Nat.lt_of_succ_lt waiting.below)]
  exact transition_requestedHeader chain waiting.inFlight _ _ _

/-- What the answer leaves in flight was in flight, and the answered block is not. -/
theorem answer_idle (waiting : Waiting chain blocks base j (m + 1) backfill id)
    (parent : BlockHash) (bloom : Bloom) (number : UInt64) :
    ∀ i, j < i → i ≤ m + 1 → ∀ id', ¬ (absorb chain backfill.state
      (.blockHeaderReceived id (blocks.hash (m + 1)) parent bloom number)).pendingRequests.InFlight
        ⟨.blockHeader, id', ⟨blocks.hash i⟩⟩ := by
  intro i higher lower id'
  by_cases answered : i = m + 1
  · rw [answered]
    exact answered_idle waiting.reached.headersUnique waiting.inFlight parent bloom number id'
  · intro inFlight
    have evolves := absorb_evolves chain backfill.state
      (.blockHeaderReceived id (blocks.hash (m + 1)) parent bloom number)
    apply waiting.idle i higher (by omega) id'
    exact (evolves.inFlight _ inFlight).resolve_left List.not_mem_nil

theorem answer_head (waiting : Waiting chain blocks base j (m + 1) backfill id)
    (parent : BlockHash) (bloom : Bloom) (number : UInt64) :
    (absorb chain backfill.state (.blockHeaderReceived id (blocks.hash (m + 1)) parent bloom
      number)).blocks.graph.observedHead = blocks.hash length := by
  have same : (absorb chain backfill.state (.blockHeaderReceived id (blocks.hash (m + 1)) parent
      bloom number)).blocks.graph.observedHead = backfill.state.blocks.graph.observedHead :=
    (drained_observedHead _ _).trans (BlocksGraph.withDataCapped_observedHead _ _ _ _ _)
  rw [same, waiting.head]

theorem answer_waits (settled : base.Prefix blocks j)
    (waiting : Waiting chain blocks base j (m + 1) backfill id) {next : Nat} (above : j < next)
    (below : next ≤ m + 1)
    (gap : (absorb chain backfill.state (.blockHeaderReceived id (blocks.hash (m + 1))
      (blocks.hash m) (blocks.header (m + 1)).logsBloom
      (blocks.header (m + 1)).number)).blocks.graph.Gap blocks base next) :
    let later := backfill.answer chain id (blocks.hash (m + 1)) (blocks.header (m + 1))
    ∃ id', Waiting chain blocks base j next later id' ∧
      later.requested = backfill.requested ++ [blocks.hash next] := by
  have within := waiting.below
  obtain ⟨id', asked, waits⟩ := waiting_of_scheduled settled gap
    (waiting.answer_head _ _ _) above (by omega)
    (fun i higher lower => waiting.answer_idle _ _ _ i higher (by omega))
    waiting.transition_answer (.step waiting.reached trivial)
    (backfill.requested ++ [blocks.hash next])
  refine ⟨id', ?_, ?_⟩
  · refine { waits with outstanding := ?_ }
    simp only [Backfill.answer, waiting.outstanding, asked]
    simp
  · simp only [Backfill.answer, asked]
    rfl

/-- While there is room the answered block is staged. -/
theorem stage (settled : base.Prefix blocks j)
    (waiting : Waiting chain blocks base j (m + 1) backfill id) (above : j < m)
    (room : length - (m + 1) < maxPendingBlocks chain) :
    let later := backfill.answer chain id (blocks.hash (m + 1)) (blocks.header (m + 1))
    ∃ id', Waiting chain blocks base j m later id' ∧
      later.requested = backfill.requested ++ [blocks.hash m] := by
  apply waiting.answer_waits settled above (Nat.le_succ m)
  apply drained_keeps (fun graph => graph.Gap blocks base m)
  · exact fun _ gap => gap.modifyData _ _
  · exact waiting.gap.stage settled above (Nat.lt_of_succ_lt waiting.below) room _

/-- Once the staging area is full the answered block is asked for again. -/
theorem refuse (settled : base.Prefix blocks j)
    (waiting : Waiting chain blocks base j (m + 1) backfill id) (above : j < m)
    (full : maxPendingBlocks chain ≤ length - (m + 1)) :
    let later := backfill.answer chain id (blocks.hash (m + 1)) (blocks.header (m + 1))
    ∃ id', Waiting chain blocks base j (m + 1) later id' ∧
      later.requested = backfill.requested ++ [blocks.hash (m + 1)] := by
  apply waiting.answer_waits settled waiting.above (Nat.le_refl _)
  have unchanged := headerReceived_refused
    (waiting.gap.absent settled waiting.above (Nat.le_refl _) (Nat.le_of_lt waiting.below))
    (waiting.gap.refuse settled above (Nat.lt_of_succ_lt waiting.below) full)
    (blocks.header (m + 1)).number (blocks.header (m + 1)).logsBloom
  have same : (absorb chain backfill.state (.blockHeaderReceived id (blocks.hash (m + 1))
      (blocks.hash m) (blocks.header (m + 1)).logsBloom
      (blocks.header (m + 1)).number)).blocks.graph = backfill.state.blocks.graph :=
    congrArg (fun state => state.blocks.graph) unchanged
  rw [same]
  exact waiting.gap

end Waiting

structure Finished (chain : ChainKey) (blocks : HonestChain length) (backfill : Backfill) :
    Prop where
  reached : Reached chain backfill.state
  closed : backfill.state.blocks.graph.Closed blocks
  head : backfill.state.blocks.graph.observedHead = blocks.hash length
  outstanding : backfill.outstanding = []

theorem finished_of_scheduled {absorbed : State} (closed : absorbed.blocks.graph.Closed blocks)
    (head : absorbed.blocks.graph.observedHead = blocks.hash length)
    {hash : BlockHash} {number : UInt64} {result : State × List Effect}
    (scheduled : result = withFinalityProbeIfOrphanSuspected hash number
      (scheduleUnknownCanonicalRequests chain (absorbed, [])))
    (reached : Reached chain result.1) (requested : List BlockHash) :
    headerRequests result.2 = [] ∧
      Finished chain blocks ⟨result.1, headerRequests result.2, requested⟩ := by
  have quiet := scheduled_quiet chain hash number
    (BlocksGraph.Gap.missingParents_settled closed.settled)
  rw [← scheduled] at quiet
  have same : result.1.blocks = absorbed.blocks := by
    rw [scheduled]
    exact (issues_probe _ _ _).blocks.trans (issues_schedule chain (absorbed, [])).blocks
  refine ⟨quiet, reached, ?_, ?_, quiet⟩
  · simp only [same]
    exact closed
  · simp only [same]
    exact head

theorem Waiting.close (settled : base.Prefix blocks j)
    (waiting : Waiting chain blocks base j (j + 1) backfill id) :
    let later := backfill.answer chain id (blocks.hash (j + 1)) (blocks.header (j + 1))
    Finished chain blocks later ∧ later.requested = backfill.requested := by
  have closed : (absorb chain backfill.state (.blockHeaderReceived id (blocks.hash (j + 1))
      (blocks.hash j) (blocks.header (j + 1)).logsBloom
      (blocks.header (j + 1)).number)).blocks.graph.Closed blocks := by
    apply drained_keeps (fun graph => graph.Closed blocks)
    · exact fun _ closed => closed.modifyData _ _
    · apply waiting.gap.close settled (Nat.lt_of_succ_lt waiting.below)
      exact waiting.reached.built.wellFormed.withDataCapped _ _ _ _
  obtain ⟨quiet, finished⟩ := finished_of_scheduled closed (waiting.answer_head _ _ _)
    waiting.transition_answer (.step waiting.reached trivial) backfill.requested
  refine ⟨{ finished with outstanding := ?_ }, ?_⟩
  · simp only [Backfill.answer, waiting.outstanding, quiet]
    simp
  · simp only [Backfill.answer, quiet]
    simp

/-! ### The announcement -/

theorem announced_keeps (chain : ChainKey) (keeps : BlocksGraph → Prop) {state : State} {hash parent : BlockHash}
    (proper : hash ≠ parent) {bloom : Bloom} {number : UInt64}
    (drains : ∀ graph logs, keeps graph → keeps (graph.withStreamedLogs hash logs))
    (observes : ∀ graph, keeps graph → keeps (graph.withObservedHead hash))
    (admitted : keeps (state.blocks.graph.withBlockCapped hash parent number bloom
      (maxPendingBlocks chain)).1) :
    keeps (absorb chain state (.headObserved hash parent bloom number)).blocks.graph := by
  have own : absorb chain state (.headObserved hash parent bloom number) =
      (state.withLogHeadObserved hash parent number bloom (maxPendingBlocks chain)).1 := rfl
  rw [own, headObserved_state proper]
  apply drained_keeps keeps
  · exact drains _
  · exact observes _ admitted

theorem announced_head (chain : ChainKey) {state : State} {hash parent : BlockHash} (proper : hash ≠ parent)
    {bloom : Bloom} {number : UInt64}
    (present : hash = (state.blocks.graph.withBlockCapped hash parent number bloom
        (maxPendingBlocks chain)).1.anchor.hash ∨
      hash ∈ (state.blocks.graph.withBlockCapped hash parent number bloom
        (maxPendingBlocks chain)).1.nodes) :
    (absorb chain state (.headObserved hash parent bloom number)).blocks.graph.observedHead =
      hash := by
  have own : absorb chain state (.headObserved hash parent bloom number) =
      (state.withLogHeadObserved hash parent number bloom (maxPendingBlocks chain)).1 := rfl
  rw [own, headObserved_state proper, drained_observedHead]
  exact observedHead_present present

theorem start_eq (state : State) :
    Backfill.start chain blocks state =
      let result := transition chain state (.headObserved (blocks.hash length)
        (blocks.header length).parentHash (blocks.header length).logsBloom
        (blocks.header length).number)
      ⟨result.1, headerRequests result.2, (headerRequests result.2).map Prod.snd⟩ := rfl

theorem finished_of_announced {state : State} (reached : Reached chain state)
    (closed : (state.blocks.graph.withBlockCapped (blocks.hash length)
      (blocks.header length).parentHash (blocks.header length).number
      (blocks.header length).logsBloom (maxPendingBlocks chain)).1.Closed blocks) :
    Finished chain blocks (Backfill.start chain blocks state) ∧
      (Backfill.start chain blocks state).requested = [] := by
  have proper := blocks.proper (Nat.le_refl length)
  have closed' := announced_keeps chain (fun graph => graph.Closed blocks) proper
    (fun _ _ closed => closed.modifyData _ _) (fun _ closed => closed.withObservedHead _) closed
  have head := announced_head chain proper closed.headPresent
  have reached' : Reached chain (transition chain state (.headObserved (blocks.hash length)
    (blocks.header length).parentHash (blocks.header length).logsBloom
    (blocks.header length).number)).1 := .step reached trivial
  rw [start_eq]
  rcases transition_headObserved chain state proper (blocks.header length).logsBloom
    (blocks.header length).number with ⟨idle, -⟩ | scheduled
  · rw [idle] at reached' ⊢
    exact ⟨⟨reached', closed', head, rfl⟩, rfl⟩
  · obtain ⟨quiet, finished⟩ := finished_of_scheduled closed' head scheduled reached' []
    simp only [quiet] at finished ⊢
    exact ⟨finished, rfl⟩

/-- A head that connects at once, or is known, ends the backfill before it starts. -/
theorem start_finished {state : State} (before : PrefixConnected chain blocks j state)
    (near : length ≤ j + 1) :
    Finished chain blocks (Backfill.start chain blocks state) ∧
      (Backfill.start chain blocks state).requested = [] := by
  apply finished_of_announced before.reached
  rcases Nat.lt_or_ge j length with below | beyond
  · obtain rfl : length = j + 1 := Nat.le_antisymm near below
    rw [blocks.linked j below]
    apply before.graph.gap.close before.graph below
    exact before.reached.built.wellFormed.withDataCapped _ _ _ _
  · obtain rfl : j = length := Nat.le_antisymm before.graph.within beyond
    have refused : ¬ state.blocks.graph.Accepts (blocks.hash j) (blocks.header j).parentHash
        (maxPendingBlocks chain) := by
      rintro ⟨-, away, absent, -⟩
      rw [before.graph.anchor] at away
      cases j with
      | zero => exact away rfl
      | succ i =>
        exact absent (BlocksGraph.connectedUp_mem (before.graph.connected i (Nat.lt_succ_self i)).1)
    have same := BlocksGraph.withDataCapped_refused refused
      { number := (blocks.header j).number, logsBloom := some (blocks.header j).logsBloom,
        logs := .unknown }
    rw [BlocksGraph.withBlockCapped, same]
    exact before.graph.closed

theorem start_waits {state : State} (before : PrefixConnected chain blocks j state)
    (far : j < m) (next : m + 1 = length) :
    ∃ id, Waiting chain blocks state.blocks.graph j m (Backfill.start chain blocks state) id ∧
      (Backfill.start chain blocks state).requested = [blocks.hash m] := by
  subst next
  have below : m < m + 1 := Nat.lt_succ_self m
  have proper := blocks.proper (Nat.le_refl (m + 1))
  have gap : (state.blocks.graph.withBlockCapped (blocks.hash (m + 1))
      (blocks.header (m + 1)).parentHash (blocks.header (m + 1)).number
      (blocks.header (m + 1)).logsBloom (maxPendingBlocks chain)).1.Gap blocks
        state.blocks.graph m := by
    rw [blocks.linked m below]
    apply before.graph.gap.stage before.graph far below
    rw [Nat.sub_self]
    exact maxPendingBlocks_pos chain
  have gap' := announced_keeps chain (fun graph => graph.Gap blocks _ m) proper
    (fun _ _ gap => gap.modifyData _ _) (fun _ gap => gap.withObservedHead _) gap
  have head := announced_head chain proper (.inr (gap.headPresent below))
  have reached : Reached chain (transition chain state (.headObserved (blocks.hash (m + 1))
    (blocks.header (m + 1)).parentHash (blocks.header (m + 1)).logsBloom
    (blocks.header (m + 1)).number)).1 := .step before.reached trivial
  rw [start_eq]
  rcases transition_headObserved chain state proper (blocks.header (m + 1)).logsBloom
    (blocks.header (m + 1)).number with ⟨-, tip⟩ | scheduled
  · rw [before.head] at tip
    have equal := blocks.distinct (m + 1) (Nat.le_refl _) j (by omega) tip
    omega
  · have idle : ∀ i, j < i → i ≤ m → ∀ id, ¬ (absorb chain state (.headObserved
        (blocks.hash (m + 1)) (blocks.header (m + 1)).parentHash
        (blocks.header (m + 1)).logsBloom
        (blocks.header (m + 1)).number)).pendingRequests.InFlight
          ⟨.blockHeader, id, ⟨blocks.hash i⟩⟩ := by
      intro i higher lower id inFlight
      have evolves := absorb_evolves chain state (.headObserved (blocks.hash (m + 1))
        (blocks.header (m + 1)).parentHash (blocks.header (m + 1)).logsBloom
        (blocks.header (m + 1)).number)
      apply before.idle i higher (by omega) id
      exact (evolves.inFlight _ inFlight).resolve_left List.not_mem_nil
    obtain ⟨id, asked, waiting⟩ := waiting_of_scheduled before.graph gap' head far below idle
      scheduled reached [blocks.hash m]
    refine ⟨id, ?_, ?_⟩
    · simp only [asked] at waiting ⊢
      exact waiting
    · simp only [asked, List.map_cons, List.map_nil]

/-! ### The whole backfill -/

/-- The blocks from `m` on, apart from the newest one, have each been asked for once. -/
def AskedFrom (blocks : HonestChain length) (m : Nat) (requested : List BlockHash) : Prop :=
  requested.Nodup ∧ ∀ hash, hash ∈ requested ↔ ∃ i, m ≤ i ∧ i < length ∧ hash = blocks.hash i

omit [BloomHash] in
theorem AskedFrom.snoc {requested : List BlockHash}
    (asked : AskedFrom blocks (m + 1) requested) (below : m < length) :
    AskedFrom blocks m (requested ++ [blocks.hash m]) := by
  obtain ⟨distinct, members⟩ := asked
  constructor
  · rw [List.nodup_append]
    refine ⟨distinct, List.nodup_singleton _, ?_⟩
    rintro hash membership _ last rfl
    obtain rfl := List.mem_singleton.mp last
    obtain ⟨i, above, within, same⟩ := (members _).mp membership
    have equal := blocks.distinct m (Nat.le_of_lt below) i (Nat.le_of_lt within) same
    omega
  · intro hash
    rw [List.mem_append, List.mem_singleton, members]
    constructor
    · rintro (⟨i, above, within, rfl⟩ | rfl)
      · exact ⟨i, by omega, within, rfl⟩
      · exact ⟨m, Nat.le_refl m, below, rfl⟩
    · rintro ⟨i, above, within, rfl⟩
      rcases Nat.lt_or_ge m i with higher | lower
      · exact .inl ⟨i, higher, within, rfl⟩
      · obtain rfl : i = m := Nat.le_antisymm lower above
        exact .inr rfl

omit [BloomHash] in
theorem AskedFrom.nil (near : length ≤ m) : AskedFrom blocks m [] := by
  refine ⟨List.nodup_nil, fun hash => ?_⟩
  constructor
  · exact fun membership => absurd membership List.not_mem_nil
  · rintro ⟨i, above, within, -⟩
    omega

theorem Finished.settles (finished : Finished chain blocks backfill)
    (asked : AskedFrom blocks (j + 1) backfill.requested) : Settles chain blocks j backfill := by
  have silent : ∀ later, ¬ Answered chain blocks backfill later := by
    rintro later ⟨-, listed⟩
    rw [finished.outstanding] at listed
    exact List.not_mem_nil listed
  constructor
  · exact Acc.intro _ (fun later answered => absurd answered (silent later))
  · intro last steps _
    rcases steps.cases_head with rfl | ⟨later, answered, -⟩
    · refine ⟨finished.outstanding, asked.1, asked.2, ?_, ?_⟩
      · intro hash present
        rw [BlocksGraph.connected_isSome]
        exact finished.closed.connected hash present
      · exact finished.closed.canonical finished.reached.built.wellFormed finished.head
    · exact absurd answered (silent later)

theorem Waiting.settles (waiting : Waiting chain blocks base j m backfill id)
    (later : Settles chain blocks j
      (backfill.answer chain id (blocks.hash m) (blocks.header m))) :
    Settles chain blocks j backfill := by
  obtain ⟨ends, reconnects⟩ := later
  constructor
  · apply Acc.intro
    intro later answered
    rw [(waiting.answered_iff later).mp answered]
    exact ends
  · intro last steps silent
    rcases steps.cases_head with rfl | ⟨later, answered, steps⟩
    · exact absurd ((waiting.answered_iff _).mpr rfl) (silent _)
    · obtain rfl := (waiting.answered_iff later).mp answered
      exact reconnects last steps silent

/-- Every answer finds room, so the walk down ends at the prefix. -/
theorem Waiting.settles_of_room (settled : base.Prefix blocks j)
    (room : length - j - 1 ≤ maxPendingBlocks chain)
    (waiting : Waiting chain blocks base j m backfill id)
    (asked : AskedFrom blocks m backfill.requested) : Settles chain blocks j backfill := by
  induction m generalizing backfill id with
  | zero => exact absurd waiting.above (Nat.not_lt_zero j)
  | succ m inductionHypothesis =>
    have above := waiting.above
    have below := waiting.below
    apply waiting.settles
    by_cases last : j = m
    · subst last
      obtain ⟨finished, same⟩ := waiting.close settled
      exact finished.settles (by rw [same]; exact asked)
    · obtain ⟨id', waiting', requested⟩ := waiting.stage settled (by omega) (by omega)
      apply inductionHypothesis waiting'
      rw [requested]
      exact asked.snoc (by omega)

/-- A full staging area is never left: the answers do not come to an end. -/
theorem Waiting.not_acc (settled : base.Prefix blocks j)
    (short : maxPendingBlocks chain < length - j - 1)
    (waiting : Waiting chain blocks base j m backfill id)
    (held : length - m ≤ maxPendingBlocks chain) :
    ¬ Acc (fun later earlier => Answered chain blocks earlier later) backfill := by
  intro ends
  induction ends generalizing m id with
  | intro backfill _ inductionHypothesis =>
    have above := waiting.above
    obtain ⟨m, rfl⟩ : ∃ k, m = k + 1 := ⟨m - 1, by omega⟩
    have answered := (waiting.answered_iff _).mpr rfl
    by_cases room : length - (m + 1) < maxPendingBlocks chain
    · obtain ⟨id', waiting', -⟩ := waiting.stage settled (by omega) room
      exact inductionHypothesis _ answered waiting' (by omega)
    · obtain ⟨id', waiting', -⟩ := waiting.refuse settled (by omega) (by omega)
      exact inductionHypothesis _ answered waiting' held

theorem not_reconnects {state : State} (before : PrefixConnected chain blocks j state)
    (short : maxPendingBlocks chain < length - j - 1) : ¬ Reconnects chain blocks j state := by
  rintro ⟨ends, -⟩
  have positive := maxPendingBlocks_pos chain
  obtain ⟨id, waiting, -⟩ := start_waits before (m := length - 1) (by omega) (by omega)
  exact waiting.not_acc before.graph short (by omega) ends

/-- A gap is closed exactly when the staging area can hold all of it but its lowest block. -/
theorem backfill_reconnects_iff {state : State}
    (before : PrefixConnected chain blocks j state) :
    Reconnects chain blocks j state ↔ length - j - 1 ≤ maxPendingBlocks chain := by
  constructor
  · intro reconnects
    by_contra short
    exact not_reconnects before (by omega) reconnects
  · intro room
    by_cases near : length ≤ j + 1
    · obtain ⟨finished, requested⟩ := start_finished before near
      apply finished.settles
      rw [requested]
      exact AskedFrom.nil near
    · obtain ⟨id, waiting, requested⟩ := start_waits before (m := length - 1) (by omega) (by omega)
      apply waiting.settles_of_room before.graph room
      rw [requested]
      exact (AskedFrom.nil (by omega)).snoc (by omega)

end

def countingChain (length : Nat) (short : length < 2 ^ 64) : HonestChain length where
  hash i := BitVec.ofNat 256 i
  header i :=
    { parentHash := BitVec.ofNat 256 (i + 2 ^ 256 - 1), logsBloom := 0, number := UInt64.ofNat i }
  distinct := by
    intro i within k within' same
    have values := congrArg BitVec.toNat same
    simp only [BitVec.toNat_ofNat] at values
    rwa [Nat.mod_eq_of_lt (by omega), Nat.mod_eq_of_lt (by omega)] at values
  linked := by
    intro i within
    apply BitVec.eq_of_toNat_eq
    simp only [BitVec.toNat_ofNat]
    omega
  numbered := by
    intro i within
    simp only [UInt64.toNat_ofNat']
    omega
  below := by
    intro i within same
    have values := congrArg BitVec.toNat same
    simp only [BitVec.toNat_ofNat] at values
    omega

theorem countingChain_known [BloomHash] (chain : ChainKey) (length : Nat)
    (short : length < 2 ^ 64) :
    PrefixConnected chain (countingChain length short) 0 (State.init 0 0) where
  reached := .init ⟨[], .init 0 0⟩
  graph :=
    { anchor := rfl
      within := Nat.zero_le length
      connected := fun i below => absurd below (Nat.not_lt_zero i)
      absent := fun i _ _ => by simp [State.init, Blocks.new, BlocksGraph.new]
      settled := fun hash => by
        simp [State.init, Blocks.new, BlocksGraph.new, BlocksGraph.pendingParent] }
  head := rfl
  idle := fun _ _ _ _ => RequestStore.not_inFlight_new _

theorem backfill_reconnects_countingChain :
    letI : BloomHash := BloomHash.tabulated
    Reconnects .ethereum (countingChain 513 (by decide)) 0 (State.init 0 0) := by
  let _ : BloomHash := BloomHash.tabulated
  exact (backfill_reconnects_iff (countingChain_known .ethereum 513 (by decide))).mpr (by decide)

/-- One block more than the staging area holds leaves the chain disconnected for ever. -/
theorem backfill_stuck_countingChain :
    letI : BloomHash := BloomHash.tabulated
    PrefixConnected .ethereum (countingChain 514 (by decide)) 0 (State.init 0 0) ∧
      ¬ Reconnects .ethereum (countingChain 514 (by decide)) 0 (State.init 0 0) := by
  let _ : BloomHash := BloomHash.tabulated
  have before := countingChain_known .ethereum 514 (by decide)
  exact ⟨before, not_reconnects before (by decide)⟩

end ArmchairAnalyst.Kernel

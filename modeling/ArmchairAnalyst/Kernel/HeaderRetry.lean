import ArmchairAnalyst.Kernel.WorkInFlight

/-!
# Answered header requests

No header is in flight twice. An answer therefore leaves none in flight for its
block, and the same transition asks for it again exactly when the block was
refused while a pending block waits for it.
-/

namespace ArmchairAnalyst.Kernel

/-! ### Headers in flight -/

/-- No two requests in flight are for the same header. -/
def HeadersUnique (requests : PendingRequests) : Prop :=
  ∀ hash id id', requests.InFlight ⟨.blockHeader, id, ⟨hash⟩⟩ →
    requests.InFlight ⟨.blockHeader, id', ⟨hash⟩⟩ → id = id'

theorem Reached.headersUnique [BloomHash] {chain : ChainKey} {state : State}
    (reached : Reached chain state) : HeadersUnique state.pendingRequests := by
  intro hash id id' first second
  have same := reached.exclusive ⟨.blockHeader, id, ⟨hash⟩⟩ ⟨.blockHeader, id', ⟨hash⟩⟩
    (.header hash) first second rfl rfl
  exact congrArg AnyIssuedRequest.requestId same

/-! ### The answered header -/

/-- The answer is refused although a pending block waits for it. -/
def RefusedWhileMissing (chain : ChainKey) (graph : BlocksGraph) (hash parent : BlockHash) :
    Prop :=
  hash ≠ graph.anchor.hash ∧ hash ∉ graph.nodes ∧
    (hash = parent ∨
      graph.connects parent = false ∧ maxPendingBlocks chain ≤ graph.pendingCount) ∧
    ∃ child, graph.pendingParent child = some hash

theorem headerReceived_graph [BloomHash] (chain : ChainKey) (state : State) (id : UInt64)
    (hash parent : BlockHash) (bloom : Bloom) (number : UInt64) :
    (transition chain state
      (.blockHeaderReceived id hash parent bloom number)).1.blocks.graph =
      (state.withLogHeaderReceived hash parent number bloom
        (maxPendingBlocks chain)).blocks.graph := by
  have keeps : ¬ Reinitialises state (.blockHeaderReceived id hash parent bloom number) :=
    fun restarts => restarts
  rw [(transition_continues chain state _ keeps).core]
  rfl

/-- Headers in flight are unique, so an answered one is no longer in flight. -/
theorem answered_idle [BloomHash] {chain : ChainKey} {state : State}
    (unique : HeadersUnique state.pendingRequests) {id : UInt64} {hash : BlockHash}
    (inFlight : state.pendingRequests.InFlight ⟨.blockHeader, id, ⟨hash⟩⟩)
    (parent : BlockHash) (bloom : Bloom) (number : UInt64) (id' : UInt64) :
    ¬ (absorb chain state (.blockHeaderReceived id hash parent bloom
      number)).pendingRequests.InFlight ⟨.blockHeader, id', ⟨hash⟩⟩ := by
  rw [absorb_headerRequests]
  intro again
  obtain rfl : id' = id := unique hash id' id (RequestStore.inFlight_of_take again) inFlight
  obtain ⟨tick, found⟩ := again
  simp [RequestStore.takeRequest] at found

/-- The answered header is asked for again exactly when a pending block still lacks it. -/
theorem requestsHeader_again_iff [BloomHash] {chain : ChainKey} {state : State}
    (unique : HeadersUnique state.pendingRequests) {id : UInt64} {hash : BlockHash}
    (inFlight : state.pendingRequests.InFlight ⟨.blockHeader, id, ⟨hash⟩⟩)
    (parent : BlockHash) (bloom : Bloom) (number : UInt64) :
    RequestsHeader
        (transition chain state (.blockHeaderReceived id hash parent bloom number)).2 hash ↔
      hash ∈ (state.withLogHeaderReceived hash parent number bloom
        (maxPendingBlocks chain)).blocks.graph.missingParents := by
  have idle : PendingRequests.hasPendingHeaderRequest
      (absorb chain state (.blockHeaderReceived id hash parent bloom number)).pendingRequests
      hash = false := by
    rw [← Bool.not_eq_true, hasPendingHeaderRequest_iff]
    rintro ⟨id', again⟩
    exact answered_idle unique inFlight parent bloom number id' again
  rw [transition_requestedHeader chain inFlight parent bloom number, requestsHeader_probe,
    requestsHeader_schedule_iff chain _ hash idle]
  rfl

/-- The answer to a header request settles the block, or does not ask for it again,
unless it is refused while a pending block waits for it. -/
theorem header_not_requested_again_iff [BloomHash] {chain : ChainKey} {state : State}
    (reached : Reached chain state) {id : UInt64} {hash : BlockHash}
    (inFlight : state.pendingRequests.InFlight ⟨.blockHeader, id, ⟨hash⟩⟩)
    (parent : BlockHash) (bloom : Bloom) (number : UInt64) :
    let result := transition chain state (.blockHeaderReceived id hash parent bloom number)
    (hash ∈ result.1.blocks.graph.nodes ∨ hash = result.1.blocks.graph.anchor.hash ∨
        ¬ RequestsHeader result.2 hash) ↔
      ¬ RefusedWhileMissing chain state.blocks.graph hash parent := by
  simp only
  rw [headerReceived_graph,
    requestsHeader_again_iff reached.headersUnique inFlight parent bloom number,
    headerReceived_anchor]
  by_cases atAnchor : hash = state.blocks.graph.anchor.hash
  · simp [atAnchor, RefusedWhileMissing]
  · by_cases accepted : state.blocks.graph.Accepts hash parent (maxPendingBlocks chain)
    · have present : hash ∈ (state.withLogHeaderReceived hash parent number bloom
          (maxPendingBlocks chain)).blocks.graph.nodes := by
        rw [← BlocksGraph.rawParent_isSome, headerReceived_rawParent accepted]
        simp
      have fine : ¬ RefusedWhileMissing chain state.blocks.graph hash parent := by
        rintro ⟨-, -, same | ⟨detached, full⟩, -⟩
        · exact accepted.1 same
        · rcases accepted.2.2.2 with connects | room
          · simp [detached] at connects
          · omega
      exact ⟨fun _ => fine, fun _ => .inl present⟩
    · by_cases present : hash ∈ state.blocks.graph.nodes
      · have stays : hash ∈ (state.withLogHeaderReceived hash parent number bloom
            (maxPendingBlocks chain)).blocks.graph.nodes := by
          rw [← BlocksGraph.rawParent_isSome, headerReceived_rawParent_refused accepted,
            BlocksGraph.rawParent_isSome]
          exact present
        exact ⟨fun _ refused => refused.2.1 present, fun _ => .inl stays⟩
      · have refused : hash = parent ∨ state.blocks.graph.connects parent = false ∧
            maxPendingBlocks chain ≤ state.blocks.graph.pendingCount := by
          by_contra open_
          rw [not_or, not_and, Bool.eq_false_iff] at open_
          refine accepted ⟨open_.1, atAnchor, present, ?_⟩
          by_cases connects : state.blocks.graph.connects parent = true
          · exact .inl connects
          · exact .inr (Nat.lt_of_not_le (open_.2 connects))
        rw [headerReceived_refused present accepted, BlocksGraph.mem_missingParents]
        simp [RefusedWhileMissing, atAnchor, present, refused]

/-- A pending head whose parent has been asked for under the first identifier. -/
def waitingSample : State :=
  letI : BloomHash := BloomHash.tabulated
  (transition .ethereum (State.init 0x10 100) (.headObserved 0x12 0x11 0 102)).1

theorem waitingSample_inFlight :
    waitingSample.pendingRequests.InFlight ⟨.blockHeader, 1, ⟨0x11⟩⟩ := by
  have found : ((waitingSample.pendingRequests.collection .blockHeader)[(1 : UInt64)]?.map
      (fun pending => (pending.payload.blockHash, pending.dispatchedAt))) =
      some (0x11, Tick.initial) := by
    decide +kernel
  obtain ⟨⟨⟨hash⟩, tick⟩, lookup, same⟩ := Option.map_eq_some_iff.mp found
  obtain ⟨rfl, rfl⟩ := Prod.mk.inj same
  exact ⟨_, lookup⟩

theorem header_not_requested_again_waitingSample :
    letI : BloomHash := BloomHash.tabulated
    ¬ RefusedWhileMissing .ethereum waitingSample.blocks.graph 0x11 0x10 := by
  let _ : BloomHash := BloomHash.tabulated
  have reached : Reached .ethereum waitingSample :=
    .step (.init ⟨[], .init 0x10 100⟩) trivial
  refine (header_not_requested_again_iff reached waitingSample_inFlight 0x10 0 101).mp ?_
  refine .inl ?_
  decide +kernel

/-- The provider answers with a header that names itself as its parent. -/
theorem selfParent_requested_again :
    letI : BloomHash := BloomHash.tabulated
    let result := transition .ethereum waitingSample (.blockHeaderReceived 1 0x11 0x11 0 101)
    Reached .ethereum waitingSample ∧
      waitingSample.pendingRequests.InFlight ⟨.blockHeader, 1, ⟨0x11⟩⟩ ∧
      ¬ (0x11 ∈ result.1.blocks.graph.nodes ∨ 0x11 = result.1.blocks.graph.anchor.hash ∨
        ¬ RequestsHeader result.2 0x11) := by
  let _ : BloomHash := BloomHash.tabulated
  have reached : Reached .ethereum waitingSample :=
    .step (.init ⟨[], .init 0x10 100⟩) trivial
  refine ⟨reached, waitingSample_inFlight, ?_⟩
  rintro (present | atAnchor | silent)
  · revert present
    decide +kernel
  · revert atAnchor
    decide +kernel
  · apply silent
    apply (requestsHeader_again_iff reached.headersUnique waitingSample_inFlight 0x11 0 101).mpr
    decide +kernel

end ArmchairAnalyst.Kernel

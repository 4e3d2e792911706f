import ArmchairAnalyst.Library.TransitionSystem
import ArmchairAnalyst.Kernel.BlockFacts
import ArmchairAnalyst.Kernel.StepProofs

/-!
# The updates behind a transition

A transition drives the graph and its base with a list of updates. A property of
the two that every update an event performs keeps is kept by the transition.
-/

namespace ArmchairAnalyst.Kernel

open BlocksGraph (Built)

/-- A change of the graph or of its base. -/
inductive Update
  | withBlock (hash parent : BlockHash) (number : UInt64) (bloom : Bloom)
  | observeHead (hash : BlockHash)
  | stream (hash : BlockHash) (logs : List PoolLog)
  | complete (hash : BlockHash) (logs : List PoolLog)
  | finalize (target : BlockHash)
  | seed (at_ : BlockHash) (results : HashMap PoolRef PoolDataResult)

def Blocks.update [BloomHash] (chain : ChainKey) (registry : TrustedPoolRegistry)
    (blocks : Blocks) : Update → Blocks
  | .withBlock hash parent number bloom =>
    { blocks with
      graph :=
        (blocks.graph.withBlockCapped hash parent number bloom (maxPendingBlocks chain)).1 }
  | .observeHead hash => { blocks with graph := blocks.graph.withObservedHead hash }
  | .stream hash logs => { blocks with graph := blocks.graph.withStreamedLogs hash logs }
  | .complete hash logs => { blocks with graph := (blocks.graph.withCompleteLogs hash logs).1 }
  | .finalize target =>
    let (graph, finalizedSnapshot) := blocks.graph.finalizedTo target blocks.finalizedSnapshot
      (registry.verifiedPools chain) (poolManagerAddress chain)
    { graph, finalizedSnapshot }
  | .seed at_ results => blocks.withFinalizedPoolSeeds at_ results

/-- The updates an event may perform. Logs, ranges and seeds are only applied for the
payload in flight under the answered identifier. -/
inductive Performs (state : State) : Event → Update → Prop
  | headAdmitted (hash parent : BlockHash) (bloom : Bloom) (number : UInt64) :
    Performs state (.headObserved hash parent bloom number) (.withBlock hash parent number bloom)
  | headMoved (hash parent : BlockHash) (bloom : Bloom) (number : UInt64) :
    Performs state (.headObserved hash parent bloom number) (.observeHead hash)
  | headDrained (hash parent : BlockHash) (bloom : Bloom) (number : UInt64)
    (logs : List PoolLog) :
    Performs state (.headObserved hash parent bloom number) (.stream hash logs)
  | headerAdmitted (id : UInt64) (hash parent : BlockHash) (bloom : Bloom) (number : UInt64) :
    Performs state (.blockHeaderReceived id hash parent bloom number)
      (.withBlock hash parent number bloom)
  | headerDrained (id : UInt64) (hash parent : BlockHash) (bloom : Bloom) (number : UInt64)
    (logs : List PoolLog) :
    Performs state (.blockHeaderReceived id hash parent bloom number) (.stream hash logs)
  | finalized (hash : BlockHash) (number : UInt64) :
    Performs state (.finalizedBlockObserved hash number) (.finalize hash)
  | completed {id : UInt64} {payload : GetBlockLogs} (logs : List PoolLog) :
    state.pendingRequests.InFlight ⟨.blockLogs, id, payload⟩ →
    Performs state (.blockLogsReceived id logs) (.complete payload.blockHash logs)
  | answered {id : UInt64} {payload : GetLogsRange} {blocks : List (BlockHash × List PoolLog)}
    {block : BlockHash × List PoolLog} :
    state.pendingRequests.InFlight ⟨.logsRange, id, payload⟩ → block ∈ blocks →
    Performs state (.blockLogsRangeReceived id blocks) (.complete block.1 block.2)
  | unanswered {id : UInt64} {payload : GetLogsRange}
    {blocks : List (BlockHash × List PoolLog)} {hash : BlockHash} :
    state.pendingRequests.InFlight ⟨.logsRange, id, payload⟩ → hash ∈ payload.covered →
    (∀ block ∈ blocks, block.1 ≠ hash) →
    Performs state (.blockLogsRangeReceived id blocks) (.complete hash [])
  | streamed (hash : BlockHash) (logs : List PoolLog) :
    Performs state (.logObserved hash logs) (.stream hash logs)
  | seeded {id : UInt64} {payload : GetPoolData} (pools : HashMap PoolRef PoolDataResult) :
    state.pendingRequests.InFlight ⟨.poolData, id, payload⟩ →
    Performs state (.poolDataReceived id pools) (.seed payload.at_ pools)

variable [BloomHash] {chain : ChainKey}

/-- Applies the updates in turn. -/
def Blocks.updateAll (chain : ChainKey) (registry : TrustedPoolRegistry) (blocks : Blocks)
    (updates : List Update) : Blocks :=
  updates.foldl (Blocks.update chain registry) blocks

/-! ### The updates of each operation on the state -/

theorem withStreamedLogsDrained_updates (chain : ChainKey) (state : State) (hash : BlockHash) :
    ∃ updates, (∀ update ∈ updates, ∃ logs, update = .stream hash logs) ∧
      (state.withStreamedLogsDrained hash).blocks =
        state.blocks.updateAll chain state.poolRegistry updates := by
  unfold State.withStreamedLogsDrained
  split
  · exact ⟨[], by simp, rfl⟩
  · split
    · rename_i logs _
      exact ⟨[.stream hash (HashMap.values logs)], by simp, rfl⟩
    · exact ⟨[], by simp, rfl⟩

theorem withLogHeadObserved_updates (state : State) (hash parent : BlockHash)
    (number : UInt64) (bloom : Bloom) :
    ∃ updates, (∀ update ∈ updates,
        Performs state (.headObserved hash parent bloom number) update) ∧
      (state.withLogHeadObserved hash parent number bloom (maxPendingBlocks chain)).1.blocks =
        state.blocks.updateAll chain state.poolRegistry updates := by
  unfold State.withLogHeadObserved
  generalize admits : state.blocks.graph.withBlockCapped hash parent number bloom
    (maxPendingBlocks chain) = result
  obtain ⟨graph, admission⟩ := result
  have admitted : state.blocks.update chain state.poolRegistry (.withBlock hash parent number bloom) =
      { state.blocks with graph } := by
    simp only [Blocks.update, admits]
  by_cases refused : admission = .selfParent
  · obtain ⟨drains, streams, drained⟩ := withStreamedLogsDrained_updates chain
      (state.mapGraph (fun _ => graph)) hash
    refine ⟨.withBlock hash parent number bloom :: drains, ?_, ?_⟩
    · rintro update (_ | ⟨_, membership⟩)
      · exact .headAdmitted hash parent bloom number
      · obtain ⟨logs, rfl⟩ := streams update membership
        exact .headDrained hash parent bloom number logs
    · simp only [refused, Blocks.updateAll, List.foldl_cons, admitted]
      exact drained
  · obtain ⟨drains, streams, drained⟩ := withStreamedLogsDrained_updates chain
      (state.mapGraph (fun _ => graph.withObservedHead hash)) hash
    refine ⟨.withBlock hash parent number bloom :: .observeHead hash :: drains, ?_, ?_⟩
    · rintro update (_ | ⟨_, _ | ⟨_, membership⟩⟩)
      · exact .headAdmitted hash parent bloom number
      · exact .headMoved hash parent bloom number
      · obtain ⟨logs, rfl⟩ := streams update membership
        exact .headDrained hash parent bloom number logs
    · simp only [Blocks.updateAll, List.foldl_cons, admitted]
      cases admission <;> exact drained

theorem withLogHeaderReceived_updates (state : State) (id : UInt64) (hash parent : BlockHash)
    (number : UInt64) (bloom : Bloom) :
    ∃ updates, (∀ update ∈ updates,
        Performs state (.blockHeaderReceived id hash parent bloom number) update) ∧
      (state.withLogHeaderReceived hash parent number bloom (maxPendingBlocks chain)).blocks =
        state.blocks.updateAll chain state.poolRegistry updates := by
  unfold State.withLogHeaderReceived
  obtain ⟨drains, streams, drained⟩ := withStreamedLogsDrained_updates chain
    (state.mapGraph (fun graph =>
      (graph.withBlockCapped hash parent number bloom (maxPendingBlocks chain)).1)) hash
  refine ⟨.withBlock hash parent number bloom :: drains, ?_, ?_⟩
  · rintro update (_ | ⟨_, membership⟩)
    · exact .headerAdmitted id hash parent bloom number
    · obtain ⟨logs, rfl⟩ := streams update membership
      exact .headerDrained id hash parent bloom number logs
  · exact drained

theorem foldl_withLogComplete_blocks (chain : ChainKey) {Item : Type} (target : Item → BlockHash)
    (logs : Item → List PoolLog) (items : List Item) (registry : TrustedPoolRegistry)
    (state : State) :
    (items.foldl (fun state item => state.withLogComplete (target item) (logs item))
      state).blocks =
      state.blocks.updateAll chain registry
        (items.map (fun item => .complete (target item) (logs item))) := by
  induction items generalizing state with
  | nil => rfl
  | cons item items inductionHypothesis =>
    rw [List.foldl_cons, inductionHypothesis]
    rfl

theorem withLogsRange_updates (state : State) {id : UInt64} {payload : GetLogsRange}
    {blocks : List (BlockHash × List PoolLog)} (before : State)
    (inFlight : before.pendingRequests.InFlight ⟨.logsRange, id, payload⟩) :
    ∃ updates, (∀ update ∈ updates,
        Performs before (.blockLogsRangeReceived id blocks) update) ∧
      (state.withLogsRange payload.covered blocks).blocks =
        state.blocks.updateAll chain before.poolRegistry updates := by
  unfold State.withLogsRange
  simp only
  refine ⟨blocks.map (fun block => .complete block.1 block.2) ++
    ((payload.covered.toList.filter (fun hash =>
      !(HashSet.collect (blocks.map (·.1))).contains hash)).map (.complete · [])), ?_, ?_⟩
  · intro update membership
    rcases List.mem_append.mp membership with membership | membership
    · obtain ⟨block, listed, rfl⟩ := List.mem_map.mp membership
      exact .answered inFlight listed
    · obtain ⟨hash, listed, rfl⟩ := List.mem_map.mp membership
      obtain ⟨covered, missing⟩ := List.mem_filter.mp listed
      refine .unanswered inFlight (Std.ExtTreeSet.mem_toList.mp covered) ?_
      rintro block answered rfl
      have responded : block.1 ∈ HashSet.collect (blocks.map (·.1)) :=
        (HashSet.mem_collect _ _).mpr (List.mem_map.mpr ⟨block, answered, rfl⟩)
      simp [Std.ExtTreeSet.contains_iff_mem.mpr responded] at missing
  · rw [foldl_withLogComplete_blocks chain (fun hash => hash) (fun _ => [])
      _ before.poolRegistry, foldl_withLogComplete_blocks chain Prod.fst Prod.snd
      _ before.poolRegistry]
    simp only [Blocks.updateAll, List.foldl_append]

omit [BloomHash] in
/-- What an answer takes was in flight. -/
theorem take_inFlight {state : State} {kind : RequestKind} {id : UInt64}
    {request : PendingPayload kind.Payload} (taken : (state.take kind id).2 = some request) :
    state.pendingRequests.InFlight ⟨kind, id, request.payload⟩ :=
  RequestStore.inFlight_of_taken taken

/-- An applied answer performs the updates of its payload. -/
theorem applied_updates (state : State) (event : Event) {kind : RequestKind} {id : UInt64}
    {apply_ : State → kind.Payload → State}
    (each : ∀ state' payload, state'.blocks = state.blocks →
      state.pendingRequests.InFlight ⟨kind, id, payload⟩ →
      ∃ updates, (∀ update ∈ updates, Performs state event update) ∧
        (apply_ state' payload).blocks =
          state.blocks.updateAll chain state.poolRegistry updates) :
    ∃ updates, (∀ update ∈ updates, Performs state event update) ∧
      (applied state kind id apply_).blocks =
        state.blocks.updateAll chain state.poolRegistry updates := by
  unfold applied
  have same : (state.take kind id).1.blocks = state.blocks := rfl
  have taken : ∀ request, (state.take kind id).2 = some request →
      state.pendingRequests.InFlight ⟨kind, id, request.payload⟩ :=
    fun _ taken => take_inFlight taken
  generalize state.take kind id = result at same taken
  obtain ⟨state', _ | request⟩ := result
  · exact ⟨[], by simp, same⟩
  · exact each state' request.payload same (taken request rfl)

/-- Absorbing an event performs some of its updates in turn. -/
theorem absorb_updates (chain : ChainKey) (state : State) (event : Event) :
    ∃ updates, (∀ update ∈ updates, Performs state event update) ∧
      (absorb chain state event).blocks =
        state.blocks.updateAll chain state.poolRegistry updates := by
  cases event with
  | headObserved hash parent bloom number =>
    exact withLogHeadObserved_updates state hash parent number bloom
  | finalizedBlockObserved hash number =>
    refine ⟨[.finalize hash], ?_, ?_⟩
    · intro update membership
      obtain rfl := List.mem_singleton.mp membership
      exact .finalized hash number
    · simp only [absorb, State.withFinalizedBlockObserved]
      split <;> rfl
  | blockHeaderReceived id hash parent bloom number =>
    exact withLogHeaderReceived_updates state id hash parent number bloom
  | blockLogsReceived id logs =>
    refine applied_updates state _ (fun state' payload same inFlight => ?_)
    refine ⟨[.complete payload.blockHash logs], ?_, ?_⟩
    · intro update membership
      obtain rfl := List.mem_singleton.mp membership
      exact .completed logs inFlight
    · rw [← same]
      rfl
  | blockLogsRangeReceived id blocks =>
    refine applied_updates state _ (fun state' payload same inFlight => ?_)
    rw [← same]
    exact withLogsRange_updates state' state inFlight
  | logObserved hash logs =>
    simp only [absorb]
    split
    · refine ⟨[.stream hash logs], ?_, rfl⟩
      intro update membership
      obtain rfl := List.mem_singleton.mp membership
      exact .streamed hash logs
    · refine ⟨[], by simp, ?_⟩
      unfold State.withStreamedLogsBuffered
      split <;> rfl
  | poolDataReceived id pools =>
    refine applied_updates state _ (fun state' payload same inFlight => ?_)
    refine ⟨[.seed payload.at_ pools], ?_, ?_⟩
    · intro update membership
      obtain rfl := List.mem_singleton.mp membership
      exact .seeded pools inFlight
    · rw [← same]
      rfl
  | poolMetadataReceived id metadata =>
    exact applied_updates state _ (fun state' _ same _ => ⟨[], by simp, same⟩)
  | tokenMetadataReceived id metadata =>
    exact applied_updates state _ (fun state' _ same _ => ⟨[], by simp, same⟩)
  | blockHeaderNotFound id => exact ⟨[], by simp, rfl⟩
  | canonicalHeaderAtHeightReceived id hash number => exact ⟨[], by simp, rfl⟩
  | requestFailed id => exact ⟨[], by simp, rfl⟩
  | tick order => exact ⟨[], by simp, rfl⟩

/-- What every update of an event keeps, absorbing the event keeps. -/
theorem absorb_keeps (keeps : Blocks → Prop) {state : State} {event : Event}
    (each : ∀ update, Performs state event update → ∀ blocks, keeps blocks →
      keeps (blocks.update chain state.poolRegistry update))
    (held : keeps state.blocks) : keeps (absorb chain state event).blocks := by
  obtain ⟨updates, performed, result⟩ := absorb_updates chain state event
  rw [result]
  unfold Blocks.updateAll
  clear result
  generalize state.blocks = blocks at held
  induction updates generalizing blocks with
  | nil => exact held
  | cons update updates inductionHypothesis =>
    rw [List.foldl_cons]
    exact inductionHypothesis (fun other membership => performed other (by simp [membership]))
      _ (each update (performed update (by simp)) blocks held)

/-! ### Reachable states -/

theorem built_update {blocks : Blocks} (built : Built blocks.graph)
    (registry : TrustedPoolRegistry) (update : Update) :
    Built (blocks.update chain registry update).graph := by
  cases update with
  | withBlock hash parent number bloom =>
    exact built.operate (.withBlockCapped hash parent number bloom (maxPendingBlocks chain))
  | observeHead hash => exact built.operate (.withObservedHead hash)
  | stream hash logs => exact built.operate (.withStreamedLogs hash logs)
  | complete hash logs => exact built.operate (.withCompleteLogs hash logs)
  | finalize target =>
    exact built.operate (.finalizedTo target blocks.finalizedSnapshot
      (registry.verifiedPools chain) (poolManagerAddress chain))
  | seed at_ results =>
    simp only [Blocks.update, Blocks.withFinalizedPoolSeeds]
    split <;> exact built

/-- A property of graph and base holds after a transition when every update of the event
keeps it and a restarted kernel has it. -/
theorem transition_keeps (keeps : Blocks → Prop) {state : State} {event : Event}
    (each : ∀ update, Performs state event update → ∀ blocks, keeps blocks →
      keeps (blocks.update chain state.poolRegistry update))
    (restarted : ∀ hash number, keeps (Blocks.new hash number ∅))
    (held : keeps state.blocks) : keeps (transition chain state event).1.blocks := by
  by_cases restarts : Reinitialises state event
  · cases event with
    | canonicalHeaderAtHeightReceived id hash number =>
      rw [transition_reinitialises chain state id restarts]
      exact restarted hash number
    | _ => exact absurd restarts id
  · rw [(transition_continues chain state event restarts).core]
    exact absorb_keeps keeps each held

theorem transition_built {state : State} (built : Built state.blocks.graph) (event : Event) :
    Built (transition chain state event).1.blocks.graph :=
  transition_keeps (fun blocks => Built blocks.graph)
    (fun update _ _ built => built_update built _ update)
    (fun hash number => Built.new hash number) built

end ArmchairAnalyst.Kernel

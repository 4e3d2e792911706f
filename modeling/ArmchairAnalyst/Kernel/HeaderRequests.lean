import ArmchairAnalyst.Kernel.BlocksUpdates

/-!
# Header requests

Which headers the kernel asks for depends on the raw parents of the blocks it has.
Admission changes that view at one block or not at all, and promotion not at all.
-/

namespace ArmchairAnalyst

namespace BlocksGraph

/-- The parent a block was delivered with. -/
def rawParent (graph : BlocksGraph) (hash : BlockHash) : Option BlockHash :=
  graph.nodes[hash]?.map graph.nodeParentHash

theorem rawParent_isSome (graph : BlocksGraph) (hash : BlockHash) :
    (graph.rawParent hash).isSome ↔ hash ∈ graph.nodes := by
  rw [rawParent, Option.isSome_map, Std.ExtTreeMap.mem_iff_isSome_getElem?]

theorem rawParent_of_pending {graph : BlocksGraph} {hash parent : BlockHash}
    (isPending : graph.pendingParent hash = some parent) :
    graph.rawParent hash = some parent := by
  obtain ⟨node, found, rfl⟩ := (pendingParent_eq_some _ _ _).mp isPending
  simp [rawParent, found, nodeParentHash]

theorem rawParent_of_connected {graph : BlocksGraph} {hash : BlockHash}
    {parent : Option BlockHash} (attached : graph.connectedUp hash = some parent) :
    graph.rawParent hash = some (parent.getD graph.anchor.hash) := by
  obtain ⟨node, found⟩ := (connectedUp_isSome graph hash).mp (by simp [attached])
  rw [connectedUp_of_connected found] at attached
  obtain rfl := Option.some.inj attached
  cases shape : node.parent <;>
    simp [rawParent, found, nodeParentHash, shape, connectedParentHash, AnchoredRef.up]

/-- A block whose raw parent is the anchor or connected is connected itself. -/
theorem WellFormed.connected_of_parent {graph : BlocksGraph} (wellFormed : graph.WellFormed)
    {hash parent : BlockHash} (raw : graph.rawParent hash = some parent)
    (above : parent = graph.anchor.hash ∨ (graph.connectedUp parent).isSome) :
    (graph.connectedUp hash).isSome := by
  have present := (rawParent_isSome graph hash).mp (by simp [raw])
  rcases (mem_nodes_iff graph hash).mp present with isConnected | isPending
  · exact isConnected
  · obtain ⟨parent', isPending⟩ := Option.isSome_iff_exists.mp isPending
    obtain rfl : parent' = parent := by
      rw [rawParent_of_pending isPending] at raw
      exact Option.some.inj raw
    obtain ⟨away, detached⟩ := wellFormed.pendingDetached hash parent' isPending
    rcases above with atAnchor | isConnected
    · exact absurd atAnchor away
    · simp [detached] at isConnected

/-! ### Missing parents -/

theorem missingParents_nodup (graph : BlocksGraph) : graph.missingParents.Nodup :=
  HashSet.nodup_toList _

theorem mem_missingParents (graph : BlocksGraph) (hash : BlockHash) :
    hash ∈ graph.missingParents ↔
      hash ≠ graph.anchor.hash ∧ hash ∉ graph.nodes ∧
        ∃ child, graph.pendingParent child = some hash := by
  simp only [missingParents, Std.ExtTreeSet.mem_toList, HashSet.mem_collect,
    List.mem_filterMap, HashMap.mem_values]
  constructor
  · rintro ⟨node, ⟨child, found⟩, missing⟩
    cases node with
    | connected node => simp at missing
    | pending node =>
      simp only [ne_eq, Option.ite_none_right_eq_some, Option.some.injEq] at missing
      obtain ⟨⟨away, absent⟩, rfl⟩ := missing
      exact ⟨away, absent, child, (pendingParent_eq_some _ _ _).mpr ⟨node, found, rfl⟩⟩
  · rintro ⟨away, absent, child, isPending⟩
    obtain ⟨node, found, rfl⟩ := (pendingParent_eq_some _ _ _).mp isPending
    exact ⟨.pending node, ⟨child, found⟩, by simp [away, absent]⟩

/-! ### Admission -/

/-- Whether an admission adds the block. -/
def Accepts (graph : BlocksGraph) (hash parent : BlockHash) (maxPending : Nat) : Prop :=
  hash ≠ parent ∧ hash ≠ graph.anchor.hash ∧ hash ∉ graph.nodes ∧
    (graph.connects parent = true ∨ graph.pendingCount < maxPending)

theorem nodes_getElem?_eq_none (graph : BlocksGraph) (hash : BlockHash) :
    graph.nodes[hash]? = none ↔ hash ∉ graph.nodes := by
  rw [HashMap.mem_iff_exists]
  cases graph.nodes[hash]? <;> simp

/-- A refused block leaves the graph as it is. -/
theorem withDataCapped_refused {graph : BlocksGraph} {hash parent : BlockHash}
    {maxPending : Nat} (refused : ¬ graph.Accepts hash parent maxPending) (data : BlockData) :
    (graph.withDataCapped hash parent data maxPending).1 = graph := by
  have admits := graph.withDataCapped_admits hash parent data maxPending
  generalize graph.withDataCapped hash parent data maxPending = result at admits
  cases admits with
  | selfParent _ => rfl
  | anchorReadmitted _ _ => rfl
  | duplicate _ _ _ _ _ => rfl
  | conflicting _ _ _ _ _ => rfl
  | full _ _ _ _ _ => rfl
  | connected proper away absent connects =>
    exact absurd ⟨proper, away, (nodes_getElem?_eq_none graph hash).mp absent, .inl connects⟩
      refused
  | pending proper away absent _ room =>
    exact absurd ⟨proper, away, (nodes_getElem?_eq_none graph hash).mp absent, .inr room⟩ refused

theorem option_map_promoted {first second : Option Node} (graph : BlocksGraph)
    (related : Option.Rel Promoted first second) :
    second.map graph.nodeParentHash = first.map graph.nodeParentHash := by
  cases related with
  | none => rfl
  | some promoted => simp [promoted.nodeParentHash]

theorem withDataCapped_rawParent {graph : BlocksGraph} {hash parent : BlockHash}
    {maxPending : Nat} (accepted : graph.Accepts hash parent maxPending) (data : BlockData)
    (k : BlockHash) :
    (graph.withDataCapped hash parent data maxPending).1.rawParent k =
      if k = hash then some parent else graph.rawParent k := by
  obtain ⟨proper, away, absent, room⟩ := accepted
  have absent' := (nodes_getElem?_eq_none graph hash).mpr absent
  have admits := graph.withDataCapped_admits hash parent data maxPending
  generalize graph.withDataCapped hash parent data maxPending = result at admits
  cases admits with
  | selfParent self => exact absurd self proper
  | anchorReadmitted _ atAnchor => exact absurd atAnchor away
  | duplicate existing _ _ found _ => simp [absent'] at found
  | conflicting existing _ _ found _ => simp [absent'] at found
  | full _ _ _ detached full =>
    rcases room with connects | room
    · simp [detached] at connects
    · omega
  | connected _ _ _ _ =>
    have related := promoted_promoteReachable (graph.insertConnected hash parent data) hash k
    have promoted := option_map_promoted graph related
    have same : ((graph.insertConnected hash parent data).promoteReachable hash).rawParent k =
        (graph.insertConnected hash parent data).nodes[k]?.map graph.nodeParentHash := promoted
    rw [same]
    by_cases new : k = hash
    · subst new
      by_cases atAnchor : parent = graph.anchor.hash <;>
        simp [insertConnected, nodeParentHash, connectedParentHash, atAnchor]
    · have lookup : (graph.insertConnected hash parent data).nodes[k]? = graph.nodes[k]? := by
        simp only [insertConnected]
        grind
      simp [lookup, new, rawParent]
  | pending _ _ _ _ _ =>
    by_cases new : k = hash
    · subst new
      simp [rawParent, insertPending, nodeParentHash]
    · have lookup : (graph.insertPending hash parent data).nodes[k]? = graph.nodes[k]? := by
        simp only [insertPending]
        grind
      have same : (graph.insertPending hash parent data).rawParent k =
          (graph.insertPending hash parent data).nodes[k]?.map graph.nodeParentHash := rfl
      rw [same, lookup, if_neg new]
      rfl

theorem rawParent_modifyData (graph : BlocksGraph) (hash : BlockHash)
    (f : BlockData → BlockData) (k : BlockHash) :
    (graph.modifyData hash f).rawParent k = graph.rawParent k := by
  have parents : (graph.modifyData hash f).nodeParentHash = graph.nodeParentHash :=
    funext (nodeParentHash_congr (modifyData_anchor graph hash f))
  rw [rawParent, rawParent, parents, getElem?_modifyData]
  split
  · rw [Option.map_map]
    congr 1
    funext node
    cases node <;> rfl
  · rfl

end BlocksGraph

namespace Kernel

/-! ### Delivered headers -/

theorem drained_of_absent {state : State} {hash : BlockHash}
    (absent : hash ∉ state.blocks.graph.nodes) : state.withStreamedLogsDrained hash = state :=
  if_pos absent

theorem drained_anchor (state : State) (hash : BlockHash) :
    (state.withStreamedLogsDrained hash).blocks.graph.anchor = state.blocks.graph.anchor := by
  unfold State.withStreamedLogsDrained
  split
  · rfl
  · split
    · exact BlocksGraph.modifyData_anchor _ _ _
    · rfl

theorem drained_observedHead (state : State) (hash : BlockHash) :
    (state.withStreamedLogsDrained hash).blocks.graph.observedHead =
      state.blocks.graph.observedHead := by
  unfold State.withStreamedLogsDrained
  split
  · rfl
  · split
    · exact BlocksGraph.modifyData_observedHead _ _ _
    · rfl

theorem drained_rawParent (state : State) (hash k : BlockHash) :
    (state.withStreamedLogsDrained hash).blocks.graph.rawParent k =
      state.blocks.graph.rawParent k := by
  unfold State.withStreamedLogsDrained
  split
  · rfl
  · split
    · exact BlocksGraph.rawParent_modifyData _ _ _ _
    · rfl

theorem headerReceived_anchor (state : State) (hash parent : BlockHash) (number : UInt64)
    (bloom : Bloom) (maxPending : Nat) :
    (state.withLogHeaderReceived hash parent number bloom maxPending).blocks.graph.anchor =
      state.blocks.graph.anchor := by
  rw [State.withLogHeaderReceived, drained_anchor]
  exact BlocksGraph.withDataCapped_anchor _ _ _ _ _

/-- An accepted header adds its block to the view of raw parents. -/
theorem headerReceived_rawParent {state : State} {hash parent : BlockHash} {maxPending : Nat}
    (accepted : state.blocks.graph.Accepts hash parent maxPending) (number : UInt64)
    (bloom : Bloom) (k : BlockHash) :
    (state.withLogHeaderReceived hash parent number bloom maxPending).blocks.graph.rawParent k =
      if k = hash then some parent else state.blocks.graph.rawParent k := by
  rw [State.withLogHeaderReceived, drained_rawParent]
  exact BlocksGraph.withDataCapped_rawParent accepted _ k

theorem headerReceived_rawParent_refused {state : State} {hash parent : BlockHash}
    {maxPending : Nat} (refused : ¬ state.blocks.graph.Accepts hash parent maxPending)
    (number : UInt64) (bloom : Bloom) (k : BlockHash) :
    (state.withLogHeaderReceived hash parent number bloom maxPending).blocks.graph.rawParent k =
      state.blocks.graph.rawParent k := by
  rw [State.withLogHeaderReceived, drained_rawParent]
  simp only [State.mapGraph, BlocksGraph.withBlockCapped,
    BlocksGraph.withDataCapped_refused refused]

/-- A refused header of an absent block changes nothing. -/
theorem headerReceived_refused {state : State} {hash parent : BlockHash} {maxPending : Nat}
    (absent : hash ∉ state.blocks.graph.nodes)
    (refused : ¬ state.blocks.graph.Accepts hash parent maxPending) (number : UInt64)
    (bloom : Bloom) :
    state.withLogHeaderReceived hash parent number bloom maxPending = state := by
  have same : state.mapGraph (fun graph =>
      (graph.withBlockCapped hash parent number bloom maxPending).1) = state := by
    simp only [State.mapGraph, BlocksGraph.withBlockCapped,
      BlocksGraph.withDataCapped_refused refused]
  rw [State.withLogHeaderReceived, same]
  exact drained_of_absent absent

theorem drained_graph (state : State) (hash : BlockHash) :
    (state.withStreamedLogsDrained hash).blocks.graph = state.blocks.graph ∨
      ∃ logs, (state.withStreamedLogsDrained hash).blocks.graph =
        state.blocks.graph.withStreamedLogs hash logs := by
  unfold State.withStreamedLogsDrained
  split
  · exact .inl rfl
  · split
    · exact .inr ⟨_, rfl⟩
    · exact .inl rfl

/-- What streamed logs keep, draining the buffered ones keeps. -/
theorem drained_keeps (keeps : BlocksGraph → Prop) {state : State} {hash : BlockHash}
    (each : ∀ logs, keeps state.blocks.graph → keeps (state.blocks.graph.withStreamedLogs hash logs))
    (held : keeps state.blocks.graph) :
    keeps (state.withStreamedLogsDrained hash).blocks.graph := by
  rcases drained_graph state hash with same | ⟨logs, changed⟩
  · rw [same]
    exact held
  · rw [changed]
    exact each logs held

theorem headObserved_state {state : State} {hash parent : BlockHash} (proper : hash ≠ parent)
    (number : UInt64) (bloom : Bloom) (maxPending : Nat) :
    (state.withLogHeadObserved hash parent number bloom maxPending).1 =
      (state.mapGraph (fun graph => (graph.withBlockCapped hash parent number bloom
        maxPending).1.withObservedHead hash)).withStreamedLogsDrained hash := by
  have admits := state.blocks.graph.withDataCapped_admits hash parent
    { number, logsBloom := some bloom, logs := .unknown } maxPending
  simp only [State.withLogHeadObserved, BlocksGraph.withBlockCapped, State.mapGraph]
  generalize state.blocks.graph.withDataCapped hash parent
    { number, logsBloom := some bloom, logs := .unknown } maxPending = result at admits
  cases admits with
  | selfParent same => exact absurd same proper
  | _ => rfl

/-! ### The header stage -/

theorem hasPendingHeaderRequest_iff (requests : PendingRequests) (hash : BlockHash) :
    PendingRequests.hasPendingHeaderRequest requests hash = true ↔
      ∃ id, requests.InFlight ⟨.blockHeader, id, ⟨hash⟩⟩ := by
  unfold PendingRequests.hasPendingHeaderRequest
  rw [List.any_eq_true]
  constructor
  · rintro ⟨payload, listed, same⟩
    obtain ⟨id, inFlight⟩ := (PendingRequests.mem_payloads requests .blockHeader payload).mp listed
    obtain rfl : payload = ⟨hash⟩ := by
      cases payload
      simpa using same
    exact ⟨id, inFlight⟩
  · rintro ⟨id, inFlight⟩
    exact ⟨⟨hash⟩, (PendingRequests.mem_payloads requests .blockHeader ⟨hash⟩).mpr ⟨id, inFlight⟩,
      by simp⟩

/-- The header requests among the effects, in order. -/
def headerRequests (effects : List Effect) : List (UInt64 × BlockHash) :=
  effects.filterMap (fun effect =>
    match effect with
    | ⟨.blockHeader, id, payload⟩ => some (id, payload.blockHash)
    | _ => none)

theorem mem_headerRequests (effects : List Effect) (id : UInt64) (hash : BlockHash) :
    (id, hash) ∈ headerRequests effects ↔ (⟨.blockHeader, id, ⟨hash⟩⟩ : Effect) ∈ effects := by
  unfold headerRequests
  rw [List.mem_filterMap]
  constructor
  · rintro ⟨⟨kind, id', payload⟩, membership, same⟩
    cases kind with
    | blockHeader =>
      obtain ⟨hash'⟩ := payload
      obtain ⟨rfl, rfl⟩ := Prod.mk.inj (Option.some.inj same)
      exact membership
    | _ => simp at same
  · exact fun membership => ⟨_, membership, rfl⟩

/-- A header is asked for among the effects. -/
def RequestsHeader (effects : List Effect) (hash : BlockHash) : Prop :=
  ∃ id, (⟨.blockHeader, id, ⟨hash⟩⟩ : Effect) ∈ effects

theorem RequestsHeader.append {effects : List Effect} {hash : BlockHash}
    (requested : RequestsHeader effects hash) (later : List Effect) :
    RequestsHeader (effects ++ later) hash := by
  obtain ⟨id, membership⟩ := requested
  exact ⟨id, List.mem_append_left _ membership⟩

/-- Asking for another header neither asks for this one nor puts it in flight. -/
theorem requestMissingHeader_other {output : State × List Effect} {hash other : BlockHash}
    (distinct : other ≠ hash)
    (idle : PendingRequests.hasPendingHeaderRequest output.1.pendingRequests hash = false) :
    PendingRequests.hasPendingHeaderRequest (requestMissingHeader output other).1.pendingRequests
      hash = false := by
  rw [← Bool.not_eq_true, hasPendingHeaderRequest_iff] at idle ⊢
  unfold requestMissingHeader
  split
  · exact idle
  · rintro ⟨id, inFlight⟩
    rcases RequestStore.inFlight_of_issue inFlight with issued | earlier
    · simp only [AnyIssuedRequest.mk.injEq, heq_eq_eq, true_and] at issued
      exact distinct (GetBlockHeader.mk.inj issued.2).symm
    · exact idle ⟨id, earlier⟩

/-- A missing header that is not in flight is asked for by the header stage. -/
theorem requestsHeader_of_missing {output : State × List Effect} {hash : BlockHash}
    (missing : hash ∈ output.1.blocks.graph.missingParents)
    (idle : PendingRequests.hasPendingHeaderRequest output.1.pendingRequests hash = false) :
    RequestsHeader (scheduleMissingHeaderRequests output).2 hash := by
  unfold scheduleMissingHeaderRequests
  generalize output.1.blocks.graph.missingParents = hashes at missing
  induction hashes generalizing output with
  | nil => simp at missing
  | cons first hashes inductionHypothesis =>
    rw [List.foldl_cons]
    by_cases same : first = hash
    · subst same
      have now : RequestsHeader (requestMissingHeader output first).2 first := by
        unfold requestMissingHeader
        rw [if_neg (by simp [idle])]
        exact ⟨_, List.mem_append_right _ List.mem_cons_self⟩
      have later : Issues (fun _ _ => True) (requestMissingHeader output first)
          (hashes.foldl requestMissingHeader (requestMissingHeader output first)) :=
        Issues.foldl (fun hash _ output' => issues_requestMissingHeader output' hash trivial) _
      obtain ⟨issued, appended⟩ := later.effects
      rw [appended]
      exact now.append issued
    · apply inductionHypothesis (requestMissingHeader_other same idle)
      exact (List.mem_cons.mp missing).resolve_left (fun equal => same equal.symm)

/-- The scheduling chain asks for a header exactly in its header stage. -/
theorem requestsHeader_schedule [BloomHash] (chain : ChainKey) (output : State × List Effect)
    (hash : BlockHash) :
    RequestsHeader (scheduleUnknownCanonicalRequests chain output).2 hash ↔
      RequestsHeader (scheduleMissingHeaderRequests output).2 hash := by
  rw [schedule_eq]
  obtain ⟨issued, appended, -, sort⟩ :=
    (issues_afterHeaders chain (scheduleMissingHeaderRequests output)).issued
  rw [appended]
  constructor
  · rintro ⟨id, membership⟩
    rcases List.mem_append.mp membership with earlier | later
    · exact ⟨id, earlier⟩
    · exact absurd rfl (sort _ later).1
  · exact fun requested => requested.append issued

theorem requestsHeader_probe (blockHash : BlockHash) (number : UInt64)
    (output : State × List Effect) (hash : BlockHash) :
    RequestsHeader (withFinalityProbeIfOrphanSuspected blockHash number output).2 hash ↔
      RequestsHeader output.2 hash := by
  obtain ⟨issued, appended, -, sort⟩ := (issues_probe blockHash number output).issued
  rw [appended]
  constructor
  · rintro ⟨id, membership⟩
    rcases List.mem_append.mp membership with earlier | later
    · exact ⟨id, earlier⟩
    · have probe := congrArg Sigma.fst (sort _ later)
      simp at probe
  · exact fun requested => requested.append issued

/-- The answer for the requested block is absorbed and followed by the scheduling chain. -/
theorem transition_requestedHeader [BloomHash] (chain : ChainKey) {state : State} {id : UInt64}
    {hash : BlockHash} (inFlight : state.pendingRequests.InFlight ⟨.blockHeader, id, ⟨hash⟩⟩)
    (parent : BlockHash) (bloom : Bloom) (number : UInt64) :
    transition chain state (.blockHeaderReceived id hash parent bloom number) =
      withFinalityProbeIfOrphanSuspected hash number (scheduleUnknownCanonicalRequests chain
        (absorb chain state (.blockHeaderReceived id hash parent bloom number), [])) := by
  have handled : transition chain state (.blockHeaderReceived id hash parent bloom number) =
      blockHeaderReceived chain state id hash parent bloom number := transition_of_output rfl
  have own : absorb chain state (.blockHeaderReceived id hash parent bloom number) =
      ((state.withLogHeaderReceived hash parent number bloom (maxPendingBlocks chain)).take
        .blockHeader id).1 := rfl
  obtain ⟨tick, found⟩ := inFlight
  have taken : ((state.withLogHeaderReceived hash parent number bloom
      (maxPendingBlocks chain)).take .blockHeader id).2 = some ⟨⟨hash⟩, tick⟩ := by
    simp only [State.take, RequestStore.takeRequest, withLogHeaderReceived_pendingRequests]
    exact found
  rw [handled]
  unfold blockHeaderReceived
  simp only
  generalize (state.withLogHeaderReceived hash parent number bloom (maxPendingBlocks chain)).take
    .blockHeader id = result at own taken ⊢
  obtain ⟨absorbed, pending⟩ := result
  simp only at own taken
  simp only [taken, ne_eq, not_true_eq_false, if_false, own]

/-- The scheduling chain adds header requests for missing parents only. -/
theorem requestsHeader_of_schedule [BloomHash] {chain : ChainKey} {output : State × List Effect}
    {hash : BlockHash}
    (requested : RequestsHeader (scheduleUnknownCanonicalRequests chain output).2 hash) :
    RequestsHeader output.2 hash ∨ hash ∈ output.1.blocks.graph.missingParents := by
  obtain ⟨id, membership⟩ := (requestsHeader_schedule chain output hash).mp requested
  obtain ⟨issued, appended, -, sort⟩ := (issues_missingHeaders chain output).issued
  rw [appended] at membership
  rcases List.mem_append.mp membership with earlier | later
  · exact .inl ⟨id, earlier⟩
  · exact .inr (sort _ later)

/-- Why a transition asks for a header: a pending block lacks it, it was being asked for
before, or it names itself as its parent. -/
theorem transition_headerReasons [BloomHash] {chain : ChainKey} {state : State} {event : Event}
    (keeps : ¬ Reinitialises state event) {hash : BlockHash}
    (requested : RequestsHeader (transition chain state event).2 hash) :
    hash ∈ (absorb chain state event).blocks.graph.missingParents ∨
      (∃ id, state.pendingRequests.InFlight ⟨.blockHeader, id, ⟨hash⟩⟩) ∨
      ∃ bloom number, event = .headObserved hash hash bloom number := by
  have none : ¬ RequestsHeader [] hash := fun ⟨_, membership⟩ => List.not_mem_nil membership
  have follows := transition_follows chain state event keeps
  generalize transition chain state event = result at follows requested
  cases follows with
  | idle => exact absurd requested none
  | @selfParent hash' bloom number observed =>
    obtain ⟨id, membership⟩ := requested
    unfold requestMissingHeader at membership
    split at membership
    · exact absurd membership List.not_mem_nil
    · obtain same := List.mem_singleton.mp membership
      simp only [AnyIssuedRequest.mk.injEq, heq_eq_eq, true_and] at same
      obtain rfl := GetBlockHeader.mk.inj same.2
      exact .inr (.inr ⟨bloom, number, observed⟩)
  | scheduled => exact .inl ((requestsHeader_of_schedule requested).resolve_left none)
  | probed hash' number =>
    rw [requestsHeader_probe] at requested
    exact .inl ((requestsHeader_of_schedule requested).resolve_left none)
  | @reissued id hash' parent bloom number payload _ inFlight _ =>
    rw [requestsHeader_probe] at requested
    rcases requestsHeader_of_schedule requested with ⟨id', membership⟩ | missing
    · obtain same := List.mem_singleton.mp membership
      simp only [AnyIssuedRequest.mk.injEq, heq_eq_eq, true_and] at same
      obtain rfl := same.2
      exact .inr (.inl ⟨id, inFlight⟩)
    · exact .inl missing
  | ranges target =>
    obtain ⟨id, membership⟩ := requested
    obtain ⟨issued, appended, -, sort⟩ := (issues_logRanges chain target
      (absorb chain state event, [])).issued
    rw [appended, List.nil_append] at membership
    have range := sort _ membership
    simp at range
  | retried ids tick _ =>
    obtain ⟨id, membership⟩ := requested
    exact .inr (.inl (retried_reasons _ ids tick _ membership))

/-- After the scheduling chain a header is newly asked for exactly when a pending block
lacks it and it is not in flight. -/
theorem requestsHeader_schedule_iff [BloomHash] (chain : ChainKey) (state : State)
    (hash : BlockHash)
    (idle : PendingRequests.hasPendingHeaderRequest state.pendingRequests hash = false) :
    RequestsHeader (scheduleUnknownCanonicalRequests chain (state, [])).2 hash ↔
      hash ∈ state.blocks.graph.missingParents := by
  rw [requestsHeader_schedule]
  constructor
  · rintro ⟨id, membership⟩
    obtain ⟨issued, appended, -, sort⟩ := (issues_missingHeaders chain (state, [])).issued
    rw [appended, List.nil_append] at membership
    exact sort _ membership
  · exact fun missing => requestsHeader_of_missing missing idle

end Kernel

end ArmchairAnalyst

import ArmchairAnalyst.Kernel.BackfillGraph
import ArmchairAnalyst.Kernel.RequestIds

/-!
# Backfill above finality

Over an honest header tree the kernel asks for no header below its anchor as long
as no block at or below the anchor's height is staged. Everything staged is then
above the anchor, so that the parents it lacks are at the anchor's height or above.
-/

namespace ArmchairAnalyst

/-- The headers of an honest block tree, each numbered one above its parent. -/
structure HeaderTree where
  header : BlockHash → Option Header
  complete : ∀ hash child, header hash = some child → child.number ≠ 0 →
    (header child.parentHash).isSome
  consistent : ∀ hash child parent, header hash = some child →
    header child.parentHash = some parent → child.number.toNat = parent.number.toNat + 1

namespace HeaderTree

variable (tree : HeaderTree)

def number (hash : BlockHash) : Option UInt64 := (tree.header hash).map (·.number)

/-- A block of the tree at a given height or above. -/
def AtLeast (height : UInt64) (hash : BlockHash) : Prop :=
  ∃ number, tree.number hash = some number ∧ height ≤ number

/-- What the graph stores about a block is its header's parent and number. -/
def Agrees (hash parent : BlockHash) (data : BlockData) : Prop :=
  ∃ header, tree.header hash = some header ∧ header.parentHash = parent ∧
    header.number = data.number

variable {tree}

/-- No block of the tree is its own parent. -/
theorem proper {hash : BlockHash} {header : Header} (known : tree.header hash = some header) :
    hash ≠ header.parentHash := by
  intro same
  rw [same] at known
  have numbers := tree.consistent header.parentHash header header known known
  omega

theorem Agrees.number {hash parent : BlockHash} {data : BlockData}
    (agrees : tree.Agrees hash parent data) : tree.number hash = some data.number := by
  obtain ⟨header, known, -, number⟩ := agrees
  simp [HeaderTree.number, known, number]

/-- A block above a height has its parent at that height or above. -/
theorem Agrees.parent_atLeast {hash parent : BlockHash} {data : BlockData}
    (agrees : tree.Agrees hash parent data) {height : UInt64} (above : height < data.number) :
    tree.AtLeast height parent := by
  obtain ⟨header, known, rfl, number⟩ := agrees
  rw [← number] at above
  have positive : header.number ≠ 0 := by
    rintro zero
    rw [zero] at above
    exact absurd above (UInt64.not_lt_zero)
  obtain ⟨parent, known'⟩ := Option.isSome_iff_exists.mp (tree.complete hash header known positive)
  have numbers := tree.consistent hash header parent known known'
  refine ⟨parent.number, by simp [HeaderTree.number, known'], ?_⟩
  rw [UInt64.lt_iff_toNat_lt] at above
  rw [UInt64.le_iff_toNat_le]
  omega

/-- A child of a numbered block is numbered one above it. -/
theorem Agrees.above_parent {hash parent : BlockHash} {data : BlockData}
    (agrees : tree.Agrees hash parent data) {height : UInt64}
    (numbered : tree.number parent = some height) : height < data.number := by
  obtain ⟨header, known, rfl, number⟩ := agrees
  obtain ⟨parent, known', rfl⟩ := Option.map_eq_some_iff.mp numbered
  have numbers := tree.consistent hash header parent known known'
  rw [← number, UInt64.lt_iff_toNat_lt]
  omega

/-- The graph agrees with the tree, and whatever is staged is above the anchor. -/
structure Holds (tree : HeaderTree) (graph : BlocksGraph) : Prop where
  wellFormed : graph.WellFormed
  anchor : tree.number graph.anchor.hash = some graph.anchor.number
  agrees : BlocksGraph.AllBlocks tree.Agrees graph
  above : ∀ hash parent, graph.pendingParent hash = some parent →
    ∀ number, tree.number hash = some number → graph.anchor.number < number

end HeaderTree

namespace BlocksGraph

/-- A block pending after an admission was staged by it or was pending before. -/
theorem withDataCapped_pending {graph : BlocksGraph} {hash parent : BlockHash} {data : BlockData}
    {maxPending : Nat} {k p : BlockHash}
    (isPending : (graph.withDataCapped hash parent data maxPending).1.pendingParent k = some p) :
    (k = hash ∧ graph.connects parent = false ∧ graph.Accepts hash parent maxPending) ∨
      graph.pendingParent k = some p := by
  have admits := graph.withDataCapped_admits hash parent data maxPending
  generalize graph.withDataCapped hash parent data maxPending = result at admits isPending
  cases admits with
  | selfParent _ => exact .inr isPending
  | anchorReadmitted _ _ => exact .inr isPending
  | duplicate _ _ _ _ _ => exact .inr isPending
  | conflicting _ _ _ _ _ => exact .inr isPending
  | full _ _ _ _ _ => exact .inr isPending
  | connected _ _ _ _ =>
    right
    obtain ⟨node, found, same⟩ := (pendingParent_eq_some _ _ _).mp isPending
    have related := promoted_promoteReachable (graph.insertConnected hash parent data) hash k
    rw [found] at related
    have before : (graph.insertConnected hash parent data).pendingParent k = some p := by
      rw [pendingParent_eq_some]
      generalize (graph.insertConnected hash parent data).nodes[k]? = lookup at related
      cases related with
      | some promoted =>
        cases promoted with
        | same _ => exact ⟨node, rfl, same⟩
    rw [pendingParent_insertConnected] at before
    split at before
    · simp at before
    · exact before
  | pending proper away absent detached room =>
    rw [pendingParent_insertPending] at isPending
    split at isPending
    · rename_i new
      exact .inl ⟨new, detached, proper, away, (nodes_getElem?_eq_none graph hash).mp absent,
        .inr room⟩
    · exact .inr isPending

end BlocksGraph

namespace HeaderTree.Holds

variable {tree : HeaderTree} {graph : BlocksGraph}

open BlocksGraph

/-- Every block of the graph is above the anchor. -/
theorem node_above (held : tree.Holds graph) {hash : BlockHash} (present : hash ∈ graph.nodes) :
    ∃ number, tree.number hash = some number ∧ graph.anchor.number < number := by
  rcases (mem_nodes_iff graph hash).mp present with isConnected | isPending
  · obtain ⟨path, rooted⟩ := held.wellFormed.connectedRooted hash isConnected
    clear present isConnected
    induction rooted with
    | @root hash attached =>
      obtain ⟨node, found⟩ := (connectedUp_isSome graph hash).mp (by simp [attached])
      have agrees := held.agrees hash _ found
      have raw := rawParent_of_connected attached
      rw [rawParent, found] at raw
      rw [Option.some.inj raw] at agrees
      exact ⟨_, agrees.number, agrees.above_parent held.anchor⟩
    | @child hash parent path attached higher inductionHypothesis =>
      obtain ⟨node, found⟩ := (connectedUp_isSome graph hash).mp (by simp [attached])
      have agrees := held.agrees hash _ found
      have raw := rawParent_of_connected attached
      rw [rawParent, found] at raw
      rw [Option.some.inj raw] at agrees
      obtain ⟨number, numbered, above⟩ := inductionHypothesis
      exact ⟨_, agrees.number, UInt64.lt_trans above (agrees.above_parent numbered)⟩
  · obtain ⟨parent, isPending⟩ := Option.isSome_iff_exists.mp isPending
    obtain ⟨node, found, -⟩ := (pendingParent_eq_some graph hash parent).mp isPending
    have numbered := (held.agrees hash _ found).number
    exact ⟨_, numbered, held.above hash parent isPending _ numbered⟩

/-- A missing parent is at the anchor's height or above. -/
theorem missing_atLeast (held : tree.Holds graph) {hash : BlockHash}
    (missing : hash ∈ graph.missingParents) : tree.AtLeast graph.anchor.number hash := by
  obtain ⟨-, -, child, isPending⟩ := (mem_missingParents graph hash).mp missing
  obtain ⟨node, found, rfl⟩ := (pendingParent_eq_some graph child hash).mp isPending
  have agrees := held.agrees child _ found
  exact agrees.parent_atLeast (held.above child _ isPending _ agrees.number)

theorem new {anchor : BlockHash} {anchorNumber : UInt64}
    (numbered : tree.number anchor = some anchorNumber) :
    tree.Holds (BlocksGraph.new anchor anchorNumber) := by
  refine ⟨new_wellFormed anchor anchorNumber, numbered, allBlocks_new anchor anchorNumber, ?_⟩
  intro hash parent isPending
  simp [BlocksGraph.new, pendingParent] at isPending

/-- A true block that is not staged at or below the anchor keeps the invariant. -/
theorem withDataCapped (held : tree.Holds graph) {hash parent : BlockHash} {data : BlockData}
    (agrees : tree.Agrees hash parent data) {maxPending : Nat}
    (above : graph.connects parent = false → graph.Accepts hash parent maxPending →
      graph.anchor.number < data.number) :
    tree.Holds (graph.withDataCapped hash parent data maxPending).1 := by
  refine ⟨held.wellFormed.withDataCapped _ _ _ _, ?_, ?_, ?_⟩
  · rw [withDataCapped_anchor]
    exact held.anchor
  · exact held.agrees.withDataCapped maxPending (fun _ _ _ => agrees)
  · intro k p isPending number numbered
    rw [withDataCapped_anchor]
    rcases withDataCapped_pending isPending with ⟨rfl, detached, accepted⟩ | before
    · obtain rfl := Option.some.inj (agrees.number.symm.trans numbered)
      exact above detached accepted
    · exact held.above k p before number numbered

theorem modifyData (held : tree.Holds graph) (hash : BlockHash) {f : BlockData → BlockData}
    (keeps : ∀ data, (f data).number = data.number) : tree.Holds (graph.modifyData hash f) := by
  refine ⟨held.wellFormed.modifyData hash f, ?_, ?_, ?_⟩
  · rw [modifyData_anchor]
    exact held.anchor
  · apply held.agrees.modifyData
    rintro parent data ⟨header, known, raw, number⟩
    exact ⟨header, known, raw, by rw [keeps, number]⟩
  · rw [pendingParent_modifyData, modifyData_anchor]
    exact held.above

theorem withStreamedLogs (held : tree.Holds graph) (hash : BlockHash) (logs : List PoolLog) :
    tree.Holds (graph.withStreamedLogs hash logs) := by
  apply held.modifyData
  intro data
  unfold streamInto
  split <;> rfl

theorem withObservedHead (held : tree.Holds graph) (hash : BlockHash) :
    tree.Holds (graph.withObservedHead hash) := by
  have agrees := held.agrees.withObservedHead hash
  have wellFormed := held.wellFormed.withObservedHead hash
  unfold BlocksGraph.withObservedHead at agrees wellFormed ⊢
  split at agrees
  · rename_i present
    rw [if_pos present] at wellFormed ⊢
    exact ⟨wellFormed, held.anchor, agrees, held.above⟩
  · rename_i absent
    rw [if_neg absent]
    exact held

theorem finalizedTo [BloomHash] (held : tree.Holds graph) (target : BlockHash)
    (base : HashMap PoolRef PoolState) (verified : HashSet PoolRef)
    (v4Manager : Option Address) :
    tree.Holds (graph.finalizedTo target base verified v4Manager).1 := by
  have wellFormed := held.wellFormed.finalizedTo target base verified v4Manager
  have agrees := held.agrees.finalizedTo held.wellFormed target base verified v4Manager
  rcases finalizedTo_cases held.wellFormed target base verified v4Manager with
    idle | ⟨newAnchor, node, older, newer, finalizes, moved⟩
  · rw [idle]
    exact held
  · rw [moved] at wellFormed agrees ⊢
    refine ⟨wellFormed, ?_, agrees, ?_⟩
    · exact (held.agrees newAnchor _
        ((connected_eq_some graph newAnchor node).mp finalizes.found)).number
    · intro hash parent isPending
      simp [pendingParent_rerooted held.wellFormed] at isPending

end HeaderTree.Holds

namespace Kernel

/-- The block a head or an answered header delivers is staged at or below the anchor. -/
def StagesAtOrBelowAnchor (chain : ChainKey) (state : State) : Event → Prop
  | .headObserved hash parentHash _ number
  | .blockHeaderReceived _ hash parentHash _ number =>
    state.blocks.graph.connects parentHash = false ∧
      state.blocks.graph.Accepts hash parentHash (maxPendingBlocks chain) ∧
      number ≤ state.blocks.graph.anchor.number
  | _ => False

/-- The header requests that survive a re-root are for its blocks. -/
theorem retainingBlockTargets_header {requests : PendingRequests} {retained : HashSet BlockHash}
    {id : UInt64} {hash : BlockHash}
    (inFlight : (PendingRequests.retainingBlockTargets requests retained).InFlight
      ⟨.blockHeader, id, ⟨hash⟩⟩) : hash ∈ retained := by
  obtain ⟨tick, found⟩ := inFlight
  simp only [PendingRequests.retainingBlockTargets, RequestStore.retain, ne_eq, reduceCtorEq,
    not_false_eq_true, RequestStore.withCollection_of_ne, RequestStore.withCollection_self,
    HashMap.getElem?_retain, Option.filter_eq_some_iff] at found
  exact Std.ExtTreeSet.contains_iff_mem.mp found.2

theorem retainingBlockTargets_poolData {requests : PendingRequests} {retained : HashSet BlockHash}
    {id : UInt64} {payload : GetPoolData}
    (inFlight : (PendingRequests.retainingBlockTargets requests retained).InFlight
      ⟨.poolData, id, payload⟩) : payload.at_ ∈ retained := by
  obtain ⟨tick, found⟩ := inFlight
  simp only [PendingRequests.retainingBlockTargets, RequestStore.retain, ne_eq, reduceCtorEq,
    not_false_eq_true, RequestStore.withCollection_of_ne, RequestStore.withCollection_self,
    HashMap.getElem?_retain, Option.filter_eq_some_iff] at found
  exact Std.ExtTreeSet.contains_iff_mem.mp found.2

/-- Only finality moves the anchor of a continuing kernel. -/
theorem absorb_anchor [BloomHash] (chain : ChainKey) (state : State) {event : Event}
    (stays : ∀ hash number, event ≠ .finalizedBlockObserved hash number) :
    (absorb chain state event).blocks.graph.anchor = state.blocks.graph.anchor := by
  apply absorb_keeps (fun blocks => blocks.graph.anchor = state.blocks.graph.anchor)
  · intro update performed blocks same
    rw [← same]
    cases performed with
    | finalized hash number => exact absurd rfl (stays hash number)
    | headAdmitted hash parent bloom number => exact BlocksGraph.withDataCapped_anchor _ _ _ _ _
    | headMoved hash parent bloom number => exact BlocksGraph.withObservedHead_anchor _ _
    | headDrained hash parent bloom number _ => exact BlocksGraph.modifyData_anchor _ _ _
    | headerAdmitted id hash parent bloom number =>
      exact BlocksGraph.withDataCapped_anchor _ _ _ _ _
    | headerDrained id hash parent bloom number _ => exact BlocksGraph.modifyData_anchor _ _ _
    | completed logs _ => exact BlocksGraph.modifyData_anchor _ _ _
    | answered _ _ => exact BlocksGraph.modifyData_anchor _ _ _
    | unanswered _ _ _ => exact BlocksGraph.modifyData_anchor _ _ _
    | streamed hash logs => exact BlocksGraph.modifyData_anchor _ _ _
    | seeded pools _ =>
      simp only [Blocks.update, Blocks.withFinalizedPoolSeeds]
      split <;> rfl
  · rfl

end Kernel

namespace HeaderTree

open Kernel

variable [BloomHash] (tree : HeaderTree)

/-- The events of an honest tree: headers are true, in any order and any number of times. -/
def Allows : Event → Prop
  | .headObserved hash parentHash logsBloom number =>
    tree.header hash = some ⟨parentHash, logsBloom, number⟩
  | .blockHeaderReceived _ hash parentHash logsBloom number =>
    tree.header hash = some ⟨parentHash, logsBloom, number⟩
  | .canonicalHeaderAtHeightReceived _ hash number => tree.number hash = some number
  | _ => True

/-- A true block of a bootstrap window. -/
def SeedAgrees (block : SeedBlock) : Prop :=
  ∃ header, tree.header block.hash = some header ∧ header.parentHash = block.parent ∧
    header.number = block.number

/-- The starts at a true anchor. The window of a bootstrap lies above it. -/
inductive TrueStart : State × List Effect → Prop
  | init (finalizedHash : BlockHash) (finalizedNumber : UInt64) :
    tree.number finalizedHash = some finalizedNumber →
    TrueStart (State.init finalizedHash finalizedNumber, [])
  | activateFromSeed (finalizedHash : BlockHash) (finalizedNumber : UInt64)
      (finalizedPoolSnapshots : HashMap PoolRef PoolState) (poolRegistry : TrustedPoolRegistry)
      (tokenRegistry : TokenRegistry) (seedBlocks : List SeedBlock) :
    tree.number finalizedHash = some finalizedNumber →
    (∀ block ∈ seedBlocks, tree.SeedAgrees block ∧ finalizedNumber < block.number) →
    TrueStart (State.activateFromSeed finalizedHash finalizedNumber finalizedPoolSnapshots
      poolRegistry tokenRegistry seedBlocks)

/-- The graph agrees with the tree and no header below the anchor is in flight. -/
structure Sound (state : State) : Prop where
  holds : tree.Holds state.blocks.graph
  requests : ∀ id hash, state.pendingRequests.InFlight ⟨.blockHeader, id, ⟨hash⟩⟩ →
    tree.AtLeast state.blocks.graph.anchor.number hash

variable {tree} {chain : ChainKey} {state : State} {event : Event}

/-! ### Absorbing an event -/

theorem holds_update {blocks : Blocks} (held : tree.Holds blocks.graph)
    (registry : TrustedPoolRegistry) {update : Update} (performed : Performs state event update)
    (noHead : ∀ hash parent bloom number, event ≠ .headObserved hash parent bloom number)
    (noHeader : ∀ id hash parent bloom number,
      event ≠ .blockHeaderReceived id hash parent bloom number) :
    tree.Holds (blocks.update chain registry update).graph := by
  cases performed with
  | headAdmitted hash parent bloom number => exact absurd rfl (noHead hash parent bloom number)
  | headMoved hash parent bloom number => exact absurd rfl (noHead hash parent bloom number)
  | headDrained hash parent bloom number _ => exact absurd rfl (noHead hash parent bloom number)
  | headerAdmitted id hash parent bloom number =>
    exact absurd rfl (noHeader id hash parent bloom number)
  | headerDrained id hash parent bloom number _ =>
    exact absurd rfl (noHeader id hash parent bloom number)
  | finalized hash number => exact held.finalizedTo _ _ _ _
  | completed logs _ => exact held.modifyData _ (fun _ => rfl)
  | answered _ _ => exact held.modifyData _ (fun _ => rfl)
  | unanswered _ _ _ => exact held.modifyData _ (fun _ => rfl)
  | streamed hash logs => exact held.withStreamedLogs _ _
  | seeded pools _ =>
    simp only [Blocks.update, Blocks.withFinalizedPoolSeeds]
    split <;> exact held

omit [BloomHash] in
/-- A true header that is not staged at or below the anchor keeps the invariant. -/
theorem holds_admission (held : tree.Holds state.blocks.graph) {hash parent : BlockHash}
    {bloom : Bloom} {number : UInt64} (known : tree.header hash = some ⟨parent, bloom, number⟩)
    (above : ¬ (state.blocks.graph.connects parent = false ∧
      state.blocks.graph.Accepts hash parent (maxPendingBlocks chain) ∧
      number ≤ state.blocks.graph.anchor.number)) :
    tree.Holds (state.blocks.graph.withBlockCapped hash parent number bloom
      (maxPendingBlocks chain)).1 := by
  apply held.withDataCapped ⟨_, known, rfl, rfl⟩
  intro detached accepted
  rw [← UInt64.not_le]
  exact fun below => above ⟨detached, accepted, below⟩

theorem absorb_holds (held : tree.Holds state.blocks.graph) (honest : tree.Allows event)
    (above : ¬ StagesAtOrBelowAnchor chain state event) :
    tree.Holds (absorb chain state event).blocks.graph := by
  cases event with
  | headObserved hash parent bloom number =>
    have own : absorb chain state (.headObserved hash parent bloom number) =
        (state.withLogHeadObserved hash parent number bloom (maxPendingBlocks chain)).1 := rfl
    rw [own, headObserved_state (proper honest)]
    apply drained_keeps tree.Holds
    · exact fun logs held => held.withStreamedLogs hash logs
    · exact (holds_admission held honest above).withObservedHead hash
  | blockHeaderReceived id hash parent bloom number =>
    apply drained_keeps tree.Holds
    · exact fun logs held => held.withStreamedLogs hash logs
    · exact holds_admission held honest above
  | _ =>
    apply absorb_keeps (fun blocks => tree.Holds blocks.graph)
    · intro update performed blocks held'
      apply holds_update held' _ performed <;> simp
    · exact held

/-- Finality drops the header requests below the new anchor. -/
theorem finalized_requests (sound : tree.Sound state) (hash : BlockHash) (number : UInt64)
    (held : tree.Holds (absorb chain state (.finalizedBlockObserved hash number)).blocks.graph) :
    ∀ id missing, (absorb chain state
        (.finalizedBlockObserved hash number)).pendingRequests.InFlight
          ⟨.blockHeader, id, ⟨missing⟩⟩ →
      tree.AtLeast (absorb chain state
        (.finalizedBlockObserved hash number)).blocks.graph.anchor.number missing := by
  intro id missing
  simp only [absorb, State.withFinalizedBlockObserved] at held ⊢
  generalize state.blocks.graph.finalizedTo hash state.blocks.finalizedSnapshot
    (state.poolRegistry.verifiedPools chain) (poolManagerAddress chain) = result at held ⊢
  obtain ⟨graph, snapshot⟩ := result
  by_cases moved : graph.anchor.hash ≠ state.blocks.graph.anchor.hash
  · simp only [if_pos moved] at held ⊢
    intro inFlight
    have present : missing ∈ graph.nodes :=
      (HashMap.mem_keySet graph.nodes missing).mp (retainingBlockTargets_header inFlight)
    obtain ⟨number, numbered, above⟩ := held.node_above present
    exact ⟨number, numbered, UInt64.le_of_lt above⟩
  · simp only [if_neg moved] at held ⊢
    intro inFlight
    have same : graph.anchor.number = state.blocks.graph.anchor.number := by
      have numbered := held.anchor
      rw [not_not.mp moved, sound.holds.anchor] at numbered
      exact (Option.some.inj numbered).symm
    rw [same]
    exact sound.requests id missing inFlight

/-- Absorbing an event keeps the invariant. -/
theorem absorb_sound (chain : ChainKey) (sound : tree.Sound state) (honest : tree.Allows event)
    (above : ¬ StagesAtOrBelowAnchor chain state event) :
    tree.Sound (absorb chain state event) := by
  have held := absorb_holds sound.holds honest above
  by_cases finality : ∃ hash number, event = .finalizedBlockObserved hash number
  · obtain ⟨hash, number, rfl⟩ := finality
    exact ⟨held, finalized_requests sound hash number held⟩
  · refine ⟨held, ?_⟩
    intro id hash inFlight
    rw [absorb_anchor chain state (fun hash number same => finality ⟨hash, number, same⟩)]
    apply sound.requests id hash
    exact ((absorb_evolves chain state event).inFlight _ inFlight).resolve_left List.not_mem_nil

/-! ### One transition -/

omit [BloomHash] in
/-- A header issued by a log-range schedule there is none. -/
theorem not_requestsHeader_of_ranges {output : State × List Effect} {absorbed : State}
    (issues : Issues (fun kind _ => kind = .logsRange) (absorbed, []) output) (hash : BlockHash) :
    ¬ RequestsHeader output.2 hash := by
  rintro ⟨id, membership⟩
  obtain ⟨issued, appended, -, sort⟩ := issues.issued
  rw [appended, List.nil_append] at membership
  have range := sort _ membership
  simp at range

/-- Every header a transition asks for is at the anchor's height or above. -/
theorem transition_requests (sound : tree.Sound state) (honest : tree.Allows event)
    (above : ¬ StagesAtOrBelowAnchor chain state event) {hash : BlockHash}
    (requested : RequestsHeader (transition chain state event).2 hash) :
    tree.AtLeast (transition chain state event).1.blocks.graph.anchor.number hash := by
  by_cases restarts : Reinitialises state event
  · cases event with
    | canonicalHeaderAtHeightReceived id canonical number =>
      rw [transition_reinitialises chain state id restarts] at requested
      obtain ⟨id, membership⟩ := requested
      exact absurd membership List.not_mem_nil
    | _ => exact absurd restarts id
  · have absorbed := absorb_sound chain sound honest above
    have core := (transition_continues chain state event restarts).core
    by_cases finality : ∃ target number, event = .finalizedBlockObserved target number
    · obtain ⟨target, number, rfl⟩ := finality
      rw [transition_of_output rfl] at requested
      exact absurd requested (not_requestsHeader_of_ranges (issues_logRanges chain target _) hash)
    · rw [core]
      rcases transition_headerReasons restarts requested with
        missing | ⟨id, inFlight⟩ | ⟨bloom, number, rfl⟩
      · exact absorbed.holds.missing_atLeast missing
      · have same := absorb_anchor chain state
          (fun target number same => finality ⟨target, number, same⟩)
        rw [same]
        exact sound.requests id hash inFlight
      · have known : tree.header hash = some ⟨hash, bloom, number⟩ := honest
        exact (proper known rfl).elim

/-- One honest transition keeps the invariant. -/
theorem transition_sound (sound : tree.Sound state) (honest : tree.Allows event)
    (above : ¬ StagesAtOrBelowAnchor chain state event) :
    tree.Sound (transition chain state event).1 := by
  have requests : ∀ id hash, (⟨.blockHeader, id, ⟨hash⟩⟩ : Effect) ∈
      (transition chain state event).2 →
      tree.AtLeast (transition chain state event).1.blocks.graph.anchor.number hash :=
    fun id hash membership => transition_requests sound honest above ⟨id, membership⟩
  by_cases restarts : Reinitialises state event
  · cases event with
    | canonicalHeaderAtHeightReceived id canonical number =>
      rw [transition_reinitialises chain state id restarts]
      exact ⟨Holds.new honest, fun _ _ inFlight => absurd inFlight
        (RequestStore.not_inFlight_new _)⟩
    | _ => exact absurd restarts id
  · have absorbed := absorb_sound chain sound honest above
    have continues := transition_continues chain state event restarts
    have core := continues.core
    refine ⟨by rw [core]; exact absorbed.holds, ?_⟩
    intro id hash inFlight
    by_cases finality : ∃ target number, event = .finalizedBlockObserved target number
    · obtain ⟨target, number, rfl⟩ := finality
      rw [core]
      rw [transition_of_output rfl] at inFlight
      obtain ⟨issued, -, evolves, sort⟩ := (issues_logRanges chain target
        (absorb chain state (.finalizedBlockObserved target number), [])).issued
      rcases evolves.inFlight _ inFlight with range | earlier
      · have wrong := sort _ range
        simp at wrong
      · exact absorbed.requests id hash earlier
    · rcases continues.evolves.inFlight _ inFlight with issued | earlier
      · exact requests id hash issued
      · have same := absorb_anchor chain state
          (fun target number same => finality ⟨target, number, same⟩)
        rw [core, same]
        exact sound.requests id hash earlier

/-! ### Whole runs -/

omit [BloomHash] in
theorem fromSeed_holds {anchor : BlockHash} {anchorNumber : UInt64} {blocks : List SeedBlock}
    (numbered : tree.number anchor = some anchorNumber)
    (window : ∀ block ∈ blocks, tree.SeedAgrees block ∧ anchorNumber < block.number) :
    tree.Holds (BlocksGraph.fromSeed anchor anchorNumber blocks) := by
  unfold BlocksGraph.fromSeed
  have start := Holds.new numbered
  have height : (BlocksGraph.new anchor anchorNumber).anchor.number = anchorNumber := rfl
  generalize BlocksGraph.new anchor anchorNumber = graph at start height
  induction blocks generalizing graph with
  | nil => exact start
  | cons block blocks inductionHypothesis =>
    obtain ⟨⟨header, known, raw, number⟩, higher⟩ := window block List.mem_cons_self
    apply inductionHypothesis (fun other listed => window other (List.mem_cons_of_mem _ listed))
    · apply start.withDataCapped ⟨header, known, raw, number⟩
      intro _ _
      rw [height]
      exact higher
    · rw [BlocksGraph.withDataCapped_anchor]
      exact height

omit [BloomHash] in
theorem TrueStart.sound {start : State × List Effect} (starts : tree.TrueStart start) :
    tree.Sound start.1 := by
  cases starts with
  | init hash number numbered =>
    exact ⟨Holds.new numbered, fun _ _ inFlight => absurd inFlight
      (RequestStore.not_inFlight_new _)⟩
  | activateFromSeed hash number snapshots pools tokens blocks numbered window =>
    have held := fromSeed_holds numbered window
    have issues := activation_issues .ethereum hash number snapshots pools tokens blocks
    obtain ⟨issued, -, evolves, sort⟩ := issues.issued
    have graph : (activated hash number snapshots pools tokens blocks).blocks.graph =
      BlocksGraph.fromSeed hash number blocks := rfl
    constructor
    · rw [issues.blocks, graph]
      exact held
    · intro id missing inFlight
      rw [issues.blocks, graph]
      rcases evolves.inFlight _ inFlight with asked | earlier
      · exact held.missing_atLeast (sort _ asked)
      · exact absurd earlier (RequestStore.not_inFlight_new _)

/-- The states of the honest runs that stage nothing at or below the anchor. -/
def Above (tree : HeaderTree) (chain : ChainKey) : State → Prop :=
  Reachable (transition chain) (fun state => ∃ effects, tree.TrueStart (state, effects))
    (fun state event => tree.Allows event ∧ ¬ StagesAtOrBelowAnchor chain state event)

/-- Backfill stops at finality in every honest run that stages nothing at or below the anchor. -/
theorem backfill_stops_at_finality (reached : tree.Above chain state)
    (honest : tree.Allows event) (above : ¬ StagesAtOrBelowAnchor chain state event)
    {hash : BlockHash} (requested : RequestsHeader (transition chain state event).2 hash) :
    tree.AtLeast (transition chain state event).1.blocks.graph.anchor.number hash := by
  have sound : tree.Sound state := by
    refine reached.invariant tree.Sound ?_ ?_
    · rintro state ⟨effects, starts⟩
      exact starts.sound
    · exact fun state event _ sound allowed => transition_sound sound allowed.1 allowed.2
  exact transition_requests sound honest above requested

end HeaderTree

namespace Kernel

/-- Eleven blocks whose hashes and numbers count up from zero. -/
def countingTree : HeaderTree where
  header hash :=
    if hash.toNat ≤ 10 then
      some { parentHash := hash - 1, logsBloom := 0, number := UInt64.ofNat hash.toNat }
    else none
  complete := by
    intro hash child known higher
    rw [Option.ite_none_right_eq_some] at known
    obtain ⟨low, same⟩ := known
    obtain rfl := Option.some.inj same
    have positive : hash.toNat ≠ 0 := by
      intro zero
      exact higher (by simp [zero])
    have parent : (hash - 1).toNat ≤ 10 := by
      rw [BitVec.toNat_sub]
      simp
      omega
    simp only [if_pos parent, Option.isSome_some]
  consistent := by
    intro hash child parent known known'
    rw [Option.ite_none_right_eq_some] at known known'
    obtain ⟨low, same⟩ := known
    obtain rfl := Option.some.inj same
    obtain ⟨low', same'⟩ := known'
    obtain rfl := Option.some.inj same'
    have below : (hash - 1).toNat + 1 = hash.toNat := by
      simp only [BitVec.toNat_sub] at low' ⊢
      simp at low' ⊢
      omega
    simp only [UInt64.toNat_ofNat']
    omega

/-- The announcement of a block of the counting tree. -/
def countingHead (number : Nat) : Event :=
  .headObserved (BitVec.ofNat 256 number) (BitVec.ofNat 256 number - 1) 0 (UInt64.ofNat number)

theorem countingHead_allowed [BloomHash] {number : Nat} (low : number ≤ 10) :
    countingTree.Allows (countingHead number) := by
  have small : (BitVec.ofNat 256 number).toNat = number := by
    rw [BitVec.toNat_ofNat, Nat.mod_eq_of_lt (by omega)]
  have known : countingTree.header (BitVec.ofNat 256 number) =
      some ⟨BitVec.ofNat 256 number - 1, 0, UInt64.ofNat number⟩ := by
    simp only [countingTree, small]
    rw [if_pos low]
  exact known

/-- A gap above the anchor is walked down to the block next to it. -/
theorem backfill_stops_at_finality_gapSample :
    letI : BloomHash := BloomHash.tabulated
    countingTree.AtLeast
      (transition .ethereum (State.init 3 3) (countingHead 6)).1.blocks.graph.anchor.number 5 := by
  let _ : BloomHash := BloomHash.tabulated
  have reached : countingTree.Above .ethereum (State.init 3 3) :=
    .init ⟨[], .init 3 3 (by decide +kernel)⟩
  have above : ¬ StagesAtOrBelowAnchor .ethereum (State.init 3 3) (countingHead 6) := by
    rintro ⟨-, -, below⟩
    revert below
    decide
  have asked : headerRequests (transition .ethereum (State.init 3 3) (countingHead 6)).2 =
      [(1, 5)] := by
    decide +kernel
  refine HeaderTree.backfill_stops_at_finality reached (countingHead_allowed (by decide)) above
    ⟨1, ?_⟩
  rw [← mem_headerRequests, asked]
  exact List.mem_singleton_self _

/-- Anchored at block three, with blocks four and five observed and five finalized. -/
def finalizedSample : State :=
  letI : BloomHash := BloomHash.tabulated
  (run (transition .ethereum) (State.init 3 3)
    [countingHead 4, countingHead 5, .finalizedBlockObserved 5 5]).1

/-- A finalized head that is delivered again is staged, and its parent is asked for. -/
theorem redelivered_head_walks_below :
    letI : BloomHash := BloomHash.tabulated
    let result := transition .ethereum finalizedSample (countingHead 4)
    Reachable (transition .ethereum) (fun state => ∃ effects, countingTree.TrueStart (state, effects))
        (fun _ event => countingTree.Allows event) finalizedSample ∧
      countingTree.Allows (countingHead 4) ∧ RequestsHeader result.2 3 ∧
      ¬ countingTree.AtLeast result.1.blocks.graph.anchor.number 3 := by
  let _ : BloomHash := BloomHash.tabulated
  have allowed : AllowedAlong (transition .ethereum) (fun _ event => countingTree.Allows event)
      (State.init 3 3) [countingHead 4, countingHead 5, .finalizedBlockObserved 5 5] :=
    ⟨countingHead_allowed (by decide), countingHead_allowed (by decide), trivial, trivial⟩
  have asked : headerRequests (transition .ethereum finalizedSample (countingHead 4)).2 =
      [(1, 3)] := by
    decide +kernel
  refine ⟨?_, countingHead_allowed (by decide), ⟨1, ?_⟩, ?_⟩
  · exact Reachable.run (.init ⟨[], .init 3 3 (by decide +kernel)⟩) _ allowed
  · rw [← mem_headerRequests, asked]
    exact List.mem_singleton_self _
  · rintro ⟨number, numbered, above⟩
    have three : countingTree.number 3 = some 3 := by decide +kernel
    obtain rfl := Option.some.inj (three.symm.trans numbered)
    revert above
    decide +kernel

end Kernel

end ArmchairAnalyst

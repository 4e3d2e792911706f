import ArmchairAnalyst.Kernel.BackfillFinality
import ArmchairAnalyst.Kernel.Backfill
import ArmchairAnalyst.Kernel.WorkInFlight

/-!
# The orphan probe

A block that lands pending at the anchor's height or next to it speaks against the
anchor. Over an honest header tree no descendant of the anchor lands there, and every
other block that does is answered with a probe, the only way off the old branch.
-/

namespace ArmchairAnalyst

namespace HeaderTree

/-- A proper descendant of a block in the tree. -/
inductive Descends (tree : HeaderTree) (ancestor : BlockHash) : BlockHash → Prop
  | child {hash : BlockHash} {header : Header} : tree.header hash = some header →
      header.parentHash = ancestor → Descends tree ancestor hash
  | later {hash : BlockHash} {header : Header} : tree.header hash = some header →
      Descends tree ancestor header.parentHash → Descends tree ancestor hash

variable {tree : HeaderTree}

/-- A descendant is numbered above its ancestor, and only a child comes next to it. -/
theorem Descends.number_lt {ancestor hash : BlockHash} (descends : tree.Descends ancestor hash)
    {height : UInt64} (numbered : tree.number ancestor = some height) :
    ∃ header, tree.header hash = some header ∧ height.toNat < header.number.toNat ∧
      (header.number.toNat = height.toNat + 1 → header.parentHash = ancestor) := by
  induction descends with
  | @child hash header known same =>
    obtain ⟨parent, known', rfl⟩ := Option.map_eq_some_iff.mp numbered
    rw [← same] at known'
    have numbers := tree.consistent hash header parent known known'
    exact ⟨header, known, by omega, fun _ => same⟩
  | @later hash header known _ inductionHypothesis =>
    obtain ⟨parent, known', above, -⟩ := inductionHypothesis
    have numbers := tree.consistent hash header parent known known'
    exact ⟨header, known, by omega, fun next => by omega⟩

/-- The graph agrees with the tree. -/
structure Honest (tree : HeaderTree) (graph : BlocksGraph) : Prop where
  wellFormed : graph.WellFormed
  anchor : tree.number graph.anchor.hash = some graph.anchor.number
  agrees : BlocksGraph.AllBlocks tree.Agrees graph

namespace Honest

open BlocksGraph

variable {graph : BlocksGraph}

theorem header_of_rawParent (honest : tree.Honest graph) {hash parent : BlockHash}
    (raw : graph.rawParent hash = some parent) :
    ∃ header, tree.header hash = some header ∧ header.parentHash = parent := by
  rw [rawParent] at raw
  obtain ⟨node, found, rfl⟩ := Option.map_eq_some_iff.mp raw
  obtain ⟨header, known, same, -⟩ := honest.agrees hash node found
  exact ⟨header, known, same⟩

/-- A connected block descends from the anchor. -/
theorem descends (honest : tree.Honest graph) {hash : BlockHash}
    (isConnected : (graph.connectedUp hash).isSome) : tree.Descends graph.anchor.hash hash := by
  obtain ⟨path, rooted⟩ := honest.wellFormed.connectedRooted hash isConnected
  clear isConnected
  induction rooted with
  | root attached =>
    obtain ⟨header, known, same⟩ := honest.header_of_rawParent (rawParent_of_connected attached)
    exact .child known same
  | child attached _ inductionHypothesis =>
    obtain ⟨header, known, rfl⟩ := honest.header_of_rawParent (rawParent_of_connected attached)
    exact .later known inductionHypothesis

theorem new {anchor : BlockHash} {anchorNumber : UInt64}
    (numbered : tree.number anchor = some anchorNumber) :
    tree.Honest (BlocksGraph.new anchor anchorNumber) :=
  ⟨new_wellFormed anchor anchorNumber, numbered, allBlocks_new anchor anchorNumber⟩

theorem withDataCapped (honest : tree.Honest graph) {hash parent : BlockHash} {data : BlockData}
    (agrees : tree.Agrees hash parent data) (maxPending : Nat) :
    tree.Honest (graph.withDataCapped hash parent data maxPending).1 := by
  refine ⟨honest.wellFormed.withDataCapped _ _ _ _, ?_,
    honest.agrees.withDataCapped maxPending (fun _ _ _ => agrees)⟩
  rw [withDataCapped_anchor]
  exact honest.anchor

theorem modifyData (honest : tree.Honest graph) (hash : BlockHash) {f : BlockData → BlockData}
    (keeps : ∀ data, (f data).number = data.number) : tree.Honest (graph.modifyData hash f) := by
  refine ⟨honest.wellFormed.modifyData hash f, ?_, ?_⟩
  · rw [modifyData_anchor]
    exact honest.anchor
  · apply honest.agrees.modifyData
    rintro parent data ⟨header, known, raw, number⟩
    exact ⟨header, known, raw, by rw [keeps, number]⟩

theorem withObservedHead (honest : tree.Honest graph) (hash : BlockHash) :
    tree.Honest (graph.withObservedHead hash) := by
  refine ⟨honest.wellFormed.withObservedHead hash, ?_, honest.agrees.withObservedHead hash⟩
  rw [withObservedHead_anchor]
  exact honest.anchor

theorem finalizedTo [BloomHash] (honest : tree.Honest graph) (target : BlockHash)
    (base : HashMap PoolRef PoolState) (verified : HashSet PoolRef)
    (v4Manager : Option Address) :
    tree.Honest (graph.finalizedTo target base verified v4Manager).1 := by
  refine ⟨honest.wellFormed.finalizedTo target base verified v4Manager, ?_,
    honest.agrees.finalizedTo honest.wellFormed target base verified v4Manager⟩
  rcases finalizedTo_cases honest.wellFormed target base verified v4Manager with
    idle | ⟨newAnchor, node, older, newer, finalizes, moved⟩
  · rw [idle]
    exact honest.anchor
  · rw [moved]
    exact (honest.agrees newAnchor _
      ((connected_eq_some graph newAnchor node).mp finalizes.found)).number

/-- Finality moves the anchor to one of its descendants. -/
theorem finalizedTo_descends [BloomHash] (honest : tree.Honest graph) (target : BlockHash)
    (base : HashMap PoolRef PoolState) (verified : HashSet PoolRef)
    (v4Manager : Option Address) :
    (graph.finalizedTo target base verified v4Manager).1.anchor = graph.anchor ∨
      tree.Descends graph.anchor.hash
        (graph.finalizedTo target base verified v4Manager).1.anchor.hash := by
  rcases finalizedTo_cases honest.wellFormed target base verified v4Manager with
    idle | ⟨newAnchor, node, older, newer, finalizes, moved⟩
  · exact .inl (by rw [idle])
  · have isConnected : (graph.connectedUp newAnchor).isSome := by
      rw [← connected_isSome, finalizes.found]
      rfl
    right
    rw [moved]
    exact honest.descends isConnected

/-- A block that does not descend from the anchor is not connected. -/
theorem isPending_of_apart (honest : tree.Honest graph) {hash : BlockHash}
    (present : hash ∈ graph.nodes) (apart : ¬ tree.Descends graph.anchor.hash hash) :
    graph.isPending hash = true := by
  rcases (mem_nodes_iff graph hash).mp present with isConnected | isPending
  · exact absurd (honest.descends isConnected) apart
  · obtain ⟨parent, isPending⟩ := Option.isSome_iff_exists.mp isPending
    obtain ⟨node, found, -⟩ := (pendingParent_eq_some graph hash parent).mp isPending
    simp only [BlocksGraph.isPending, found, Node.isPending]

/-- A descendant next to the anchor is its child, and a child of the anchor is not pending. -/
theorem not_isPending_of_next (honest : tree.Honest graph) {hash : BlockHash}
    (descends : tree.Descends graph.anchor.hash hash) {header : Header}
    (known : tree.header hash = some header)
    (low : header.number.toNat ≤ graph.anchor.number.toNat + 1) :
    graph.isPending hash = false := by
  obtain ⟨header', known', above, next⟩ := descends.number_lt honest.anchor
  obtain rfl := Option.some.inj (known.symm.trans known')
  have child := next (by omega)
  rw [← Bool.not_eq_true]
  intro isPending
  unfold BlocksGraph.isPending at isPending
  split at isPending
  · rename_i node found
    cases node with
    | connected node => exact absurd isPending (by simp [Node.isPending])
    | pending node =>
      have raw : graph.pendingParent hash = some node.parent :=
        (pendingParent_eq_some graph hash node.parent).mpr ⟨node, found, rfl⟩
      obtain ⟨header', known', same, -⟩ := honest.agrees hash _ found
      obtain rfl := Option.some.inj (known.symm.trans known')
      exact (honest.wellFormed.pendingDetached hash node.parent raw).1 (same.symm.trans child)
  · exact absurd isPending (by simp)

end Honest

open Kernel

variable [BloomHash] {chain : ChainKey} {state : State} {event : Event}

/-! ### Honest runs -/

/-- The starts at a true anchor with true blocks. -/
inductive HonestStart (tree : HeaderTree) : State × List Effect → Prop
  | init (finalizedHash : BlockHash) (finalizedNumber : UInt64) :
    tree.number finalizedHash = some finalizedNumber →
    HonestStart tree (State.init finalizedHash finalizedNumber, [])
  | activateFromSeed (finalizedHash : BlockHash) (finalizedNumber : UInt64)
      (finalizedPoolSnapshots : HashMap PoolRef PoolState) (poolRegistry : TrustedPoolRegistry)
      (tokenRegistry : TokenRegistry) (seedBlocks : List SeedBlock) :
    tree.number finalizedHash = some finalizedNumber →
    (∀ block ∈ seedBlocks, tree.SeedAgrees block) →
    HonestStart tree (State.activateFromSeed finalizedHash finalizedNumber finalizedPoolSnapshots
      poolRegistry tokenRegistry seedBlocks)

omit [BloomHash] in
theorem fromSeed_honest {anchor : BlockHash} {anchorNumber : UInt64} {blocks : List SeedBlock}
    (numbered : tree.number anchor = some anchorNumber)
    (window : ∀ block ∈ blocks, tree.SeedAgrees block) :
    tree.Honest (BlocksGraph.fromSeed anchor anchorNumber blocks) := by
  unfold BlocksGraph.fromSeed
  have start := Honest.new numbered
  generalize BlocksGraph.new anchor anchorNumber = graph at start
  induction blocks generalizing graph with
  | nil => exact start
  | cons block blocks inductionHypothesis =>
    obtain ⟨header, known, raw, number⟩ := window block List.mem_cons_self
    apply inductionHypothesis (fun other listed => window other (List.mem_cons_of_mem _ listed))
    exact start.withDataCapped ⟨header, known, raw, number⟩ _

theorem honest_update {blocks : Blocks} (honest : tree.Honest blocks.graph)
    (registry : TrustedPoolRegistry) (allowed : tree.Allows event) {update : Update}
    (performed : Performs state event update) :
    tree.Honest (blocks.update chain registry update).graph := by
  cases performed with
  | headAdmitted hash parent bloom number => exact honest.withDataCapped ⟨_, allowed, rfl, rfl⟩ _
  | headerAdmitted id hash parent bloom number =>
    exact honest.withDataCapped ⟨_, allowed, rfl, rfl⟩ _
  | headMoved hash parent bloom number => exact honest.withObservedHead hash
  | finalized hash number => exact honest.finalizedTo _ _ _ _
  | completed logs _ => exact honest.modifyData _ (fun _ => rfl)
  | answered _ _ => exact honest.modifyData _ (fun _ => rfl)
  | unanswered _ _ _ => exact honest.modifyData _ (fun _ => rfl)
  | headDrained | headerDrained | streamed =>
    apply honest.modifyData
    intro data
    unfold BlocksGraph.streamInto
    split <;> rfl
  | seeded pools _ =>
    simp only [Blocks.update, Blocks.withFinalizedPoolSeeds]
    split <;> exact honest

theorem absorb_honest (honest : tree.Honest state.blocks.graph) (allowed : tree.Allows event) :
    tree.Honest (absorb chain state event).blocks.graph :=
  absorb_keeps (fun blocks => tree.Honest blocks.graph)
    (fun _ performed _ honest => honest_update honest _ allowed performed) honest

theorem transition_honest (honest : tree.Honest state.blocks.graph)
    (allowed : tree.Allows event) :
    tree.Honest (transition chain state event).1.blocks.graph := by
  by_cases restarts : Reinitialises state event
  · cases event with
    | canonicalHeaderAtHeightReceived id hash number =>
      rw [transition_reinitialises chain state id restarts]
      exact Honest.new allowed
    | _ => exact absurd restarts id
  · rw [(transition_continues chain state event restarts).core]
    exact absorb_honest honest allowed

/-! ### When a probe is sent -/

/-- An event that delivers the header of a block. -/
def Delivers (event : Event) (hash : BlockHash) (number : UInt64) : Prop :=
  ∃ parent bloom, event = .headObserved hash parent bloom number ∨
    ∃ id, event = .blockHeaderReceived id hash parent bloom number

omit [BloomHash] in
theorem probed_of_pending {requests : PendingRequests}
    (probing : PendingRequests.hasPendingFinalityProbe requests = true) :
    ∃ id payload, requests.InFlight ⟨.canonicalHeader, id, payload⟩ := by
  by_contra unprobed
  have empty : requests.collection .canonicalHeader = ∅ := by
    apply HashMap.ext_getElem?
    intro id
    cases found : (requests.collection .canonicalHeader)[id]? with
    | none => simp
    | some pending =>
      exact absurd ⟨id, pending.payload, RequestStore.inFlight_of_taken found⟩ unprobed
  rw [PendingRequests.hasPendingFinalityProbe, empty] at probing
  exact absurd probing (by simp)

omit [BloomHash] in
theorem low_iff (number height : UInt64) :
    number ≤ saturatingSucc height ↔ number.toNat ≤ height.toNat + 1 := by
  unfold saturatingSucc
  have below := number.toNat_lt
  have below' := height.toNat_lt
  split
  · rename_i full
    have top : height.toNat = 2 ^ 64 - 1 := by
      have values := congrArg UInt64.toNat full
      rw [UInt64.toNat_add] at values
      simp only [UInt64.toNat_one, UInt64.toNat_zero] at values
      omega
    rw [UInt64.le_iff_toNat_le]
    omega
  · rename_i room
    have fits : height.toNat + 1 < 2 ^ 64 := by
      by_contra full
      apply room
      apply UInt64.toNat_inj.mp
      rw [UInt64.toNat_add, UInt64.toNat_one, UInt64.toNat_zero]
      omega
    rw [UInt64.le_iff_toNat_le, UInt64.toNat_add, UInt64.toNat_one, Nat.mod_eq_of_lt fits]

omit [BloomHash] in
/-- The probe stage leaves a probe in flight for a pending block at or next to the anchor. -/
theorem probe_inFlight {output : State × List Effect} {hash : BlockHash} {number : UInt64}
    (low : number.toNat ≤ output.1.blocks.graph.anchor.number.toNat + 1)
    (isPending : output.1.blocks.graph.isPending hash = true) :
    ∃ id payload, (withFinalityProbeIfOrphanSuspected hash number
      output).1.pendingRequests.InFlight ⟨.canonicalHeader, id, payload⟩ := by
  have close := (low_iff number output.1.blocks.graph.anchor.number).mpr low
  unfold withFinalityProbeIfOrphanSuspected
  cases probing : PendingRequests.hasPendingFinalityProbe output.1.pendingRequests with
  | true =>
    have settled : orphanSuspected output.1 hash number = false := by
      simp [orphanSuspected, probing]
    rw [settled]
    exact probed_of_pending probing
  | false =>
    have suspected : orphanSuspected output.1 hash number = true := by
      simp [orphanSuspected, probing, close, isPending]
    rw [suspected]
    exact ⟨_, _, RequestStore.inFlight_issue _ _ _ _⟩

omit [BloomHash] in
theorem not_probed {output : State × List Effect} {hash : BlockHash} {number : UInt64}
    (fine : number.toNat ≤ output.1.blocks.graph.anchor.number.toNat + 1 →
      output.1.blocks.graph.isPending hash = false) :
    withFinalityProbeIfOrphanSuspected hash number output = output := by
  apply if_neg
  intro suspected
  simp only [orphanSuspected, Bool.and_eq_true, decide_eq_true_eq, low_iff] at suspected
  rw [fine suspected.1.1] at suspected
  exact absurd suspected.1.2 (by decide)

/-- The requests of every kind but the probe. -/
abbrev Unrelated (kind : RequestKind) (_ : kind.Payload) : Prop := kind ≠ .canonicalHeader

theorem issues_unrelated (chain : ChainKey) (output : State × List Effect) :
    Issues Unrelated output (scheduleUnknownCanonicalRequests chain output) := by
  apply (issues_schedule chain output).weaken
  intro kind payload scheduled
  rintro rfl
  exact scheduled

/-- A delivered header is followed by the probe stage, unless it is the tip again. -/
theorem transition_probes (chain : ChainKey) (state : State) (allowed : tree.Allows event)
    {hash : BlockHash} {number : UInt64} (delivers : Delivers event hash number) :
    (transition chain state event = (absorb chain state event, []) ∧
        hash = state.blocks.graph.observedHead) ∨
      ∃ output, Issues Unrelated (absorb chain state event, []) output ∧
        transition chain state event = withFinalityProbeIfOrphanSuspected hash number output := by
  obtain ⟨parent, bloom, rfl | ⟨id, rfl⟩⟩ := delivers
  · rcases transition_headObserved chain state (proper allowed) bloom number with idle | probes
    · exact .inl idle
    · exact .inr ⟨_, issues_unrelated chain _, probes⟩
  · right
    rw [transition_of_output rfl]
    unfold blockHeaderReceived
    have own : absorb chain state (.blockHeaderReceived id hash parent bloom number) =
        ((state.withLogHeaderReceived hash parent number bloom (maxPendingBlocks chain)).take
          .blockHeader id).1 := rfl
    rw [own]
    simp only
    generalize (state.withLogHeaderReceived hash parent number bloom
      (maxPendingBlocks chain)).take .blockHeader id = taken
    obtain ⟨absorbed, _ | request⟩ := taken
    · exact ⟨_, issues_unrelated chain _, rfl⟩
    · simp only
      split
      · refine ⟨_, Issues.trans ?_ (issues_unrelated chain _), rfl⟩
        exact Issues.request (absorbed, []) .blockHeader request.payload (by simp)
      · exact ⟨_, issues_unrelated chain _, rfl⟩

omit [BloomHash] in
theorem effects_unrelated {absorbed : State} {output : State × List Effect}
    (issues : Issues Unrelated (absorbed, []) output) :
    ∀ effect ∈ output.2, effect.kind ≠ .canonicalHeader := by
  obtain ⟨issued, appended, -, sort⟩ := issues.issued
  rw [appended]
  exact sort

theorem answered_unrelated (chain : ChainKey) (state : State) (kind : RequestKind) (id : UInt64)
    (apply_ : State → kind.Payload → State) :
    ∀ effect ∈ (answered chain state kind id apply_).2, effect.kind ≠ .canonicalHeader := by
  rcases answered_cases chain state kind id apply_ with idle | scheduled
  · rw [idle]
    simp
  · rw [scheduled]
    exact effects_unrelated (issues_unrelated chain _)

/-- An event that delivers no header only repeats a probe that is in flight. -/
theorem undelivered_unrelated (chain : ChainKey) {state : State}
    (unprobed : RequestStore.AllPayloads Unrelated state.pendingRequests)
    (silent : ∀ hash number, ¬ Delivers event hash number) :
    ∀ effect ∈ (transition chain state event).2, effect.kind ≠ .canonicalHeader := by
  cases event with
  | headObserved hash parent bloom number =>
    exact absurd ⟨parent, bloom, .inl rfl⟩ (silent hash number)
  | blockHeaderReceived id hash parent bloom number =>
    exact absurd ⟨parent, bloom, .inr ⟨id, rfl⟩⟩ (silent hash number)
  | finalizedBlockObserved hash number =>
    rw [transition_of_output rfl]
    apply effects_unrelated ((issues_logRanges chain hash _).weaken _)
    rintro kind payload rfl
    simp
  | blockHeaderNotFound id =>
    rw [transition_of_output rfl]
    simp
  | canonicalHeaderAtHeightReceived id hash number =>
    by_cases restarts : Reinitialises state (.canonicalHeaderAtHeightReceived id hash number)
    · rw [transition_reinitialises chain state id restarts]
      simp
    · rw [transition_of_output rfl]
      have stays : canonicalHeaderAtHeightReceived state id hash number =
          ((state.take .canonicalHeader id).1, []) := if_neg restarts
      rw [stays]
      simp
  | logObserved hash logs =>
    rw [transition_of_output rfl]
    unfold logObserved
    split
    · exact effects_unrelated (issues_unrelated chain _)
    · simp
  | requestFailed id =>
    rw [transition_of_output rfl]
    intro effect membership
    exact unprobed.retry_issued id state.tick (Option.mem_toList.mp membership)
  | tick order =>
    rw [transition_of_output rfl]
    exact unprobed.retryAll_issued _ _
  | _ =>
    rw [transition_of_output rfl]
    exact answered_unrelated chain state _ _ _

/-- A delivered block is a proper descendant of the anchor. -/
def DeliversDescendant (tree : HeaderTree) (state : State) (event : Event) : Prop :=
  ∀ hash number, Delivers event hash number → tree.Descends state.blocks.graph.anchor.hash hash

omit [BloomHash] in
theorem delivered_known (allowed : tree.Allows event) {hash : BlockHash} {number : UInt64}
    (delivers : Delivers event hash number) :
    ∃ header, tree.header hash = some header ∧ header.number = number := by
  obtain ⟨parent, bloom, rfl | ⟨id, rfl⟩⟩ := delivers <;> exact ⟨_, allowed, rfl⟩

theorem delivered_anchor (chain : ChainKey) (state : State) {hash : BlockHash} {number : UInt64}
    (delivers : Delivers event hash number) :
    (absorb chain state event).blocks.graph.anchor = state.blocks.graph.anchor := by
  apply absorb_anchor
  obtain ⟨parent, bloom, rfl | ⟨id, rfl⟩⟩ := delivers <;> simp

omit [BloomHash] in
theorem delivered_keeps {hash : BlockHash} {number : UInt64}
    (delivers : Delivers event hash number) : ¬ Reinitialises state event := by
  obtain ⟨parent, bloom, rfl | ⟨_, rfl⟩⟩ := delivers <;> exact id

/-- Descendants of the anchor raise no probe. -/
theorem transition_unrelated (honest : tree.Honest state.blocks.graph)
    (unprobed : RequestStore.AllPayloads Unrelated state.pendingRequests)
    (allowed : tree.Allows event) (descending : tree.DeliversDescendant state event) :
    ∀ effect ∈ (transition chain state event).2, effect.kind ≠ .canonicalHeader := by
  by_cases silent : ∀ hash number, ¬ Delivers event hash number
  · exact undelivered_unrelated chain unprobed silent
  · simp only [not_forall, not_not] at silent
    obtain ⟨hash, number, delivers⟩ := silent
    obtain ⟨header, known, rfl⟩ := delivered_known allowed delivers
    have absorbed : tree.Honest (absorb chain state event).blocks.graph :=
      absorb_honest honest allowed
    have anchor := delivered_anchor chain state delivers
    rcases transition_probes chain state allowed delivers with
      ⟨idle, -⟩ | ⟨output, issues, probes⟩
    · rw [idle]
      simp
    · have graph : output.1.blocks = (absorb chain state event).blocks := issues.blocks
      rw [probes, not_probed]
      · exact effects_unrelated issues
      · intro low
        rw [graph] at low ⊢
        apply absorbed.not_isPending_of_next _ known low
        rw [anchor]
        exact descending hash _ delivers

theorem transition_unprobed (honest : tree.Honest state.blocks.graph)
    (unprobed : RequestStore.AllPayloads Unrelated state.pendingRequests)
    (allowed : tree.Allows event) (descending : tree.DeliversDescendant state event) :
    RequestStore.AllPayloads Unrelated (transition chain state event).1.pendingRequests := by
  by_cases restarts : Reinitialises state event
  · cases event with
    | canonicalHeaderAtHeightReceived id hash number =>
      rw [transition_reinitialises chain state id restarts]
      exact fun request inFlight => absurd inFlight (RequestStore.not_inFlight_new _)
    | _ => exact absurd restarts id
  · exact unprobed.evolves (transition_continues chain state event restarts).evolves
      (transition_unrelated honest unprobed allowed descending)

/-- A newly admitted block that conflicts with the anchor at its height is probed. -/
theorem transition_prompt (honest : tree.Honest state.blocks.graph)
    (allowed : tree.Allows event) {hash : BlockHash} {number : UInt64}
    (delivers : Delivers event hash number) (absent : hash ∉ state.blocks.graph.nodes)
    (admitted : hash ∈ (transition chain state event).1.blocks.graph.nodes)
    (low : number.toNat ≤ state.blocks.graph.anchor.number.toNat + 1)
    (apart : ¬ tree.Descends state.blocks.graph.anchor.hash hash) :
    ∃ id payload, (transition chain state event).1.pendingRequests.InFlight
      ⟨.canonicalHeader, id, payload⟩ := by
  have absorbed : tree.Honest (absorb chain state event).blocks.graph :=
    absorb_honest honest allowed
  have anchor := delivered_anchor chain state delivers
  have core := (transition_continues chain state event (delivered_keeps delivers)).core
  rw [core] at admitted
  have isPending : (absorb chain state event).blocks.graph.isPending hash = true :=
    absorbed.isPending_of_apart admitted (by rw [anchor]; exact apart)
  rcases transition_probes chain state allowed delivers with
    ⟨-, tip⟩ | ⟨output, issues, probes⟩
  · -- An absent tip is the anchor, which is never admitted.
    have atAnchor : hash = state.blocks.graph.anchor.hash := by
      rcases honest.wellFormed.headPresent with same | present
      · rw [tip, same]
      · rw [tip] at absent
        exact absurd present absent
    rw [atAnchor, ← anchor] at admitted
    exact absurd admitted absorbed.wellFormed.anchorAbsent
  · have graph : output.1.blocks = (absorb chain state event).blocks := issues.blocks
    rw [probes]
    apply probe_inFlight
    · rw [graph, anchor]
      exact low
    · rw [graph]
      exact isPending

/-- Only a probe's answer moves the anchor off its descendants, and it restarts the graph. -/
theorem transition_offBranch (honest : tree.Honest state.blocks.graph)
    (moved : (transition chain state event).1.blocks.graph.anchor.hash ≠
      state.blocks.graph.anchor.hash)
    (apart : ¬ tree.Descends state.blocks.graph.anchor.hash
      (transition chain state event).1.blocks.graph.anchor.hash) :
    ∃ id hash number, event = .canonicalHeaderAtHeightReceived id hash number ∧
      number = state.blocks.graph.anchor.number ∧ hash ≠ state.blocks.graph.anchor.hash ∧
      transition chain state event =
        ({ State.init hash number with
            poolRegistry := state.poolRegistry
            tokenRegistry := state.tokenRegistry }, []) := by
  by_cases restarts : Reinitialises state event
  · cases event with
    | canonicalHeaderAtHeightReceived id hash number =>
      exact ⟨id, hash, number, rfl, restarts.1, restarts.2,
        transition_reinitialises chain state id restarts⟩
    | _ => exact absurd restarts id
  · have core := (transition_continues chain state event restarts).core
    rw [core] at moved apart
    by_cases finality : ∃ hash number, event = .finalizedBlockObserved hash number
    · obtain ⟨hash, number, rfl⟩ := finality
      have graph : (absorb chain state (.finalizedBlockObserved hash number)).blocks.graph =
          (state.blocks.graph.finalizedTo hash state.blocks.finalizedSnapshot
            (state.poolRegistry.verifiedPools chain) (poolManagerAddress chain)).1 := by
        simp only [absorb, State.withFinalizedBlockObserved]
        split <;> rfl
      simp only [graph] at moved apart
      rcases honest.finalizedTo_descends hash state.blocks.finalizedSnapshot
          (state.poolRegistry.verifiedPools chain) (poolManagerAddress chain) with same | descends
      · rw [same] at moved
        exact absurd rfl moved
      · exact absurd descends apart
    · apply absurd (congrArg AnchorId.hash (absorb_anchor chain state _)) moved
      exact fun hash number same => finality ⟨hash, number, same⟩

/-! ### Whole runs -/

omit [BloomHash] in
theorem HonestStart.honest {start : State × List Effect} (starts : tree.HonestStart start) :
    tree.Honest start.1.blocks.graph := by
  cases starts with
  | init hash number numbered => exact Honest.new numbered
  | activateFromSeed hash number snapshots pools tokens blocks numbered window =>
    have issues := activation_issues .ethereum hash number snapshots pools tokens blocks
    rw [issues.blocks]
    exact fromSeed_honest numbered window

omit [BloomHash] in
theorem HonestStart.starts {start : State × List Effect} (starts : tree.HonestStart start) :
    Starts start := by
  cases starts with
  | init hash number _ => exact .init hash number
  | activateFromSeed hash number snapshots pools tokens blocks _ _ =>
    exact .activateFromSeed hash number snapshots pools tokens blocks

omit [BloomHash] in
/-- A start asks for headers only. -/
theorem start_unrelated {start : State × List Effect} (starts : Starts start) :
    (∀ effect ∈ start.2, effect.kind ≠ .canonicalHeader) ∧
      RequestStore.AllPayloads Unrelated start.1.pendingRequests := by
  cases starts with
  | init hash number =>
    exact ⟨by simp, fun request inFlight => absurd inFlight (RequestStore.not_inFlight_new _)⟩
  | activateFromSeed hash number snapshots pools tokens blocks =>
    have issues : Issues Unrelated (activated hash number snapshots pools tokens blocks, [])
        (State.activateFromSeed hash number snapshots pools tokens blocks) := by
      apply (activation_issues .ethereum hash number snapshots pools tokens blocks).weaken
      intro kind payload scheduled
      rintro rfl
      exact scheduled
    have unrelated := effects_unrelated issues
    obtain ⟨issued, appended, evolves, sort⟩ := issues.issued
    refine ⟨unrelated, RequestStore.AllPayloads.evolves ?_ evolves sort⟩
    exact fun request inFlight => absurd inFlight (RequestStore.not_inFlight_new _)

/-- Over an honest tree no probe is sent while only descendants of the anchor are delivered,
every admitted block that conflicts with the anchor at its height leaves a probe in flight,
and only a probe's answer leaves the anchor's branch, which restarts everything but the
registries. -/
theorem orphan_probe_sound_and_prompt {start : State × List Effect}
    (starts : tree.HonestStart start) {events : List Event}
    (honest : AllowedAlong (transition chain) (fun _ event => tree.Allows event) start.1 events) :
    (AllowedAlong (transition chain) tree.DeliversDescendant start.1 events →
      ∀ effect ∈ (runFrom chain start events).2, effect.kind ≠ .canonicalHeader) ∧
    ∀ event, tree.Allows event →
      let before := (runFrom chain start events).1
      let after := (transition chain before event).1
      (∀ hash number, Delivers event hash number → hash ∉ before.blocks.graph.nodes →
        hash ∈ after.blocks.graph.nodes →
        number.toNat ≤ before.blocks.graph.anchor.number.toNat + 1 →
        ¬ tree.Descends before.blocks.graph.anchor.hash hash →
        ∃ id payload, after.pendingRequests.InFlight ⟨.canonicalHeader, id, payload⟩) ∧
      (after.blocks.graph.anchor.hash ≠ before.blocks.graph.anchor.hash →
        ¬ tree.Descends before.blocks.graph.anchor.hash after.blocks.graph.anchor.hash →
        ∃ id hash number, event = .canonicalHeaderAtHeightReceived id hash number ∧
          number = before.blocks.graph.anchor.number ∧
          hash ≠ before.blocks.graph.anchor.hash ∧
          after.poolRegistry = before.poolRegistry ∧ after.tokenRegistry = before.tokenRegistry ∧
          after.blocks.graph = BlocksGraph.new hash number ∧
          after.blocks.finalizedSnapshot = ∅ ∧ after.pendingRequests = RequestStore.new) := by
  obtain ⟨quiet, unprobed⟩ := start_unrelated starts.starts
  constructor
  · intro descending
    have along := honest.and descending
    have outcome := along.outputs (fun state => tree.Honest state.blocks.graph ∧
        RequestStore.AllPayloads Unrelated state.pendingRequests)
      (fun effect => effect.kind ≠ .canonicalHeader)
      (fun state event held allowed =>
        ⟨⟨transition_honest held.1 allowed.1, transition_unprobed held.1 held.2 allowed.1 allowed.2⟩,
          transition_unrelated held.1 held.2 allowed.1 allowed.2⟩) ⟨starts.honest, unprobed⟩
    intro effect membership
    rcases List.mem_append.mp membership with first | later
    · exact quiet effect first
    · exact outcome.2 effect later
  · intro event allowed before after
    have held : tree.Honest before.blocks.graph :=
      (honest.outputs (fun state => tree.Honest state.blocks.graph) (fun _ => True)
        (fun state event held allowed => ⟨transition_honest held allowed, fun _ _ => trivial⟩)
        starts.honest).1
    refine ⟨fun hash number delivers => transition_prompt held allowed delivers, ?_⟩
    intro moved apart
    obtain ⟨id, hash, number, answer, height, other, result⟩ :=
      transition_offBranch held moved apart
    have restarted : after = _ := congrArg Prod.fst result
    refine ⟨id, hash, number, answer, height, other, ?_⟩
    rw [restarted]
    exact ⟨rfl, rfl, rfl, rfl, rfl⟩

end HeaderTree

namespace Kernel

/-- The announcement of a counted block delivers that block. -/
theorem countingHead_delivers {number : Nat} {hash : BlockHash} {height : UInt64}
    (delivers : HeaderTree.Delivers (countingHead number) hash height) :
    hash = BitVec.ofNat 256 number := by
  obtain ⟨parent, bloom, same | ⟨id, same⟩⟩ := delivers
  · exact (Event.headObserved.inj same).1.symm
  · exact absurd same (by simp [countingHead])

theorem countingTree_header {number : Nat} (low : number ≤ 10) :
    countingTree.header (BitVec.ofNat 256 number) =
      some ⟨BitVec.ofNat 256 number - 1, 0, UInt64.ofNat number⟩ :=
  @countingHead_allowed BloomHash.tabulated number low

theorem countingTree_child : countingTree.Descends 3 4 :=
  .child (countingTree_header (by decide)) rfl

theorem countingTree_apart : ¬ countingTree.Descends 3 2 := by
  intro descends
  have three : countingTree.number 3 = some 3 :=
    congrArg (Option.map Header.number) (countingTree_header (show 3 ≤ 10 by decide))
  obtain ⟨header, known, above, -⟩ := descends.number_lt three
  obtain rfl := Option.some.inj ((countingTree_header (by decide)).symm.trans known)
  exact absurd above (by decide)

theorem countingChild_honest :
    letI : BloomHash := BloomHash.tabulated
    AllowedAlong (transition .ethereum) (fun _ event => countingTree.Allows event)
      (State.init 3 3) [countingHead 4] := by
  let _ : BloomHash := BloomHash.tabulated
  exact ⟨countingHead_allowed (by decide), trivial⟩

theorem countingChild_descends :
    letI : BloomHash := BloomHash.tabulated
    AllowedAlong (transition .ethereum) countingTree.DeliversDescendant (State.init 3 3)
      [countingHead 4] := by
  let _ : BloomHash := BloomHash.tabulated
  refine ⟨?_, trivial⟩
  intro hash height delivers
  rw [countingHead_delivers delivers]
  exact countingTree_child

/-- A child of the anchor raises no probe; a block below the anchor does. -/
theorem orphan_probe_sound_and_prompt_counting :
    letI : BloomHash := BloomHash.tabulated
    let before := (runFrom .ethereum (State.init 3 3, []) [countingHead 4]).1
    (∀ effect ∈ (runFrom .ethereum (State.init 3 3, []) [countingHead 4]).2,
        effect.kind ≠ .canonicalHeader) ∧
      ∃ id payload, (transition .ethereum before (countingHead 2)).1.pendingRequests.InFlight
        ⟨.canonicalHeader, id, payload⟩ := by
  have starts : countingTree.HonestStart (State.init 3 3, []) := .init 3 3 (by decide +kernel)
  obtain ⟨quiet, later⟩ := @HeaderTree.orphan_probe_sound_and_prompt countingTree
    BloomHash.tabulated .ethereum _ starts _ countingChild_honest
  refine ⟨quiet countingChild_descends, ?_⟩
  refine (later (countingHead 2) (@countingHead_allowed BloomHash.tabulated 2 (by decide))).1 2 2
    ⟨1, 0, .inl rfl⟩ ?_ ?_ ?_ countingTree_apart
  all_goals decide +kernel

end Kernel

end ArmchairAnalyst

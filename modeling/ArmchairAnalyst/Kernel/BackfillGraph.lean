import ArmchairAnalyst.Kernel.FinalizationProofs
import ArmchairAnalyst.Kernel.HeaderRequests

/-!
# Closing a gap

A linear chain whose newest block is staged above a connected prefix is closed
from above. Every delivered block is staged in turn while the staging area has
room, and the block on top of the prefix connects all of them.
-/

namespace ArmchairAnalyst

structure Header where
  parentHash : BlockHash
  logsBloom : Bloom
  number : UInt64

/-- The blocks of a linear chain above block zero. -/
structure HonestChain (length : Nat) where
  hash : Nat → BlockHash
  header : Nat → Header
  distinct : ∀ i ≤ length, ∀ k ≤ length, hash i = hash k → i = k
  linked : ∀ i < length, (header (i + 1)).parentHash = hash i
  numbered : ∀ i < length, (header (i + 1)).number.toNat = (header i).number.toNat + 1
  below : ∀ i ≤ length, (header 0).parentHash ≠ hash i

namespace HonestChain

variable {length : Nat}

theorem hash_ne (blocks : HonestChain length) {i k : Nat} (within : i ≤ length)
    (within' : k ≤ length) (different : i ≠ k) : blocks.hash i ≠ blocks.hash k :=
  fun same => different (blocks.distinct i within k within' same)

/-- No block names itself as its parent. -/
theorem proper (blocks : HonestChain length) {i : Nat} (within : i ≤ length) :
    blocks.hash i ≠ (blocks.header i).parentHash := by
  cases i with
  | zero => exact (blocks.below 0 within).symm
  | succ i =>
    rw [blocks.linked i within]
    exact blocks.hash_ne within (by omega) (by omega)

end HonestChain

namespace BlocksGraph

/-! ### The staging area -/

/-- Inserting a pending node and then counting is counting with that node. -/
theorem filter_insertPending (nodes : HashMap BlockHash Node) (hash : BlockHash)
    (node : PendingNode) :
    (nodes.insert hash (.pending node)).filter (fun _ node => node.isPending) =
      (nodes.filter (fun _ node => node.isPending)).insert hash (.pending node) := by
  apply HashMap.ext_getElem?
  intro k
  rw [HashMap.getElem?_retain, Std.ExtTreeMap.getElem?_insert, Std.ExtTreeMap.getElem?_insert,
    HashMap.getElem?_retain]
  split
  · rfl
  · rfl

theorem pendingCount_insertPending {graph : BlocksGraph} {hash : BlockHash}
    (absent : graph.nodes[hash]? = none) (parent : BlockHash) (data : BlockData) :
    (graph.insertPending hash parent data).pendingCount = graph.pendingCount + 1 := by
  have fresh : hash ∉ graph.nodes.filter (fun _ node => node.isPending) := by
    rw [HashMap.mem_iff_exists]
    simp [absent]
  unfold pendingCount BlocksGraph.insertPending
  rw [filter_insertPending, Std.ExtTreeMap.size_insert,
    if_neg (mt Std.ExtTreeMap.contains_iff_mem.mp fresh)]

theorem pendingCount_modifyData (graph : BlocksGraph) (hash : BlockHash)
    (f : BlockData → BlockData) :
    (graph.modifyData hash f).pendingCount = graph.pendingCount := by
  unfold modifyData
  cases found : graph.nodes[hash]? with
  | none => rfl
  | some node =>
    cases node with
    | pending node =>
      have present : hash ∈ graph.nodes.filter (fun _ node => node.isPending) := by
        rw [HashMap.mem_iff_exists]
        exact ⟨.pending node, by simp [found, Node.isPending]⟩
      simp only [pendingCount, Node.mapData]
      rw [filter_insertPending, Std.ExtTreeMap.size_insert,
        if_pos (Std.ExtTreeMap.contains_iff_mem.mpr present)]
    | connected node =>
      simp only [pendingCount, Node.mapData]
      congr 1
      apply HashMap.ext_getElem?
      intro k
      rw [HashMap.getElem?_retain, Std.ExtTreeMap.getElem?_insert, HashMap.getElem?_retain]
      split
      · rename_i same
        obtain rfl := Std.LawfulEqCmp.eq_of_compare same
        rw [found]
        rfl
      · rfl

/-! ### The views of an admitted block -/

/-- Where a connected block hangs follows from its raw parent. -/
theorem WellFormed.connectedUp_eq {graph : BlocksGraph} (wellFormed : graph.WellFormed)
    {hash parent : BlockHash} (isConnected : (graph.connectedUp hash).isSome)
    (raw : graph.rawParent hash = some parent) :
    graph.connectedUp hash =
      some (if parent = graph.anchor.hash then none else some parent) := by
  obtain ⟨path, rooted⟩ := wellFormed.connectedRooted hash isConnected
  cases rooted with
  | root attached =>
    rw [rawParent_of_connected attached] at raw
    obtain rfl := Option.some.inj raw
    simp [attached]
  | @child _ above _ attached higher =>
    rw [rawParent_of_connected attached] at raw
    obtain rfl : above = parent := Option.some.inj raw
    have proper : above ≠ graph.anchor.hash := by
      rintro rfl
      exact wellFormed.anchorAbsent (connectedUp_mem higher.isSome)
    rw [attached, if_neg proper]

/-- Admission leaves connected blocks connected. -/
theorem withDataCapped_connected {graph : BlocksGraph} (hash parent : BlockHash)
    (data : BlockData) (maxPending : Nat) {k : BlockHash}
    (isConnected : (graph.connectedUp k).isSome) :
    ((graph.withDataCapped hash parent data maxPending).1.connectedUp k).isSome := by
  obtain ⟨node, found⟩ := (connectedUp_isSome graph k).mp isConnected
  obtain ⟨node', found', promoted⟩ :=
    withDataCapped_keeps hash parent data maxPending found
  cases promoted with
  | same _ => exact (connectedUp_isSome _ k).mpr ⟨node, found'⟩

/-- A block that does not connect is staged while there is room. -/
theorem withDataCapped_staged {graph : BlocksGraph} {hash parent : BlockHash}
    (proper : hash ≠ parent) (away : hash ≠ graph.anchor.hash)
    (absent : graph.nodes[hash]? = none) (detached : graph.connects parent = false)
    {maxPending : Nat} (room : graph.pendingCount < maxPending) (data : BlockData) :
    (graph.withDataCapped hash parent data maxPending).1 =
      graph.insertPending hash parent data := by
  have admits := graph.withDataCapped_admits hash parent data maxPending
  generalize graph.withDataCapped hash parent data maxPending = result at admits
  cases admits with
  | selfParent same => exact absurd same proper
  | anchorReadmitted _ same => exact absurd same away
  | duplicate _ _ _ found _ => simp [absent] at found
  | conflicting _ _ _ found _ => simp [absent] at found
  | full _ _ _ _ full => omega
  | connected _ _ _ connects => simp [detached] at connects
  | pending _ _ _ _ _ => rfl

/-! ### A gap that is being closed from above -/

/-- The graph before the newest block arrives: a connected prefix and nothing staged. -/
structure Prefix {length : Nat} (blocks : HonestChain length) (j : Nat) (graph : BlocksGraph) :
    Prop where
  anchor : graph.anchor = ⟨blocks.hash 0, (blocks.header 0).number⟩
  within : j ≤ length
  connected : ∀ i < j, (graph.connectedUp (blocks.hash (i + 1))).isSome ∧
    graph.rawParent (blocks.hash (i + 1)) = some (blocks.hash i)
  absent : ∀ i ≤ length, j < i → blocks.hash i ∉ graph.nodes
  settled : ∀ hash, graph.pendingParent hash = none

/-- The blocks above block `m` are staged, each one below the next. -/
structure Gap (graph : BlocksGraph) {length : Nat} (blocks : HonestChain length)
    (base : BlocksGraph) (m : Nat) : Prop where
  anchor : graph.anchor = base.anchor
  up : graph.connectedUp = base.connectedUp
  staged : ∀ hash parent, graph.pendingParent hash = some parent ↔
    ∃ i, m ≤ i ∧ i < length ∧ hash = blocks.hash (i + 1) ∧ parent = blocks.hash i
  count : graph.pendingCount = length - m

variable {length : Nat} {blocks : HonestChain length} {base graph : BlocksGraph} {j m : Nat}

/-- Nothing is staged before the newest block arrives. -/
theorem Prefix.gap (settled : base.Prefix blocks j) : base.Gap blocks base length := by
  refine ⟨rfl, rfl, ?_, ?_⟩
  · intro hash parent
    rw [settled.settled]
    constructor
    · simp
    · rintro ⟨i, above, within, -⟩
      omega
  · rw [Nat.sub_self, pendingCount, ← Std.ExtTreeMap.length_toList, List.length_eq_zero_iff,
      List.eq_nil_iff_forall_not_mem]
    rintro ⟨hash, node⟩ listed
    have found := (HashMap.mem_toList_iff _ _).mp listed
    simp only [HashMap.getElem?_retain, Option.filter_eq_some_iff] at found
    obtain ⟨found, isPending⟩ := found
    cases node with
    | connected node => simp [Node.isPending] at isPending
    | pending node =>
      have some_ := (pendingParent_eq_some base hash node.parent).mpr ⟨node, found, rfl⟩
      simp [settled.settled] at some_

namespace Gap

theorem absent (settled : base.Prefix blocks j) (gap : graph.Gap blocks base m) {i : Nat}
    (above : j < i) (missing : i ≤ m) (within : i ≤ length) : blocks.hash i ∉ graph.nodes := by
  intro present
  rcases (mem_nodes_iff graph _).mp present with isConnected | isPending
  · rw [gap.up] at isConnected
    exact settled.absent i within above (connectedUp_mem isConnected)
  · obtain ⟨parent, isPending⟩ := Option.isSome_iff_exists.mp isPending
    obtain ⟨k, staged, below, same, -⟩ := (gap.staged _ _).mp isPending
    have equal := blocks.distinct i within (k + 1) below same
    omega

theorem away (settled : base.Prefix blocks j) (gap : graph.Gap blocks base m) {i : Nat}
    (positive : 0 < i) (within : i ≤ length) : blocks.hash i ≠ graph.anchor.hash := by
  rw [gap.anchor, settled.anchor]
  exact blocks.hash_ne within (Nat.zero_le _) (by omega)

/-- The one block to ask for is the one below everything staged. -/
theorem missingParents (settled : base.Prefix blocks j) (gap : graph.Gap blocks base m)
    (above : j < m) (below : m < length) : graph.missingParents = [blocks.hash m] := by
  have members (hash : BlockHash) : hash ∈ graph.missingParents ↔ hash = blocks.hash m := by
    rw [mem_missingParents]
    constructor
    · rintro ⟨-, absent, child, isPending⟩
      obtain ⟨i, staged, within, -, rfl⟩ := (gap.staged _ _).mp isPending
      by_cases same : i = m
      · rw [same]
      · refine absurd ((mem_nodes_iff graph _).mpr (.inr ?_)) absent
        have next := (gap.staged (blocks.hash (i - 1 + 1)) (blocks.hash (i - 1))).mpr
          ⟨i - 1, by omega, by omega, rfl, rfl⟩
        rw [show i - 1 + 1 = i by omega] at next
        simp [next]
    · rintro rfl
      refine ⟨gap.away settled (by omega) (by omega),
        gap.absent settled above (Nat.le_refl m) (by omega), blocks.hash (m + 1), ?_⟩
      exact (gap.staged _ _).mpr ⟨m, Nat.le_refl m, below, rfl, rfl⟩
  have distinct := missingParents_nodup graph
  generalize graph.missingParents = hashes at members distinct
  cases hashes with
  | nil => simpa using (members (blocks.hash m)).mpr rfl
  | cons first rest =>
    obtain rfl := (members first).mp List.mem_cons_self
    cases rest with
    | nil => rfl
    | cons second rest =>
      obtain rfl := (members second).mp (by simp)
      simp at distinct

/-- Once nothing is staged nothing is missing. -/
theorem missingParents_settled (settled : ∀ hash, graph.pendingParent hash = none) :
    graph.missingParents = [] := by
  rw [List.eq_nil_iff_forall_not_mem]
  intro hash missing
  obtain ⟨-, -, child, isPending⟩ := (mem_missingParents graph hash).mp missing
  simp [settled] at isPending

/-- The next block below is staged when there is room. -/
theorem stage (settled : base.Prefix blocks j) (gap : graph.Gap blocks base (m + 1))
    (above : j < m) (below : m < length) {maxPending : Nat}
    (room : length - (m + 1) < maxPending) (data : BlockData) :
    (graph.withDataCapped (blocks.hash (m + 1)) (blocks.hash m) data maxPending).1.Gap blocks base
      m := by
  have absent := (nodes_getElem?_eq_none graph _).mpr
    (gap.absent settled (i := m + 1) (by omega) (Nat.le_refl _) below)
  have missing := gap.absent settled above (by omega) (Nat.le_of_lt below)
  have detached : graph.connects (blocks.hash m) = false := by
    rw [connects_eq_false]
    refine ⟨gap.away settled (by omega) (by omega), ?_⟩
    by_contra isConnected
    exact missing (connectedUp_mem (Option.isSome_iff_ne_none.mpr isConnected))
  rw [withDataCapped_staged (blocks.hash_ne below (by omega) (by omega))
    (gap.away settled (by omega) below) absent detached (by rw [gap.count]; exact room) data]
  refine ⟨gap.anchor, ?_, ?_, ?_⟩
  · rw [connectedUp_insertPending graph absent]
    exact gap.up
  · intro hash parent
    rw [pendingParent_insertPending]
    split
    · rename_i new
      subst new
      constructor
      · rintro same
        obtain rfl := Option.some.inj same
        exact ⟨m, Nat.le_refl m, below, rfl, rfl⟩
      · rintro ⟨i, -, within, same, rfl⟩
        have equal := blocks.distinct (m + 1) below (i + 1) within same
        rw [show i = m by omega]
    · rename_i other
      rw [gap.staged]
      constructor
      · rintro ⟨i, above, within, rfl, rfl⟩
        exact ⟨i, by omega, within, rfl, rfl⟩
      · rintro ⟨i, above, within, rfl, rfl⟩
        refine ⟨i, ?_, within, rfl, rfl⟩
        rcases Nat.lt_or_ge m i with higher | lower
        · exact higher
        · rw [show i = m by omega] at other
          exact absurd rfl other
  · rw [pendingCount_insertPending absent, gap.count]
    omega

theorem modifyData (gap : graph.Gap blocks base m) (hash : BlockHash)
    (f : BlockData → BlockData) : (graph.modifyData hash f).Gap blocks base m := by
  refine ⟨?_, ?_, ?_, ?_⟩
  · rw [modifyData_anchor, gap.anchor]
  · rw [connectedUp_modifyData, gap.up]
  · rw [pendingParent_modifyData]
    exact gap.staged
  · rw [pendingCount_modifyData, gap.count]

theorem withObservedHead (gap : graph.Gap blocks base m) (hash : BlockHash) :
    (graph.withObservedHead hash).Gap blocks base m := by
  unfold BlocksGraph.withObservedHead
  split
  · exact ⟨gap.anchor, gap.up, gap.staged, gap.count⟩
  · exact gap

/-- The newest block is the topmost one staged. -/
theorem headPresent (gap : graph.Gap blocks base m) (below : m < length) :
    blocks.hash length ∈ graph.nodes := by
  rw [mem_nodes_iff]
  right
  have staged := (gap.staged (blocks.hash (length - 1 + 1)) (blocks.hash (length - 1))).mpr
    ⟨length - 1, by omega, by omega, rfl, rfl⟩
  rw [show length - 1 + 1 = length by omega] at staged
  simp [staged]

/-- A full staging area refuses the next block below. -/
theorem refuse (settled : base.Prefix blocks j) (gap : graph.Gap blocks base (m + 1))
    (above : j < m) (below : m < length) {maxPending : Nat}
    (full : maxPending ≤ length - (m + 1)) :
    ¬ graph.Accepts (blocks.hash (m + 1)) (blocks.hash m) maxPending := by
  rintro ⟨-, -, -, connects | room⟩
  · rcases (connects_eq_true graph _).mp connects with atAnchor | isConnected
    · exact gap.away settled (by omega) (by omega) atAnchor
    · exact gap.absent settled above (by omega) (by omega) (connectedUp_mem isConnected)
  · rw [gap.count] at room
    omega

end Gap

/-- The whole chain is connected, and everything else is. -/
structure Closed {length : Nat} (blocks : HonestChain length) (graph : BlocksGraph) : Prop where
  anchor : graph.anchor.hash = blocks.hash 0
  raw : ∀ i < length, graph.rawParent (blocks.hash (i + 1)) = some (blocks.hash i)
  connected : ∀ hash ∈ graph.nodes, (graph.connectedUp hash).isSome

/-- The block on top of the prefix connects everything staged above it. -/
theorem Gap.close (settled : base.Prefix blocks j) (gap : graph.Gap blocks base (j + 1))
    (below : j < length) {maxPending : Nat} (data : BlockData)
    (wellFormed : (graph.withDataCapped (blocks.hash (j + 1)) (blocks.hash j) data
      maxPending).1.WellFormed) :
    (graph.withDataCapped (blocks.hash (j + 1)) (blocks.hash j) data maxPending).1.Closed
      blocks := by
  have connects : graph.connects (blocks.hash j) = true := by
    rw [connects_eq_true, gap.up, gap.anchor, settled.anchor]
    cases j with
    | zero => exact .inl rfl
    | succ i => exact .inr (settled.connected i (Nat.lt_succ_self i)).1
  have accepted : graph.Accepts (blocks.hash (j + 1)) (blocks.hash j) maxPending :=
    ⟨blocks.hash_ne below (by omega) (by omega), gap.away settled (by omega) below,
      gap.absent settled (Nat.lt_succ_self j) (Nat.le_refl _) below, .inl connects⟩
  have view := withDataCapped_rawParent accepted data
  have keeps : ∀ hash, (graph.connectedUp hash).isSome →
      ((graph.withDataCapped (blocks.hash (j + 1)) (blocks.hash j) data
        maxPending).1.connectedUp hash).isSome :=
    fun hash => withDataCapped_connected _ _ data maxPending
  have sameAnchor : (graph.withDataCapped (blocks.hash (j + 1)) (blocks.hash j) data
      maxPending).1.anchor.hash = blocks.hash 0 := by
    rw [withDataCapped_anchor, gap.anchor, settled.anchor]
  generalize (graph.withDataCapped (blocks.hash (j + 1)) (blocks.hash j) data maxPending).1 =
    result at wellFormed view keeps sameAnchor
  have raw : ∀ i < length, result.rawParent (blocks.hash (i + 1)) = some (blocks.hash i) := by
    intro i within
    rw [view]
    rcases Nat.lt_trichotomy i j with lower | rfl | higher
    · have other : blocks.hash (i + 1) ≠ blocks.hash (j + 1) :=
        blocks.hash_ne within below (by omega)
      obtain ⟨isConnected, raw⟩ := settled.connected i lower
      obtain ⟨parent, attached⟩ := Option.isSome_iff_exists.mp isConnected
      have own : graph.connectedUp (blocks.hash (i + 1)) = some parent := by
        rw [gap.up]
        exact attached
      rw [if_neg other, rawParent_of_connected own, gap.anchor, ← raw,
        rawParent_of_connected attached]
    · rw [if_pos rfl]
    · have other : blocks.hash (i + 1) ≠ blocks.hash (j + 1) :=
        blocks.hash_ne within below (by omega)
      rw [if_neg other]
      exact rawParent_of_pending ((gap.staged _ _).mpr ⟨i, higher, within, rfl, rfl⟩)
  have chain : ∀ i < length, (result.connectedUp (blocks.hash (i + 1))).isSome := by
    intro i
    induction i with
    | zero =>
      intro within
      exact wellFormed.connected_of_parent (raw 0 within) (.inl sameAnchor.symm)
    | succ i inductionHypothesis =>
      intro within
      exact wellFormed.connected_of_parent (raw (i + 1) within)
        (.inr (inductionHypothesis (by omega)))
  refine ⟨sameAnchor, raw, ?_⟩
  intro hash present
  rw [← rawParent_isSome, view] at present
  by_cases new : hash = blocks.hash (j + 1)
  · rw [new]
    exact chain j below
  · rw [if_neg new, rawParent_isSome] at present
    rcases (mem_nodes_iff graph hash).mp present with isConnected | isPending
    · exact keeps hash isConnected
    · obtain ⟨parent, isPending⟩ := Option.isSome_iff_exists.mp isPending
      obtain ⟨i, -, within, rfl, -⟩ := (gap.staged _ _).mp isPending
      exact chain i within

/-- A prefix that reaches the newest block is the whole chain. -/
theorem Prefix.closed (settled : graph.Prefix blocks length) : graph.Closed blocks := by
  refine ⟨?_, fun i within => (settled.connected i within).2, ?_⟩
  · rw [settled.anchor]
  · intro hash present
    rcases (mem_nodes_iff graph hash).mp present with isConnected | isPending
    · exact isConnected
    · simp [settled.settled] at isPending

namespace Closed

theorem modifyData (closed : graph.Closed blocks) (hash : BlockHash)
    (f : BlockData → BlockData) : (graph.modifyData hash f).Closed blocks := by
  refine ⟨?_, ?_, ?_⟩
  · rw [modifyData_anchor, closed.anchor]
  · intro i within
    rw [rawParent_modifyData, closed.raw i within]
  · intro k present
    rw [connectedUp_modifyData]
    exact closed.connected k ((mem_modifyData graph hash k f).mp present)

theorem withObservedHead (closed : graph.Closed blocks) (hash : BlockHash) :
    (graph.withObservedHead hash).Closed blocks := by
  unfold BlocksGraph.withObservedHead
  split
  · exact ⟨closed.anchor, closed.raw, closed.connected⟩
  · exact closed

theorem settled (closed : graph.Closed blocks) (hash : BlockHash) :
    graph.pendingParent hash = none := by
  by_contra isPending
  obtain ⟨parent, isPending⟩ := Option.ne_none_iff_exists'.mp isPending
  have isConnected := closed.connected hash
    ((mem_nodes_iff graph hash).mpr (.inr (by simp [isPending])))
  simp [connectedUp_eq_none_of_pending isPending] at isConnected

theorem headPresent (closed : graph.Closed blocks) :
    blocks.hash length = graph.anchor.hash ∨ blocks.hash length ∈ graph.nodes := by
  cases length with
  | zero => exact .inl closed.anchor.symm
  | succ length =>
    right
    rw [← rawParent_isSome, closed.raw length (Nat.lt_succ_self length)]
    rfl

theorem rootedPath (closed : graph.Closed blocks) (wellFormed : graph.WellFormed) {i : Nat}
    (within : i < length) :
    RootedPath graph.connectedUp (blocks.hash (i + 1))
      ((List.range (i + 1)).map (fun k => blocks.hash (k + 1))).reverse := by
  have attached : ∀ k < length, graph.connectedUp (blocks.hash (k + 1)) =
      some (if blocks.hash k = graph.anchor.hash then none else some (blocks.hash k)) := by
    intro k within
    have present := (rawParent_isSome graph (blocks.hash (k + 1))).mp (by simp [closed.raw k within])
    exact wellFormed.connectedUp_eq (closed.connected _ present) (closed.raw k within)
  induction i with
  | zero =>
    apply RootedPath.root
    rw [attached 0 within, if_pos closed.anchor.symm]
  | succ i inductionHypothesis =>
    rw [List.range_succ, List.map_append, List.reverse_append]
    refine RootedPath.child ?_ (inductionHypothesis (by omega))
    rw [attached (i + 1) within, if_neg]
    rw [closed.anchor]
    exact blocks.hash_ne (by omega) (by omega) (by omega)

theorem canonical (closed : graph.Closed blocks) (wellFormed : graph.WellFormed)
    (head : graph.observedHead = blocks.hash length) :
    graph.canonicalOldestToNewest = (List.range length).map (fun i => blocks.hash (i + 1)) := by
  cases length with
  | zero =>
    apply canonicalOldestToNewest_eq_nil
    rw [head, ← closed.anchor, ← Option.not_isSome_iff_eq_none, connected_isSome,
      wellFormed.connectedUp_anchor]
    simp
  | succ length =>
    have rooted := closed.rootedPath wellFormed (Nat.lt_succ_self length)
    rw [← head] at rooted
    rw [canonicalOldestToNewest_eq rooted, List.reverse_reverse]

end Closed

end BlocksGraph

end ArmchairAnalyst

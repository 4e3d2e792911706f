import ArmchairAnalyst.Kernel.GraphInvariant

/-!
# Admission

Everything admission can do to a graph, and that it keeps the invariant.
-/

namespace ArmchairAnalyst.BlocksGraph

/-- The graph before promotion when a block lands connected. -/
def insertConnected (graph : BlocksGraph) (hash parent : BlockHash) (data : BlockData) :
    BlocksGraph :=
  let parentRef := if parent = graph.anchor.hash then .anchor else .block parent
  { graph with nodes := graph.nodes.insert hash (.connected { parent := parentRef, data }) }

def insertPending (graph : BlocksGraph) (hash parent : BlockHash) (data : BlockData) :
    BlocksGraph :=
  { graph with nodes := graph.nodes.insert hash (.pending { parent, data }) }

/-- The outcomes of an admission with the reason for each. -/
inductive Admits (graph : BlocksGraph) (hash parent : BlockHash) (data : BlockData)
    (maxPending : Nat) : BlocksGraph × Admission → Prop
  | selfParent : hash = parent → Admits graph hash parent data maxPending (graph, .selfParent)
  | anchorReadmitted : hash ≠ parent → hash = graph.anchor.hash →
      Admits graph hash parent data maxPending (graph, .anchorReadmitted)
  | duplicate (existing : Node) : hash ≠ parent → hash ≠ graph.anchor.hash →
      graph.nodes[hash]? = some existing → graph.nodeParentHash existing = parent →
      Admits graph hash parent data maxPending (graph, .duplicateBlock)
  | conflicting (existing : Node) : hash ≠ parent → hash ≠ graph.anchor.hash →
      graph.nodes[hash]? = some existing → graph.nodeParentHash existing ≠ parent →
      Admits graph hash parent data maxPending (graph, .conflictingParent)
  | full : hash ≠ parent → hash ≠ graph.anchor.hash → graph.nodes[hash]? = none →
      graph.connects parent = false → maxPending ≤ graph.pendingCount →
      Admits graph hash parent data maxPending (graph, .pendingBufferFull)
  | connected : hash ≠ parent → hash ≠ graph.anchor.hash → graph.nodes[hash]? = none →
      graph.connects parent = true →
      Admits graph hash parent data maxPending
        ((graph.insertConnected hash parent data).promoteReachable hash, .admitted)
  | pending : hash ≠ parent → hash ≠ graph.anchor.hash → graph.nodes[hash]? = none →
      graph.connects parent = false → graph.pendingCount < maxPending →
      Admits graph hash parent data maxPending (graph.insertPending hash parent data, .admitted)

theorem withDataCapped_admits (graph : BlocksGraph) (hash parent : BlockHash) (data : BlockData)
    (maxPending : Nat) :
    graph.Admits hash parent data maxPending
      (graph.withDataCapped hash parent data maxPending) := by
  unfold withDataCapped
  split
  · exact .selfParent (by assumption)
  · split
    · exact .anchorReadmitted (by assumption) (by assumption)
    · split
      · rename_i existing found
        split
        · exact .duplicate existing (by assumption) (by assumption) found (by assumption)
        · exact .conflicting existing (by assumption) (by assumption) found (by assumption)
      · split
        · exact .connected (by assumption) (by assumption) (by assumption) (by assumption)
        · rename_i detached
          split
          · exact .full (by assumption) (by assumption) (by assumption) (by simpa using detached)
              (by assumption)
          · exact .pending (by assumption) (by assumption) (by assumption)
              (by simpa using detached) (by omega)

theorem connects_eq_true (graph : BlocksGraph) (parent : BlockHash) :
    graph.connects parent = true ↔
      parent = graph.anchor.hash ∨ (graph.connectedUp parent).isSome := by
  simp [connects, connected_isSome]

theorem connects_eq_false (graph : BlocksGraph) (parent : BlockHash) :
    graph.connects parent = false ↔
      parent ≠ graph.anchor.hash ∧ graph.connectedUp parent = none := by
  rw [← Bool.not_eq_true, connects_eq_true]
  simp

/-! ### The views of an inserted block -/

theorem connectedUp_insertConnected (graph : BlocksGraph) (hash parent k : BlockHash)
    (data : BlockData) :
    (graph.insertConnected hash parent data).connectedUp k =
      if k = hash then
        some (if parent = graph.anchor.hash then none else some parent)
      else graph.connectedUp k := by
  by_cases same : k = hash
  · subst same
    by_cases atAnchor : parent = graph.anchor.hash <;>
      simp [connectedUp, connected, insertConnected, atAnchor, AnchoredRef.up]
  · have lookup : (graph.insertConnected hash parent data).nodes[k]? = graph.nodes[k]? := by
      simp only [insertConnected]
      grind
    simp [connectedUp, connected, lookup, same]

theorem pendingParent_insertConnected (graph : BlocksGraph) (hash parent k : BlockHash)
    (data : BlockData) :
    (graph.insertConnected hash parent data).pendingParent k =
      if k = hash then none else graph.pendingParent k := by
  by_cases same : k = hash
  · subst same
    simp [pendingParent, insertConnected]
  · have lookup : (graph.insertConnected hash parent data).nodes[k]? = graph.nodes[k]? := by
      simp only [insertConnected]
      grind
    simp [pendingParent, lookup, same]

theorem connectedUp_insertPending (graph : BlocksGraph) {hash : BlockHash}
    (absent : graph.nodes[hash]? = none) (parent : BlockHash) (data : BlockData) :
    (graph.insertPending hash parent data).connectedUp = graph.connectedUp := by
  funext k
  by_cases same : k = hash
  · subst same
    simp [connectedUp, connected, insertPending, absent]
  · have lookup : (graph.insertPending hash parent data).nodes[k]? = graph.nodes[k]? := by
      simp only [insertPending]
      grind
    simp [connectedUp, connected, lookup]

theorem pendingParent_insertPending (graph : BlocksGraph) (hash parent k : BlockHash)
    (data : BlockData) :
    (graph.insertPending hash parent data).pendingParent k =
      if k = hash then some parent else graph.pendingParent k := by
  by_cases same : k = hash
  · subst same
    simp [pendingParent, insertPending]
  · have lookup : (graph.insertPending hash parent data).nodes[k]? = graph.nodes[k]? := by
      simp only [insertPending]
      grind
    simp [pendingParent, lookup, same]

/-! ### Lookups after promotion -/

theorem promoted_promoteReachable (graph : BlocksGraph) (hash k : BlockHash) :
    Option.Rel Promoted graph.nodes[k]? (graph.promoteReachable hash).nodes[k]? :=
  promoted_promoteFrontier graph _ _ k

theorem mem_promoteReachable (graph : BlocksGraph) (hash k : BlockHash) :
    k ∈ (graph.promoteReachable hash).nodes ↔ k ∈ graph.nodes := by
  have related := promoted_promoteReachable graph hash k
  rw [HashMap.mem_iff_exists, HashMap.mem_iff_exists]
  cases found : graph.nodes[k]? with
  | none =>
    rw [found] at related
    generalize (graph.promoteReachable hash).nodes[k]? = lookup at related ⊢
    cases related
    simp
  | some node =>
    rw [found] at related
    generalize (graph.promoteReachable hash).nodes[k]? = lookup at related ⊢
    cases related
    simp

theorem promoteReachable_wellFormed {graph : BlocksGraph} {hash : ConnectedHash}
    (promoting : graph.Promoting [hash]) (anchorAbsent : graph.anchor.hash ∉ graph.nodes)
    (headPresent : graph.observedHead = graph.anchor.hash ∨ graph.observedHead ∈ graph.nodes) :
    (graph.promoteReachable hash).WellFormed := by
  have bounded : pendingEntries graph.nodes ≤ graph.nodes.size :=
    Std.ExtTreeMap.size_filter_le_size
  have enough : [hash].length + pendingEntries graph.nodes ≤ graph.nodes.size + 1 := by
    simp only [List.length_singleton]
    omega
  have finished := promoting.promoteFrontier enough
  refine ⟨?_, finished.connectedRooted, ?_, ?_⟩
  · rw [mem_promoteReachable]
    exact anchorAbsent
  · intro k parent isPending
    obtain ⟨away, waits⟩ := finished.pendingDetached k parent isPending
    refine ⟨away, ?_⟩
    by_contra isConnected
    simpa using waits (Option.isSome_iff_ne_none.mpr isConnected)
  · rw [mem_promoteReachable]
    exact headPresent

/-! ### The invariant -/

theorem WellFormed.insertConnected_promoting {graph : BlocksGraph} (wellFormed : graph.WellFormed)
    {hash parent : BlockHash} (data : BlockData) (absent : graph.nodes[hash]? = none)
    (connects : graph.connects parent = true) :
    (graph.insertConnected hash parent data).Promoting [hash] := by
  have grows : ∀ x p, graph.connectedUp x = some p →
      (graph.insertConnected hash parent data).connectedUp x = some p := by
    intro x p isConnected
    rw [connectedUp_insertConnected, if_neg]
    · exact isConnected
    · rintro rfl
      simp [connectedUp, connected, absent] at isConnected
  refine ⟨?_, ?_, ?_⟩
  · intro k isConnected
    by_cases same : k = hash
    · subst same
      by_cases atAnchor : parent = graph.anchor.hash
      · exact ⟨[k], .root (by rw [connectedUp_insertConnected]; simp [atAnchor])⟩
      · have parentConnected : (graph.connectedUp parent).isSome := by
          rcases (connects_eq_true graph parent).mp connects with anchored | isConnected
          · exact absurd anchored atAnchor
          · exact isConnected
        obtain ⟨path, rooted⟩ := wellFormed.connectedRooted parent parentConnected
        exact ⟨k :: path, .child (by rw [connectedUp_insertConnected]; simp [atAnchor])
          (rooted.mono grows)⟩
    · rw [connectedUp_insertConnected, if_neg same] at isConnected
      obtain ⟨path, rooted⟩ := wellFormed.connectedRooted k isConnected
      exact ⟨path, rooted.mono grows⟩
  · intro k membership
    obtain rfl : k = hash := by simpa using membership
    rw [connectedUp_insertConnected]
    simp
  · intro k p isPending
    rw [pendingParent_insertConnected] at isPending
    split at isPending
    · simp at isPending
    · obtain ⟨away, detached⟩ := wellFormed.pendingDetached k p isPending
      refine ⟨away, ?_⟩
      intro isConnected
      rw [connectedUp_insertConnected] at isConnected
      by_cases same : p = hash
      · simp [same]
      · simp [same, detached] at isConnected

theorem WellFormed.insertPending {graph : BlocksGraph} (wellFormed : graph.WellFormed)
    {hash parent : BlockHash} (data : BlockData) (notAnchor : hash ≠ graph.anchor.hash)
    (absent : graph.nodes[hash]? = none) (detached : graph.connects parent = false) :
    (graph.insertPending hash parent data).WellFormed := by
  refine ⟨?_, ?_, ?_, ?_⟩
  · have anchorAbsent := wellFormed.anchorAbsent
    simp only [BlocksGraph.insertPending]
    grind
  · rw [connectedUp_insertPending graph absent]
    exact wellFormed.connectedRooted
  · intro k p isPending
    rw [connectedUp_insertPending graph absent]
    rw [pendingParent_insertPending] at isPending
    split at isPending
    · obtain rfl : parent = p := by simpa using isPending
      exact (connects_eq_false graph parent).mp detached
    · exact wellFormed.pendingDetached k p isPending
  · have headPresent := wellFormed.headPresent
    simp only [BlocksGraph.insertPending]
    grind

theorem WellFormed.withDataCapped {graph : BlocksGraph} (wellFormed : graph.WellFormed)
    (hash parent : BlockHash) (data : BlockData) (maxPending : Nat) :
    (graph.withDataCapped hash parent data maxPending).1.WellFormed := by
  have admits := graph.withDataCapped_admits hash parent data maxPending
  generalize graph.withDataCapped hash parent data maxPending = result at admits
  cases admits with
  | selfParent _ => exact wellFormed
  | anchorReadmitted _ _ => exact wellFormed
  | duplicate _ _ _ _ _ => exact wellFormed
  | conflicting _ _ _ _ _ => exact wellFormed
  | full _ _ _ _ _ => exact wellFormed
  | connected _ notAnchor absent connects =>
    refine promoteReachable_wellFormed
      (wellFormed.insertConnected_promoting data absent connects) ?_ ?_
    · have anchorAbsent := wellFormed.anchorAbsent
      simp only [insertConnected]
      grind
    · have headPresent := wellFormed.headPresent
      simp only [insertConnected]
      grind
  | pending _ notAnchor absent detached _ =>
    exact wellFormed.insertPending data notAnchor absent detached

theorem WellFormed.withBlockCapped {graph : BlocksGraph} (wellFormed : graph.WellFormed)
    (hash parent : BlockHash) (number : UInt64) (bloom : Bloom) (maxPending : Nat) :
    (graph.withBlockCapped hash parent number bloom maxPending).1.WellFormed :=
  wellFormed.withDataCapped hash parent _ maxPending

theorem fromSeed_wellFormed (anchor : BlockHash) (anchorNumber : UInt64)
    (blocks : List SeedBlock) : (fromSeed anchor anchorNumber blocks).WellFormed := by
  unfold fromSeed
  generalize start : BlocksGraph.new anchor anchorNumber = graph
  have wellFormed : graph.WellFormed := start ▸ new_wellFormed anchor anchorNumber
  clear start
  induction blocks generalizing graph with
  | nil => exact wellFormed
  | cons block blocks inductionHypothesis =>
    exact inductionHypothesis _ (wellFormed.withDataCapped _ _ _ _)

/-! ### What admission changes -/

@[simp] theorem withDataCapped_anchor (graph : BlocksGraph) (hash parent : BlockHash)
    (data : BlockData) (maxPending : Nat) :
    (graph.withDataCapped hash parent data maxPending).1.anchor = graph.anchor := by
  have admits := graph.withDataCapped_admits hash parent data maxPending
  generalize graph.withDataCapped hash parent data maxPending = result at admits
  cases admits <;> rfl

@[simp] theorem withDataCapped_observedHead (graph : BlocksGraph) (hash parent : BlockHash)
    (data : BlockData) (maxPending : Nat) :
    (graph.withDataCapped hash parent data maxPending).1.observedHead = graph.observedHead := by
  have admits := graph.withDataCapped_admits hash parent data maxPending
  generalize graph.withDataCapped hash parent data maxPending = result at admits
  cases admits <;> rfl

/-- Admission keeps every present block, at most connecting it. -/
theorem withDataCapped_keeps {graph : BlocksGraph} (hash parent : BlockHash) (data : BlockData)
    (maxPending : Nat) {k : BlockHash} {node : Node} (found : graph.nodes[k]? = some node) :
    ∃ node', (graph.withDataCapped hash parent data maxPending).1.nodes[k]? = some node' ∧
      Promoted node node' := by
  have admits := graph.withDataCapped_admits hash parent data maxPending
  generalize graph.withDataCapped hash parent data maxPending = result at admits
  cases admits with
  | selfParent _ => exact ⟨node, found, .same node⟩
  | anchorReadmitted _ _ => exact ⟨node, found, .same node⟩
  | duplicate _ _ _ _ _ => exact ⟨node, found, .same node⟩
  | conflicting _ _ _ _ _ => exact ⟨node, found, .same node⟩
  | full _ _ _ _ _ => exact ⟨node, found, .same node⟩
  | connected _ _ absent _ =>
    have kept : (graph.insertConnected hash parent data).nodes[k]? = some node := by
      simp only [insertConnected]
      grind
    have related := promoted_promoteReachable (graph.insertConnected hash parent data) hash k
    rw [kept] at related
    cases lookup : ((graph.insertConnected hash parent data).promoteReachable hash).nodes[k]? with
    | none =>
      rw [lookup] at related
      cases related
    | some node' =>
      rw [lookup] at related
      cases related with
      | some promoted => exact ⟨node', rfl, promoted⟩
  | pending _ _ absent _ _ =>
    refine ⟨node, ?_, .same node⟩
    simp only [insertPending]
    grind

/-- A block present after admission was admitted now or was present before. -/
theorem withDataCapped_origin {graph : BlocksGraph} {hash parent : BlockHash} {data : BlockData}
    {maxPending : Nat} {k : BlockHash} {node : Node}
    (found : (graph.withDataCapped hash parent data maxPending).1.nodes[k]? = some node) :
    (k = hash ∧ graph.nodes[hash]? = none ∧ hash ≠ graph.anchor.hash ∧ hash ≠ parent ∧
        node.data = data ∧ graph.nodeParentHash node = parent) ∨
      ∃ node', graph.nodes[k]? = some node' ∧ Promoted node' node := by
  have admits := graph.withDataCapped_admits hash parent data maxPending
  generalize graph.withDataCapped hash parent data maxPending = result at admits found
  cases admits with
  | selfParent _ => exact .inr ⟨node, found, .same node⟩
  | anchorReadmitted _ _ => exact .inr ⟨node, found, .same node⟩
  | duplicate _ _ _ _ _ => exact .inr ⟨node, found, .same node⟩
  | conflicting _ _ _ _ _ => exact .inr ⟨node, found, .same node⟩
  | full _ _ _ _ _ => exact .inr ⟨node, found, .same node⟩
  | connected proper notAnchor absent _ =>
    have related := promoted_promoteReachable (graph.insertConnected hash parent data) hash k
    rw [found] at related
    cases lookup : (graph.insertConnected hash parent data).nodes[k]? with
    | none =>
      rw [lookup] at related
      cases related
    | some node' =>
      rw [lookup] at related
      cases related with
      | some promoted =>
        by_cases same : k = hash
        · subst same
          refine .inl ⟨rfl, absent, notAnchor, proper, ?_⟩
          simp only [insertConnected, Std.ExtTreeMap.getElem?_insert_self, Option.some.injEq]
            at lookup
          subst lookup
          cases promoted
          by_cases atAnchor : parent = graph.anchor.hash <;>
            simp [Node.data, nodeParentHash, connectedParentHash, atAnchor]
        · refine .inr ⟨node', ?_, promoted⟩
          simp only [insertConnected] at lookup
          grind
  | pending proper notAnchor absent _ _ =>
    by_cases same : k = hash
    · subst same
      refine .inl ⟨rfl, absent, notAnchor, proper, ?_⟩
      simp only [insertPending, Std.ExtTreeMap.getElem?_insert_self, Option.some.injEq] at found
      subst found
      exact ⟨rfl, rfl⟩
    · refine .inr ⟨node, ?_, .same node⟩
      simp only [insertPending] at found
      grind

end ArmchairAnalyst.BlocksGraph

import ArmchairAnalyst.Library.KeyedMerge
import ArmchairAnalyst.Kernel.AdmissionProofs
import ArmchairAnalyst.Bootstrap

/-!
# The graph built from the bootstrap window

A seed lists its blocks parent first, so each one lands connected under the one
before it and none ever waits. The blocks of a window are linked in the order of
their numbers, over an empty filler where numbers are skipped.
-/

namespace ArmchairAnalyst

def SeedBlock.data (block : SeedBlock) : BlockData where
  number := block.number
  logsBloom := none
  logs := .complete (keyByLogIndex block.logs)

/-- The node that holds a seed block in a graph on an anchor. -/
def SeedBlock.node (anchor : BlockHash) (block : SeedBlock) : Node :=
  .connected
    { parent := if block.parent = anchor then .anchor else .block block.parent
      data := block.data }

namespace BlocksGraph

/-! ### Admission where nothing is pending -/

def NonePending (graph : BlocksGraph) : Prop := ∀ hash, graph.pendingParent hash = none

theorem NonePending.connected_of_mem {graph : BlocksGraph} (settled : graph.NonePending)
    {hash : BlockHash} {node : Node} (found : graph.nodes[hash]? = some node) :
    ∃ connected, node = .connected connected := by
  cases node with
  | connected node => exact ⟨node, rfl⟩
  | pending node =>
    have unpended := settled hash
    simp [pendingParent, found] at unpended

theorem NonePending.promoteReachable {graph : BlocksGraph} (settled : graph.NonePending)
    (hash : ConnectedHash) : graph.promoteReachable hash = graph := by
  have nodes : (graph.promoteReachable hash).nodes = graph.nodes := by
    apply HashMap.ext_getElem?
    intro k
    have related := promoted_promoteReachable graph hash k
    cases found : graph.nodes[k]? with
    | none =>
      rw [found] at related
      generalize (graph.promoteReachable hash).nodes[k]? = lookup at related ⊢
      cases related
      rfl
    | some node =>
      obtain ⟨connected, rfl⟩ := settled.connected_of_mem found
      rw [found] at related
      generalize (graph.promoteReachable hash).nodes[k]? = lookup at related ⊢
      cases related with
      | some promoted =>
        cases promoted
        rfl
  unfold BlocksGraph.promoteReachable at nodes ⊢
  simp only at nodes
  rw [nodes]

theorem NonePending.insertConnected {graph : BlocksGraph} (settled : graph.NonePending)
    (hash parent : BlockHash) (data : BlockData) :
    (graph.insertConnected hash parent data).NonePending := by
  intro k
  rw [pendingParent_insertConnected, settled k, ite_self]

/-- Where nothing is pending, a new block under a connected one is only inserted. -/
theorem NonePending.withDataCapped {graph : BlocksGraph} (settled : graph.NonePending)
    {hash parent : BlockHash} (proper : hash ≠ parent) (notAnchor : hash ≠ graph.anchor.hash)
    (absent : graph.nodes[hash]? = none) (connects : graph.connects parent = true)
    (data : BlockData) (maxPending : Nat) :
    (graph.withDataCapped hash parent data maxPending).1 =
      graph.insertConnected hash parent data := by
  have promoted := (settled.insertConnected hash parent data).promoteReachable hash
  unfold BlocksGraph.withDataCapped
  rw [if_neg proper, if_neg notAnchor, absent]
  simp only [connects, if_true]
  exact promoted

theorem NonePending.missingParents {graph : BlocksGraph} (settled : graph.NonePending) :
    graph.missingParents = [] := by
  unfold BlocksGraph.missingParents
  rw [HashSet.toList_eq_nil_iff]
  intro hash membership
  rw [HashSet.mem_collect, List.mem_filterMap] at membership
  obtain ⟨node, stored, selected⟩ := membership
  obtain ⟨k, found⟩ := (HashMap.mem_values graph.nodes node).mp stored
  obtain ⟨connected, rfl⟩ := settled.connected_of_mem found
  simp at selected

/-! ### Seeding a chain of blocks -/

/-- The blocks of a list each hang under the one before, the first one under `parent`. -/
inductive Linked : BlockHash → List SeedBlock → Prop
  | nil (parent : BlockHash) : Linked parent []
  | cons {parent : BlockHash} {block : SeedBlock} {blocks : List SeedBlock} :
      block.parent = parent → Linked block.hash blocks → Linked parent (block :: blocks)

def seed (graph : BlocksGraph) (blocks : List SeedBlock) : BlocksGraph :=
  blocks.foldl (fun graph block =>
    (graph.withDataCapped block.hash block.parent block.data maxPendingBlocks).1) graph

theorem fromSeed_eq_seed (anchor : BlockHash) (anchorNumber : UInt64) (blocks : List SeedBlock) :
    fromSeed anchor anchorNumber blocks = (BlocksGraph.new anchor anchorNumber).seed blocks := rfl

/-- What a seeded graph holds: the graph it was and the seed's blocks, all connected. -/
structure Seeded (graph : BlocksGraph) (blocks : List SeedBlock) (seeded : BlocksGraph) :
    Prop where
  anchor : seeded.anchor = graph.anchor
  settled : seeded.NonePending
  stored : ∀ block ∈ blocks,
    seeded.nodes[block.hash]? = some (block.node graph.anchor.hash)
  others : ∀ hash, hash ∉ blocks.map (·.hash) → seeded.nodes[hash]? = graph.nodes[hash]?

theorem NonePending.seed {graph : BlocksGraph} {parent : BlockHash} {blocks : List SeedBlock}
    (settled : graph.NonePending) (linked : Linked parent blocks)
    (connects : graph.connects parent = true) (distinct : (parent :: blocks.map (·.hash)).Nodup)
    (notAnchor : ∀ block ∈ blocks, block.hash ≠ graph.anchor.hash)
    (absent : ∀ block ∈ blocks, graph.nodes[block.hash]? = none) :
    graph.Seeded blocks (graph.seed blocks) := by
  induction blocks generalizing graph parent with
  | nil =>
    exact ⟨rfl, settled, fun block membership => absurd membership List.not_mem_nil,
      fun _ _ => rfl⟩
  | cons block blocks inductionHypothesis =>
    cases linked with
    | cons attached rest =>
      subst attached
      obtain ⟨fresh, distinct⟩ := List.nodup_cons.mp distinct
      rw [List.map_cons] at fresh distinct
      have proper : block.hash ≠ block.parent := by
        intro same
        exact fresh (same ▸ List.mem_cons_self)
      have step := settled.withDataCapped proper (notAnchor block List.mem_cons_self)
        (absent block List.mem_cons_self) connects block.data maxPendingBlocks
      have lookup (k : BlockHash) :
          (graph.insertConnected block.hash block.parent block.data).nodes[k]? =
            if k = block.hash then some (block.node graph.anchor.hash)
            else graph.nodes[k]? :=
        HashMap.getElem?_insert _ _ _ _
      have apart : ∀ other ∈ blocks, other.hash ≠ block.hash := by
        intro other membership same
        exact (List.nodup_cons.mp distinct).1 (same ▸ List.mem_map_of_mem membership)
      have seeded := @inductionHypothesis (graph.insertConnected block.hash block.parent block.data)
        block.hash (settled.insertConnected _ _ _) rest
        ((connects_eq_true _ _).mpr (.inr (by rw [connectedUp_insertConnected]; simp)))
        distinct
        (fun other membership => notAnchor other (List.mem_cons_of_mem _ membership))
        (fun other membership => by
          rw [lookup, if_neg (apart other membership)]
          exact absent other (List.mem_cons_of_mem _ membership))
      have unfolded : graph.seed (block :: blocks) =
          (graph.insertConnected block.hash block.parent block.data).seed blocks := by
        rw [← step]
        rfl
      rw [unfolded]
      refine ⟨seeded.anchor, seeded.settled, ?_, ?_⟩
      · intro other membership
        rcases List.mem_cons.mp membership with rfl | later
        · have untouched := seeded.others other.hash (List.nodup_cons.mp distinct).1
          rw [untouched, lookup, if_pos rfl]
        · exact seeded.stored other later
      · intro hash elsewhere
        rw [List.map_cons, List.mem_cons, not_or] at elsewhere
        rw [seeded.others hash elsewhere.2, lookup, if_neg elsewhere.1]

end BlocksGraph

namespace Bootstrap

/-! ### The retained blocks -/

/-- The blocks that a seed keeps: the first one listed for each number above the
anchor, up to the highest number less the trimmed tip. -/
def Retains (window : List RangeLogBlock) (anchor : FinalizedAnchor) (tipTrim : UInt64)
    (block : RangeLogBlock) : Prop :=
  window.find? (fun other => other.number == block.number) = some block ∧
    anchor.number < block.number ∧
    ∃ highest ∈ window, (∀ other ∈ window, other.number ≤ highest.number) ∧
      block.number.toNat ≤ highest.number.toNat - tipTrim.toNat

theorem getElem?_recentBlocks (window : List RangeLogBlock) (anchor : FinalizedAnchor)
    (number : UInt64) :
    (recentBlocks window anchor)[number]? =
      if anchor.number < number then window.find? (fun block => block.number == number)
      else none := by
  induction window using List.reverseRecOn generalizing number with
  | nil => simp [recentBlocks]
  | append_singleton window block inductionHypothesis =>
    have step : recentBlocks (window ++ [block]) anchor =
        if anchor.number < block.number then
          (recentBlocks window anchor).insertIfNew block.number block
        else recentBlocks window anchor := by
      simp only [recentBlocks, List.foldl_append, List.foldl_cons, List.foldl_nil]
    rw [step, List.find?_append, List.find?_singleton]
    by_cases above : anchor.number < block.number
    · rw [if_pos above, HashMap.getElem?_insertIfNew, inductionHypothesis number,
        inductionHypothesis block.number, if_pos above]
      by_cases same : number = block.number
      · subst same
        simp [above]
      · simp [same, Ne.symm same]
    · rw [if_neg above, inductionHypothesis]
      by_cases same : block.number = number
      · simp [← same, above]
      · simp [same]

theorem number_of_recentBlocks {window : List RangeLogBlock} {anchor : FinalizedAnchor}
    {number : UInt64} {block : RangeLogBlock}
    (found : (recentBlocks window anchor)[number]? = some block) :
    block.number = number ∧ block ∈ window ∧ anchor.number < number := by
  rw [getElem?_recentBlocks] at found
  split at found
  · rename_i above
    have same := List.find?_some found
    exact ⟨by simpa using same, List.mem_of_find?_eq_some found, above⟩
  · simp at found

theorem maxKey?_recentBlocks {window : List RangeLogBlock} {anchor : FinalizedAnchor}
    {maxNumber : UInt64} (found : (recentBlocks window anchor).maxKey? = some maxNumber) :
    ∃ highest ∈ window, highest.number = maxNumber ∧
      ∀ other ∈ window, other.number ≤ maxNumber := by
  obtain ⟨present, greatest⟩ :=
    Std.ExtTreeMap.maxKey?_eq_some_iff_mem_and_forall.mp found
  obtain ⟨highest, stored⟩ := (HashMap.mem_iff_exists _ _).mp present
  obtain ⟨number, membership, above⟩ := number_of_recentBlocks stored
  refine ⟨highest, membership, number, ?_⟩
  intro other listed
  by_cases low : anchor.number < other.number
  · have named : (window.find? (fun block => block.number == other.number)).isSome := by
      rw [List.find?_isSome]
      exact ⟨other, listed, by simp⟩
    obtain ⟨first, found'⟩ := Option.isSome_iff_exists.mp named
    have key : other.number ∈ recentBlocks window anchor :=
      (HashMap.mem_iff_exists _ _).mpr ⟨first, by
        rw [getElem?_recentBlocks, if_pos low]
        exact found'⟩
    exact Std.isLE_compare.mp (greatest other.number key)
  · exact UInt64.le_of_lt (UInt64.lt_of_le_of_lt (UInt64.not_lt.mp low) above)

theorem le_saturatingSub_iff (a b c : UInt64) :
    c ≤ saturatingSub a b ↔ c.toNat ≤ a.toNat - b.toNat := by
  unfold saturatingSub
  split
  · rename_i le
    rw [UInt64.le_iff_toNat_le, UInt64.toNat_sub_of_le _ _ le]
  · rename_i greater
    rw [UInt64.le_iff_toNat_le] at greater
    rw [UInt64.le_iff_toNat_le, UInt64.toNat_zero]
    omega

/-- A window is seeded with its retained blocks in the order of their numbers. -/
theorem fromWindow_blocks [FillerHash] (window : List RangeLogBlock) (anchor : FinalizedAnchor)
    (tipTrim : UInt64) :
    ∃ chain : List RangeLogBlock, chain.Pairwise (fun lower upper => lower.number < upper.number) ∧
      (∀ block, block ∈ chain ↔ Retains window anchor tipTrim block) ∧
      (GraphSeed.fromWindow window anchor tipTrim).blocks =
        linkBlocks anchor.number anchor.hash (chain.map (fun block => (block.number, block))) := by
  cases found : (recentBlocks window anchor).maxKey? with
  | none =>
    refine ⟨[], List.Pairwise.nil, ?_, by simp [GraphSeed.fromWindow, found, linkBlocks]⟩
    intro block
    have empty := Std.ExtTreeMap.maxKey?_eq_none_iff.mp found
    have lookup := getElem?_recentBlocks window anchor block.number
    rw [empty] at lookup
    constructor
    · intro membership
      exact absurd membership List.not_mem_nil
    · rintro ⟨first, above, -⟩
      simp [above, first] at lookup
  | some maxNumber =>
    obtain ⟨highest, highestListed, highestNumber, greatest⟩ := maxKey?_recentBlocks found
    generalize retained : (recentBlocks window anchor).toList.filter
      (fun entry => decide (entry.1 ≤ saturatingSub maxNumber tipTrim)) = entries
    have numbered : ∀ entry ∈ entries, (entry.2.number, entry.2) = entry := by
      intro entry membership
      rw [← retained, List.mem_filter, HashMap.mem_toList_iff] at membership
      rw [(number_of_recentBlocks membership.1).1]
    have same : entries = (entries.map Prod.snd).map (fun block => (block.number, block)) := by
      rw [List.map_map]
      conv_lhs => rw [← List.map_id entries]
      apply List.map_congr_left
      intro entry membership
      exact (numbered entry membership).symm
    refine ⟨entries.map Prod.snd, ?_, ?_, ?_⟩
    · rw [List.pairwise_map]
      have ordered : entries.Pairwise (fun lower upper => compare lower.1 upper.1 = .lt) := by
        rw [← retained]
        exact Std.ExtTreeMap.ordered_keys_toList.sublist List.filter_sublist
      refine ordered.imp_of_mem ?_
      intro lower upper listed listed' before
      rw [← numbered lower listed, ← numbered upper listed'] at before
      exact Std.compare_eq_lt.mp before
    · intro block
      have lookup := getElem?_recentBlocks window anchor block.number
      rw [List.mem_map]
      constructor
      · rintro ⟨entry, membership, rfl⟩
        have key := congrArg Prod.fst (numbered entry membership)
        rw [← retained, List.mem_filter, HashMap.mem_toList_iff] at membership
        obtain ⟨stored, low⟩ := membership
        obtain ⟨-, -, above⟩ := number_of_recentBlocks stored
        simp only at key
        rw [key, stored, if_pos above] at lookup
        refine ⟨by rw [key]; exact lookup.symm, by rw [key]; exact above, highest, highestListed,
          by rw [highestNumber]; exact greatest, ?_⟩
        rw [key, highestNumber, ← le_saturatingSub_iff]
        simpa using low
      · rintro ⟨first, above, top, topListed, topmost, low⟩
        rw [if_pos above, first] at lookup
        refine ⟨(block.number, block), ?_, rfl⟩
        rw [← retained, List.mem_filter, HashMap.mem_toList_iff]
        refine ⟨lookup, ?_⟩
        have sameTop : top.number = maxNumber :=
          UInt64.le_antisymm (greatest top topListed) (highestNumber ▸ topmost highest highestListed)
        rw [sameTop, ← le_saturatingSub_iff] at low
        simpa using low
    · rw [← same]
      simp only [GraphSeed.fromWindow, found, retained]

/-! ### The links -/

/-- Filler hashes are none of the given hashes, and fillers below different blocks differ. -/
structure FillersDistinct [FillerHash] (hashes : List BlockHash) : Prop where
  fresh : ∀ lower ∈ hashes, ∀ upper ∈ hashes, FillerHash.fillerHash lower upper ∉ hashes
  separate : ∀ lower ∈ hashes, ∀ upper ∈ hashes, ∀ lower' ∈ hashes, ∀ upper' ∈ hashes,
    FillerHash.fillerHash lower upper = FillerHash.fillerHash lower' upper' → upper = upper'

/-- A window block with its number, as the link walk takes it. -/
abbrev numbered (block : RangeLogBlock) : UInt64 × RangeLogBlock := (block.number, block)

theorem linkBlocks_linked [FillerHash] (number : UInt64) (hash : BlockHash)
    (entries : List (UInt64 × RangeLogBlock)) :
    BlocksGraph.Linked hash (linkBlocks number hash entries) := by
  induction entries generalizing number hash with
  | nil => exact .nil hash
  | cons entry entries inductionHypothesis =>
    unfold linkBlocks
    split
    · exact .cons rfl (inductionHypothesis entry.1 entry.2.hash)
    · exact .cons rfl (.cons rfl (inductionHypothesis entry.1 entry.2.hash))

/-- A linked block is a window block or the filler below one. -/
theorem hash_of_linkBlocks [FillerHash] {number : UInt64} {hash : BlockHash}
    {chain : List RangeLogBlock} {linked : SeedBlock}
    (membership : linked ∈ linkBlocks number hash (chain.map numbered)) :
    linked.hash ∈ chain.map (·.hash) ∨
      ∃ lower ∈ hash :: chain.map (·.hash), ∃ upper ∈ chain.map (·.hash),
        linked.hash = FillerHash.fillerHash lower upper := by
  induction chain generalizing number hash with
  | nil => simp [linkBlocks] at membership
  | cons block chain inductionHypothesis =>
    have later (found : linked ∈ linkBlocks block.number block.hash (chain.map numbered)) :
        linked.hash ∈ (block :: chain).map (·.hash) ∨
          ∃ lower ∈ hash :: (block :: chain).map (·.hash),
            ∃ upper ∈ (block :: chain).map (·.hash),
              linked.hash = FillerHash.fillerHash lower upper := by
      rcases inductionHypothesis found with real | ⟨lower, low, upper, high, filler⟩
      · exact .inl (List.mem_cons_of_mem _ real)
      · exact .inr ⟨lower, List.mem_cons_of_mem _ low, upper, List.mem_cons_of_mem _ high, filler⟩
    rw [List.map_cons, linkBlocks] at membership
    split at membership
    · rcases List.mem_cons.mp membership with rfl | found
      · exact .inl List.mem_cons_self
      · exact later found
    · rcases List.mem_cons.mp membership with rfl | found
      · exact .inr ⟨hash, List.mem_cons_self, block.hash, List.mem_cons_self, rfl⟩
      · rcases List.mem_cons.mp found with rfl | found
        · exact .inl List.mem_cons_self
        · exact later found

theorem linkBlocks_nodup [FillerHash] {known : List BlockHash} (fillers : FillersDistinct known)
    {number : UInt64} {hash : BlockHash} {chain : List RangeLogBlock} (start : hash ∈ known)
    (listed : ∀ block ∈ chain, block.hash ∈ known) (distinct : (chain.map (·.hash)).Nodup) :
    ((linkBlocks number hash (chain.map numbered)).map (·.hash)).Nodup := by
  induction chain generalizing number hash with
  | nil => simp [linkBlocks]
  | cons block chain inductionHypothesis =>
    rw [List.map_cons] at distinct
    obtain ⟨fresh, distinct⟩ := List.nodup_cons.mp distinct
    have own := listed block List.mem_cons_self
    have others : ∀ upper ∈ chain.map (·.hash), upper ∈ known := by
      intro upper membership
      obtain ⟨other, found, rfl⟩ := List.mem_map.mp membership
      exact listed other (List.mem_cons_of_mem _ found)
    have lowers : ∀ lower ∈ block.hash :: chain.map (·.hash), lower ∈ known :=
      List.forall_mem_cons.mpr ⟨own, others⟩
    have rest := @inductionHypothesis block.number block.hash own
      (fun other membership => listed other (List.mem_cons_of_mem _ membership)) distinct
    have ownFresh : block.hash ∉
        (linkBlocks block.number block.hash (chain.map numbered)).map (·.hash) := by
      intro membership
      obtain ⟨linked, membership, same⟩ := List.mem_map.mp membership
      rcases hash_of_linkBlocks membership with real | ⟨lower, low, upper, high, filler⟩
      · exact fresh (same ▸ real)
      · exact fillers.fresh lower (lowers lower low) upper (others upper high)
          (filler ▸ same.symm ▸ own)
    have fillerFresh : FillerHash.fillerHash hash block.hash ∉
        (linkBlocks block.number block.hash (chain.map numbered)).map (·.hash) := by
      intro membership
      obtain ⟨linked, membership, same⟩ := List.mem_map.mp membership
      rcases hash_of_linkBlocks membership with real | ⟨lower, low, upper, high, filler⟩
      · exact fillers.fresh hash start block.hash own (same ▸ others _ real)
      · have sameUpper := fillers.separate hash start block.hash own lower (lowers lower low) upper
          (others upper high) (same.symm.trans filler)
        exact fresh (sameUpper ▸ high)
    have apart : FillerHash.fillerHash hash block.hash ≠ block.hash := by
      intro same
      exact fillers.fresh hash start block.hash own (same.symm ▸ own)
    rw [List.map_cons, linkBlocks]
    split
    · exact List.nodup_cons.mpr ⟨ownFresh, rest⟩
    · refine List.nodup_cons.mpr ⟨?_, List.nodup_cons.mpr ⟨ownFresh, rest⟩⟩
      rw [List.map_cons, List.mem_cons, not_or]
      exact ⟨apart, fillerFresh⟩

/-! ### The seeded graph -/

/-- A block stored connected under its parent, without a header and with exactly
these logs: of the logs with one index the last. -/
def Holds (graph : BlocksGraph) (hash parent : BlockHash) (number : UInt64)
    (logs : List PoolLog) : Prop :=
  ∃ stored : BTreeMap UInt64 PoolLog,
    graph.nodes[hash]? = some (.connected
      { parent := if parent = graph.anchor.hash then .anchor else .block parent
        data := { number, logsBloom := none, logs := .complete stored } }) ∧
    ∀ index, stored[index]? = logs.reverse.find? (fun log => decide (log.logIndex = index))

/-- A graph threads the blocks of a chain above a block of some number: each one
hangs under the previous one, through an empty filler exactly where numbers are
skipped. The list collects the hashes of the blocks and the fillers. -/
inductive Threads [FillerHash] (graph : BlocksGraph) :
    UInt64 → BlockHash → List RangeLogBlock → List BlockHash → Prop
  | done (number : UInt64) (hash : BlockHash) : Threads graph number hash [] []
  | adjacent {number : UInt64} {hash : BlockHash} {block : RangeLogBlock}
      {chain : List RangeLogBlock} {hashes : List BlockHash} :
      block.number.toNat = number.toNat + 1 →
      Holds graph block.hash hash block.number block.logs →
      Threads graph block.number block.hash chain hashes →
      Threads graph number hash (block :: chain) (block.hash :: hashes)
  | gap {number : UInt64} {hash : BlockHash} {block : RangeLogBlock}
      {chain : List RangeLogBlock} {hashes : List BlockHash} :
      number.toNat + 1 < block.number.toNat →
      Holds graph (FillerHash.fillerHash hash block.hash) hash (block.number - 1) [] →
      Holds graph block.hash (FillerHash.fillerHash hash block.hash) block.number block.logs →
      Threads graph block.number block.hash chain hashes →
      Threads graph number hash (block :: chain)
        (FillerHash.fillerHash hash block.hash :: block.hash :: hashes)

theorem holds_of_stored {graph : BlocksGraph} {block : SeedBlock}
    (stored : graph.nodes[block.hash]? = some (block.node graph.anchor.hash)) :
    Holds graph block.hash block.parent block.number block.logs :=
  ⟨keyByLogIndex block.logs, stored, getElem?_keyedBy_eq_find? PoolLog.logIndex block.logs⟩

theorem adjacent_iff {number next : UInt64} (above : number < next) :
    next = number + 1 ↔ next.toNat = number.toNat + 1 := by
  have bound := next.toNat_lt
  rw [UInt64.lt_iff_toNat_lt] at above
  rw [← UInt64.toNat_inj, UInt64.toNat_add, UInt64.toNat_one, Nat.mod_eq_of_lt (by omega)]

theorem threads_of_stored [FillerHash] {graph : BlocksGraph} {number : UInt64} {hash : BlockHash}
    {chain : List RangeLogBlock}
    (ascending : (number :: chain.map (·.number)).Pairwise (· < ·))
    (stored : ∀ linked ∈ linkBlocks number hash (chain.map numbered),
      graph.nodes[linked.hash]? = some (linked.node graph.anchor.hash)) :
    Threads graph number hash chain
      ((linkBlocks number hash (chain.map numbered)).map (·.hash)) := by
  induction chain generalizing number hash with
  | nil => exact .done number hash
  | cons block chain inductionHypothesis =>
    obtain ⟨above, ascending⟩ := List.pairwise_cons.mp ascending
    have next := above block.number List.mem_cons_self
    rw [List.map_cons, linkBlocks] at stored ⊢
    split at stored
    · rename_i adjacent
      rw [if_pos adjacent]
      exact .adjacent ((adjacent_iff next).mp adjacent)
        (holds_of_stored (stored _ List.mem_cons_self))
        (inductionHypothesis ascending
          (fun linked membership => stored linked (List.mem_cons_of_mem _ membership)))
    · rename_i skipped
      rw [if_neg skipped]
      have wide : number.toNat + 1 < block.number.toNat := by
        rw [adjacent_iff next] at skipped
        rw [UInt64.lt_iff_toNat_lt] at next
        omega
      exact .gap wide (holds_of_stored (stored _ List.mem_cons_self))
        (holds_of_stored (stored _ (List.mem_cons_of_mem _ List.mem_cons_self)))
        (inductionHypothesis ascending (fun linked membership =>
          stored linked (List.mem_cons_of_mem _ (List.mem_cons_of_mem _ membership))))

/-- A graph that is the connected chain of a window's retained blocks and nothing else. -/
structure SeededFrom [FillerHash] (window : List RangeLogBlock) (anchor : FinalizedAnchor)
    (tipTrim : UInt64) (graph : BlocksGraph) (chain : List RangeLogBlock)
    (hashes : List BlockHash) : Prop where
  rooted : graph.anchor = { hash := anchor.hash, number := anchor.number }
  ascending : chain.Pairwise (fun lower upper => lower.number < upper.number)
  retained : ∀ block, block ∈ chain ↔ Retains window anchor tipTrim block
  threads : Threads graph anchor.number anchor.hash chain hashes
  distinct : hashes.Nodup
  exactly : ∀ hash, hash ∈ graph.nodes ↔ hash ∈ hashes
  nonePending : ∀ hash, graph.isPending hash = false
  noneMissing : graph.missingParents = []

theorem isPending_eq_false {graph : BlocksGraph} (settled : graph.NonePending)
    (hash : BlockHash) : graph.isPending hash = false := by
  unfold BlocksGraph.isPending
  cases found : graph.nodes[hash]? with
  | none => rfl
  | some node =>
    obtain ⟨connected, rfl⟩ := settled.connected_of_mem found
    rfl

/-- Seeding a graph with a window gives the connected chain of its retained blocks. -/
theorem fromSeed_fromWindow [FillerHash] (window : List RangeLogBlock) (anchor : FinalizedAnchor)
    (tipTrim : UInt64)
    (distinct : ∀ block ∈ window, ∀ other ∈ window, block.hash = other.hash →
      block.number = other.number)
    (notAnchor : ∀ block ∈ window, block.hash ≠ anchor.hash)
    (fillers : FillersDistinct (anchor.hash :: window.map (·.hash))) :
    ∃ chain hashes, SeededFrom window anchor tipTrim
      (BlocksGraph.fromSeed anchor.hash anchor.number
        (GraphSeed.fromWindow window anchor tipTrim).blocks) chain hashes := by
  obtain ⟨chain, ascending, retained, blocks⟩ := fromWindow_blocks window anchor tipTrim
  have inWindow : ∀ block ∈ chain, block ∈ window := by
    intro block membership
    exact List.mem_of_find?_eq_some ((retained block).mp membership).1
  have listed : ∀ block ∈ chain, block.hash ∈ anchor.hash :: window.map (·.hash) := by
    intro block membership
    exact List.mem_cons_of_mem _ (List.mem_map_of_mem (inWindow block membership))
  have hashesDistinct : (chain.map (·.hash)).Nodup := by
    refine List.pairwise_map.mpr (ascending.imp_of_mem ?_)
    intro lower upper low high before same
    have equal := distinct lower (inWindow lower low) upper (inWindow upper high) same
    exact UInt64.lt_irrefl _ (equal ▸ before)
  have nodup := @linkBlocks_nodup _ _ fillers anchor.number anchor.hash chain List.mem_cons_self
    listed hashesDistinct
  have apart : ∀ linked ∈ linkBlocks anchor.number anchor.hash (chain.map numbered),
      linked.hash ≠ anchor.hash := by
    intro linked membership
    rcases hash_of_linkBlocks membership with real | ⟨lower, low, upper, high, filler⟩
    · obtain ⟨block, membership, same⟩ := List.mem_map.mp real
      exact same ▸ notAnchor block (inWindow block membership)
    · intro same
      have known : ∀ hash ∈ anchor.hash :: chain.map (·.hash),
          hash ∈ anchor.hash :: window.map (·.hash) := by
        refine List.forall_mem_cons.mpr ⟨List.mem_cons_self, ?_⟩
        intro hash membership
        obtain ⟨block, found, rfl⟩ := List.mem_map.mp membership
        exact listed block found
      exact fillers.fresh lower (known lower low) upper (known upper (List.mem_cons_of_mem _ high))
        (filler ▸ same.symm ▸ List.mem_cons_self)
  have settled : (BlocksGraph.new anchor.hash anchor.number).NonePending := by
    intro hash
    simp [BlocksGraph.new, BlocksGraph.pendingParent]
  have fresh : anchor.hash ∉
      (linkBlocks anchor.number anchor.hash (chain.map numbered)).map (·.hash) := by
    intro membership
    obtain ⟨linked, membership, same⟩ := List.mem_map.mp membership
    exact apart linked membership same
  have seeded := settled.seed (linkBlocks_linked anchor.number anchor.hash (chain.map numbered))
    ((BlocksGraph.connects_eq_true _ _).mpr (.inl rfl)) (List.nodup_cons.mpr ⟨fresh, nodup⟩) apart
    (fun _ _ => by simp [BlocksGraph.new])
  rw [← BlocksGraph.fromSeed_eq_seed] at seeded
  refine ⟨chain, (linkBlocks anchor.number anchor.hash (chain.map numbered)).map (·.hash), ?_⟩
  rw [blocks]
  refine ⟨seeded.anchor, ascending, retained, ?_, nodup, ?_, isPending_eq_false seeded.settled,
    seeded.settled.missingParents⟩
  · apply threads_of_stored
    · refine List.pairwise_cons.mpr ⟨?_, List.pairwise_map.mpr ascending⟩
      intro number membership
      obtain ⟨block, found, rfl⟩ := List.mem_map.mp membership
      exact ((retained block).mp found).2.1
    · rw [seeded.anchor]
      exact seeded.stored
  · intro hash
    by_cases membership :
        hash ∈ (linkBlocks anchor.number anchor.hash (chain.map numbered)).map (·.hash)
    · obtain ⟨linked, membership', rfl⟩ := List.mem_map.mp membership
      exact iff_of_true ((HashMap.mem_iff_exists _ _).mpr ⟨_, seeded.stored linked membership'⟩)
        membership
    · rw [HashMap.mem_iff_exists, seeded.others hash membership]
      simp only [BlocksGraph.new, Std.ExtTreeMap.getElem?_empty, reduceCtorEq, exists_false,
        false_iff]
      exact membership

/-- The filler hashes between sample blocks. -/
abbrev sampleFillers : FillerHash where
  fillerHash lower upper :=
    if lower = 0x10 then
      if upper = 0x10 then 0xd0d694c68febdc98f5cf8263bed61fdee4de6ce58bb4e9222a4a048f768d44f6
      else if upper = 0x12 then 0x3ae742184beb2ec3be4e789fac2d6411b48b767af47eaf2282c41bfda4bcd379
      else 0x070714565a1d11e3d33e3285febf01084087f3c725385b1bc6d176afa77fd201
    else if lower = 0x12 then
      if upper = 0x10 then 0xbf74a1edefc3df314d4d5bee66899dc605cc9ba361d6c49bc0424b5cbf566c8a
      else if upper = 0x12 then 0x732a7beeca365945347f76c39df641cde31462ddc5ebbc62ab26ae06804a30dd
      else 0x6f10832cc857d57152fd171e10e8e87f5b6a00c0191bb329e502b499e97b24f4
    else
      if upper = 0x10 then 0xaa8da09768a499922a5e36f20e947792285c64d2ee83fe0c6bda4bdece7b1418
      else if upper = 0x12 then 0x0a476237939a8d0c31b1c6724b5e78f25348227743eac1d7db86daf90ac7d69e
      else 0x50b61c7008e1bfd92597844384d7774f1dbe8c4672616042e945aa67f120e348

theorem sampleFillers_distinct : @FillersDistinct sampleFillers [0x10, 0x12, 0x14] := by
  refine @FillersDistinct.mk sampleFillers _ ?_ ?_
  · simp [FillerHash.fillerHash]
  · simp [FillerHash.fillerHash]

/-- Two blocks with a gap below each. -/
def gappedWindow : List RangeLogBlock := [⟨102, 0x12, [sampleSwap]⟩, ⟨104, 0x14, [sampleSwap]⟩]

theorem fromSeed_fromWindow_gap :
    letI : FillerHash := sampleFillers
    ∃ chain hashes, SeededFrom gappedWindow ⟨0x10, 100⟩ 0
      (BlocksGraph.fromSeed 0x10 100 (GraphSeed.fromWindow gappedWindow ⟨0x10, 100⟩ 0).blocks)
        chain hashes := by
  let _ : FillerHash := sampleFillers
  refine fromSeed_fromWindow gappedWindow ⟨0x10, 100⟩ 0 ?_ ?_ sampleFillers_distinct
  · simp [gappedWindow]
  · simp [gappedWindow]

end Bootstrap

end ArmchairAnalyst

import ArmchairAnalyst.RequestTargets
import ArmchairAnalyst.Kernel.HeaderRequests
import ArmchairAnalyst.Kernel.RequestIds
import ArmchairAnalyst.Kernel.BlocksUpdates

/-!
# Work in flight

Every request names what it asks for. The schedulers ask for nothing that is in
flight and for everything that is not, so no work is in flight twice and, after
the scheduling chain, all of it is.
-/

namespace ArmchairAnalyst.BlocksGraph

/-- A present chain visits every block once and none that was visited before. -/
theorem presentChain_nodup (graph : BlocksGraph) {fuel : Nat} {visited : HashSet BlockHash}
    {current : BlockHash} {chain : List (BlockHash × BlockData)}
    (walked : graph.presentChain fuel visited current = some chain) :
    (chain.map Prod.fst).Nodup ∧ ∀ hash ∈ chain.map Prod.fst, hash ∉ visited := by
  induction fuel generalizing visited current chain with
  | zero => simp [presentChain] at walked
  | succ fuel inductionHypothesis =>
    unfold presentChain at walked
    split at walked
    · obtain rfl := Option.some.inj walked
      simp
    · split at walked
      · simp at walked
      · rename_i unvisited
        split at walked
        · obtain rfl := Option.some.inj walked
          simp
        · rename_i node found
          obtain ⟨above, further, rfl⟩ := Option.map_eq_some_iff.mp walked
          obtain ⟨distinct, fresh⟩ := inductionHypothesis further
          constructor
          · rw [List.map_cons, List.nodup_cons]
            exact ⟨fun again => fresh current again (by simp), distinct⟩
          · intro hash membership
            rcases List.mem_cons.mp membership with rfl | above
            · exact unvisited
            · exact fun visited => fresh hash above (by simp [visited])

theorem presentChainFromHead_nodup (graph : BlocksGraph) :
    (graph.presentChainFromHead.map Prod.fst).Nodup := by
  unfold presentChainFromHead
  cases walked : graph.presentChain (graph.nodes.size + 1) ∅ graph.observedHead with
  | none => simp
  | some chain => exact (graph.presentChain_nodup walked).1

theorem mem_unknownLogHoleHashes [BloomHash] (graph : BlocksGraph) (trusted : HashSet Address)
    (exclude : HashSet BlockHash) (minDepth : Nat) (hash : BlockHash) :
    hash ∈ graph.unknownLogHoleHashes trusted exclude minDepth ↔
      hash ∈ graph.unknownLogHoleHashes trusted ∅ minDepth ∧ hash ∉ exclude := by
  unfold unknownLogHoleHashes
  simp only [List.mem_map, List.mem_filter]
  constructor
  · rintro ⟨entry, ⟨listed, passes⟩, rfl⟩
    simp only [Bool.and_eq_true, Bool.not_eq_true'] at passes
    refine ⟨⟨entry, ⟨listed, ?_⟩, rfl⟩, ?_⟩
    · simp [passes]
    · rw [← Std.ExtTreeSet.contains_iff_mem, passes.1.2]
      exact Bool.false_ne_true
  · rintro ⟨⟨entry, ⟨listed, passes⟩, rfl⟩, unexcluded⟩
    rw [← Std.ExtTreeSet.contains_iff_mem, Bool.not_eq_true] at unexcluded
    refine ⟨entry, ⟨listed, ?_⟩, rfl⟩
    simp only [Bool.and_eq_true, Bool.not_eq_true'] at passes ⊢
    exact ⟨⟨passes.1.1, unexcluded⟩, passes.2⟩

theorem unknownLogHoleHashes_nodup [BloomHash] (graph : BlocksGraph) (trusted : HashSet Address)
    (exclude : HashSet BlockHash) (minDepth : Nat) :
    (graph.unknownLogHoleHashes trusted exclude minDepth).Nodup := by
  have zipped : graph.presentChainFromHead.zipIdx.map (·.1.1) =
      graph.presentChainFromHead.map Prod.fst := by
    conv_rhs => rw [← List.zipIdx_map_fst 0 graph.presentChainFromHead, List.map_map]
    rfl
  have distinct := graph.presentChainFromHead_nodup
  rw [← zipped] at distinct
  exact distinct.sublist (List.filter_sublist.map _)

end ArmchairAnalyst.BlocksGraph

namespace ArmchairAnalyst.Kernel

open RequestStore (Covers Exclusive Evolves Sequenced)

/-- What a request asks for. Log ranges and finality probes are not deduplicated by target. -/
inductive Target
  | header (hash : BlockHash)
  | logs (hash : BlockHash)
  | candidate (key : ProtocolPoolKey)
  | token (token : TokenAddress)
  | pool (pool : PoolRef)

def Names : (kind : RequestKind) → kind.Payload → Target → Prop
  | .blockHeader, payload, .header hash => payload.blockHash = hash
  | .blockLogs, payload, .logs hash => payload.blockHash = hash
  | .poolMetadata, payload, .candidate key => key ∈ payload.candidates
  | .tokenMetadata, payload, .token token => token ∈ payload.tokens
  | .poolData, payload, .pool pool => pool ∈ payload.pools
  | _, _, _ => False

def Target.kind : Target → RequestKind
  | .header _ => .blockHeader
  | .logs _ => .blockLogs
  | .candidate _ => .poolMetadata
  | .token _ => .tokenMetadata
  | .pool _ => .poolData

theorem Names.kind {kind : RequestKind} {payload : kind.Payload} {target : Target}
    (named : Names kind payload target) : kind = target.kind := by
  cases kind <;> cases target <;> first | rfl | exact absurd named id

theorem covers_iff_payloads (requests : PendingRequests) (target : Target) :
    Covers Names requests target ↔
      ∃ payload ∈ PendingRequests.payloads requests target.kind,
        Names target.kind payload target := by
  constructor
  · rintro ⟨⟨kind, id, payload⟩, inFlight, named⟩
    obtain rfl := named.kind
    exact ⟨payload, (PendingRequests.mem_payloads _ _ _).mpr ⟨id, inFlight⟩, named⟩
  · rintro ⟨payload, listed, named⟩
    obtain ⟨id, inFlight⟩ := (PendingRequests.mem_payloads _ _ _).mp listed
    exact ⟨⟨target.kind, id, payload⟩, inFlight, named⟩

/-! ### The pending queries -/

theorem covers_header (requests : PendingRequests) (hash : BlockHash) :
    Covers Names requests (.header hash) ↔
      PendingRequests.hasPendingHeaderRequest requests hash = true := by
  rw [covers_iff_payloads]
  simp only [PendingRequests.hasPendingHeaderRequest, List.any_eq_true, beq_iff_eq]
  exact Iff.rfl

theorem covers_logs (requests : PendingRequests) (hash : BlockHash) :
    Covers Names requests (.logs hash) ↔
      hash ∈ PendingRequests.pendingBlockLogHashes requests := by
  rw [covers_iff_payloads]
  simp only [PendingRequests.pendingBlockLogHashes, HashSet.mem_collect, List.mem_map]
  exact Iff.rfl

theorem covers_candidate (requests : PendingRequests) (key : ProtocolPoolKey) :
    Covers Names requests (.candidate key) ↔
      key ∈ PendingRequests.pendingPoolMetadataCandidates requests := by
  rw [covers_iff_payloads]
  simp only [PendingRequests.pendingPoolMetadataCandidates, HashSet.mem_collect, List.mem_flatMap,
    Std.ExtTreeSet.mem_toList]
  exact Iff.rfl

theorem covers_token (requests : PendingRequests) (token : TokenAddress) :
    Covers Names requests (.token token) ↔
      token ∈ PendingRequests.pendingTokenMetadataTokens requests := by
  rw [covers_iff_payloads]
  simp only [PendingRequests.pendingTokenMetadataTokens, HashSet.mem_collect, List.mem_flatMap,
    Std.ExtTreeSet.mem_toList]
  exact Iff.rfl

theorem covers_pool (requests : PendingRequests) (pool : PoolRef) :
    Covers Names requests (.pool pool) ↔
      pool ∈ PendingRequests.pendingPoolDataPools requests := by
  rw [covers_iff_payloads]
  simp only [PendingRequests.pendingPoolDataPools, HashSet.mem_collect, List.mem_flatMap,
    Std.ExtTreeSet.mem_toList]
  exact Iff.rfl

/-! ### Exclusive work -/

section Exclusive

variable {output : State × List Effect}

theorem exclusive_issueRequest (exclusive : Exclusive Names output.1.pendingRequests)
    {kind : RequestKind} {payload : kind.Payload}
    (fresh : ∀ target, Names kind payload target →
      ¬ Covers Names output.1.pendingRequests target) :
    Exclusive Names (issueRequest output kind payload).1.pendingRequests :=
  exclusive.issue fresh output.1.tick

theorem exclusive_requestMissingHeader (exclusive : Exclusive Names output.1.pendingRequests)
    (hash : BlockHash) : Exclusive Names (requestMissingHeader output hash).1.pendingRequests := by
  unfold requestMissingHeader
  split
  · exact exclusive
  · rename_i idle
    apply exclusive_issueRequest exclusive
    intro target named covered
    obtain rfl : target = .header hash := by
      cases target <;> simp_all [Names]
    exact idle ((covers_header _ _).mp covered)

theorem exclusive_missingHeaders (exclusive : Exclusive Names output.1.pendingRequests) :
    Exclusive Names (scheduleMissingHeaderRequests output).1.pendingRequests := by
  unfold scheduleMissingHeaderRequests
  generalize output.1.blocks.graph.missingParents = hashes
  induction hashes generalizing output with
  | nil => exact exclusive
  | cons hash hashes inductionHypothesis =>
    exact inductionHypothesis (exclusive_requestMissingHeader exclusive hash)

/-- Distinct targets that are not in flight can be asked for one by one. -/
theorem exclusive_issueEach {kind : RequestKind} {payload : BlockHash → kind.Payload}
    (target : BlockHash → Target) (injective : Function.Injective target)
    (names : ∀ hash other, Names kind (payload hash) other ↔ other = target hash)
    {hashes : List BlockHash} (distinct : hashes.Nodup)
    (exclusive : Exclusive Names output.1.pendingRequests)
    (idle : ∀ hash ∈ hashes, ¬ Covers Names output.1.pendingRequests (target hash)) :
    Exclusive Names (hashes.foldl (fun output hash =>
      issueRequest output kind (payload hash)) output).1.pendingRequests := by
  induction hashes generalizing output with
  | nil => exact exclusive
  | cons hash hashes inductionHypothesis =>
    obtain ⟨fresh, distinct⟩ := List.nodup_cons.mp distinct
    apply inductionHypothesis distinct
    · apply exclusive_issueRequest exclusive
      intro other named
      rw [(names hash other).mp named]
      exact idle hash List.mem_cons_self
    · intro other membership covered
      rcases RequestStore.covers_of_issue covered with named | earlier
      · have same := injective ((names hash (target other)).mp named)
        exact fresh (same ▸ membership)
      · exact idle other (List.mem_cons_of_mem _ membership) earlier

theorem exclusive_unknownLogs [BloomHash] (chain : ChainKey)
    (exclusive : Exclusive Names output.1.pendingRequests) :
    Exclusive Names (scheduleUnknownCanonicalLogRequests chain output).1.pendingRequests := by
  apply exclusive_issueEach .logs (fun _ _ same => Target.logs.inj same)
  · intro hash other
    cases other <;> simp [Names, eq_comm]
  · exact BlocksGraph.unknownLogHoleHashes_nodup _ _ _ _
  · exact exclusive
  · intro hash hole covered
    exact ((BlocksGraph.mem_unknownLogHoleHashes _ _ _ _ _).mp hole).2
      ((covers_logs _ _).mp covered)

def unseen {Item : Type} [Ord Item] [Std.TransOrd Item] (wanted : List Item)
    (seen : HashSet Item) : HashSet Item :=
  HashSet.collect (wanted.filter (fun item => !seen.contains item))

theorem mem_unseen {Item : Type} [Ord Item] [Std.TransOrd Item] [Std.LawfulEqOrd Item]
    [DecidableEq Item] (wanted : List Item) (seen : HashSet Item) (item : Item) :
    item ∈ unseen wanted seen ↔ item ∈ wanted ∧ item ∉ seen := by
  rw [unseen, HashSet.mem_collect, List.mem_filter, Bool.not_eq_true', ← Bool.not_eq_true,
    Std.ExtTreeSet.contains_iff_mem]

/-- A round of the metadata stages: what a block wants and no earlier round has asked for. -/
def requestUnseen {Item : Type} [Ord Item] [Std.TransOrd Item] (kind : RequestKind)
    (payload : BlockHash → HashSet Item → kind.Payload)
    (wanted : State → HashSet ProtocolPoolKey → List Item)
    (pass : (State × List Effect) × HashSet Item) (block : BlockHash × HashSet ProtocolPoolKey) :
    (State × List Effect) × HashSet Item :=
  let requested := unseen (wanted pass.1.1 block.2) pass.2
  if requested.isEmpty then pass
  else (issueRequest pass.1 kind (payload block.1 requested), pass.2 ∪ requested)

/-- A sweep issues requests of its own sort only. -/
theorem issues_sweep {Item : Type} [Ord Item] [Std.TransOrd Item] {kind : RequestKind}
    {payload : BlockHash → HashSet Item → kind.Payload}
    {wanted : State → HashSet ProtocolPoolKey → List Item}
    {holds : (kind : RequestKind) → kind.Payload → Prop}
    (sort : ∀ at_ items, holds kind (payload at_ items))
    (blocks : List (BlockHash × HashSet ProtocolPoolKey))
    (pass : (State × List Effect) × HashSet Item) :
    Issues holds pass.1 (blocks.foldl (requestUnseen kind payload wanted) pass).1 := by
  induction blocks generalizing pass with
  | nil => exact Issues.refl pass.1
  | cons block blocks inductionHypothesis =>
    have first : Issues holds pass.1 (requestUnseen kind payload wanted pass block).1 := by
      unfold requestUnseen
      simp only
      split
      · exact Issues.refl pass.1
      · exact Issues.request pass.1 kind _ (sort _ _)
    exact first.trans (inductionHypothesis _)

def unknownCandidates (chain : ChainKey) (state : State) (candidates : HashSet ProtocolPoolKey) :
    List ProtocolPoolKey :=
  candidates.toList.filter (fun candidate => !state.poolRegistry.isKnown chain candidate)

def unknownCandidateTokens (chain : ChainKey) (state : State)
    (candidates : HashSet ProtocolPoolKey) : List TokenAddress :=
  (candidateTokens chain state.poolRegistry candidates).filter (fun token =>
    !state.tokenRegistry.isKnown token)

theorem requestPoolCandidates_eq (chain : ChainKey) :
    requestPoolCandidates chain =
      requestUnseen .poolMetadata GetPoolMetadata.mk (unknownCandidates chain) := by
  funext pass block
  simp only [requestPoolCandidates, requestUnseen, unseen, unknownCandidates, List.filter_filter,
    Bool.and_comm]

theorem requestCandidateTokens_eq (chain : ChainKey) :
    requestCandidateTokens chain =
      requestUnseen .tokenMetadata GetTokenMetadata.mk
        (unknownCandidateTokens chain) := by
  funext pass block
  simp only [requestCandidateTokens, requestUnseen, unseen, unknownCandidateTokens, List.filter_filter,
    Bool.and_comm]

theorem issues_poolMetadataKind (chain : ChainKey)
    (blocks : List (BlockHash × HashSet ProtocolPoolKey)) (output : State × List Effect) :
    Issues (fun kind _ => kind = .poolMetadata) output
      (scheduleUnknownCanonicalPoolMetadataRequests chain blocks output) := by
  unfold scheduleUnknownCanonicalPoolMetadataRequests
  rw [requestPoolCandidates_eq]
  exact issues_sweep (fun _ _ => rfl) blocks (output, _)

theorem issues_tokenMetadataKind (chain : ChainKey)
    (blocks : List (BlockHash × HashSet ProtocolPoolKey)) (output : State × List Effect) :
    Issues (fun kind _ => kind = .tokenMetadata) output
      (scheduleUnknownCanonicalTokenMetadataRequests chain blocks output) := by
  unfold scheduleUnknownCanonicalTokenMetadataRequests
  rw [requestCandidateTokens_eq]
  exact issues_sweep (fun _ _ => rfl) blocks (output, _)

section Sweep

variable {Item : Type} [Ord Item] [Std.TransOrd Item] [Std.LawfulEqOrd Item] [DecidableEq Item]
  {kind : RequestKind} {payload : BlockHash → HashSet Item → kind.Payload}
  {target : Item → Target}

/-- A sweep keeps the work exclusive while everything in flight counts as asked for. -/
theorem exclusive_sweep (wanted : State → HashSet ProtocolPoolKey → List Item)
    (names : ∀ at_ items other, Names kind (payload at_ items) other ↔
      ∃ item ∈ items, other = target item)
    (injective : Function.Injective target)
    (blocks : List (BlockHash × HashSet ProtocolPoolKey))
    {pass : (State × List Effect) × HashSet Item}
    (exclusive : Exclusive Names pass.1.1.pendingRequests)
    (asked : ∀ item, Covers Names pass.1.1.pendingRequests (target item) → item ∈ pass.2) :
    Exclusive Names
      (blocks.foldl (requestUnseen kind payload wanted) pass).1.1.pendingRequests := by
  induction blocks generalizing pass with
  | nil => exact exclusive
  | cons block blocks inductionHypothesis =>
    rw [List.foldl_cons]
    by_cases nothing : (unseen (wanted pass.1.1 block.2) pass.2).isEmpty = true
    · have same : requestUnseen kind payload wanted pass block = pass := if_pos nothing
      rw [same]
      exact inductionHypothesis exclusive asked
    · have result : requestUnseen kind payload wanted pass block =
          (issueRequest pass.1 kind (payload block.1 (unseen (wanted pass.1.1 block.2) pass.2)),
            pass.2 ∪ unseen (wanted pass.1.1 block.2) pass.2) := if_neg nothing
      rw [result]
      apply inductionHypothesis
      · apply exclusive_issueRequest exclusive
        intro other named covered
        obtain ⟨item, requested, rfl⟩ := (names _ _ _).mp named
        exact ((mem_unseen _ _ _).mp requested).2 (asked item covered)
      · intro item covered
        rw [Std.ExtTreeSet.mem_union_iff]
        rcases RequestStore.covers_of_issue covered with named | earlier
        · obtain ⟨item', requested, same⟩ := (names _ _ _).mp named
          rw [injective same]
          exact .inr requested
        · exact .inl (asked item earlier)

end Sweep

theorem exclusive_poolMetadata (chain : ChainKey)
    (blocks : List (BlockHash × HashSet ProtocolPoolKey))
    (exclusive : Exclusive Names output.1.pendingRequests) :
    Exclusive Names (scheduleUnknownCanonicalPoolMetadataRequests chain blocks
      output).1.pendingRequests := by
  unfold scheduleUnknownCanonicalPoolMetadataRequests
  rw [requestPoolCandidates_eq]
  refine exclusive_sweep _ ?_ (fun _ _ same => Target.candidate.inj same) blocks exclusive
    (fun key covered => (covers_candidate _ key).mp covered)
  intro at_ candidates other
  cases other <;> simp [Names]

theorem exclusive_tokenMetadata (chain : ChainKey)
    (blocks : List (BlockHash × HashSet ProtocolPoolKey))
    (exclusive : Exclusive Names output.1.pendingRequests) :
    Exclusive Names (scheduleUnknownCanonicalTokenMetadataRequests chain blocks
      output).1.pendingRequests := by
  unfold scheduleUnknownCanonicalTokenMetadataRequests
  rw [requestCandidateTokens_eq]
  refine exclusive_sweep _ ?_ (fun _ _ same => Target.token.inj same) blocks exclusive
    (fun token covered => (covers_token _ token).mp covered)
  intro at_ tokens other
  cases other <;> simp [Names]

theorem not_mem_pendingPools {chain : ChainKey} {state : State} {pool : PoolRef}
    (uncovered : pool ∈ uncoveredPools chain state) :
    pool ∉ PendingRequests.pendingPoolDataPools state.pendingRequests := by
  have passes := (List.mem_filter.mp (List.mem_of_mem_take uncovered)).2
  simp only [Bool.and_eq_true, Bool.not_eq_true'] at passes
  rw [← Std.ExtTreeSet.contains_iff_mem, passes.2]
  exact Bool.false_ne_true

theorem exclusive_poolSeeds (chain : ChainKey)
    (exclusive : Exclusive Names output.1.pendingRequests) :
    Exclusive Names (scheduleFinalizedPoolSeedRequests chain output).1.pendingRequests := by
  unfold scheduleFinalizedPoolSeedRequests
  split
  · exact exclusive
  · simp only
    split
    · exact exclusive
    · apply exclusive_issueRequest exclusive
      intro other named covered
      cases other with
      | pool pool =>
        have uncovered : pool ∈ uncoveredPools chain output.1 :=
          (HashSet.mem_collect _ _).mp named
        exact not_mem_pendingPools uncovered ((covers_pool _ _).mp covered)
      | _ => exact named

theorem exclusive_schedule [BloomHash] (chain : ChainKey)
    (exclusive : Exclusive Names output.1.pendingRequests) :
    Exclusive Names (scheduleUnknownCanonicalRequests chain output).1.pendingRequests := by
  unfold scheduleUnknownCanonicalRequests
  apply exclusive_poolSeeds
  apply exclusive_tokenMetadata
  apply exclusive_poolMetadata
  apply exclusive_unknownLogs
  exact exclusive_missingHeaders exclusive

theorem exclusive_probe (exclusive : Exclusive Names output.1.pendingRequests)
    (hash : BlockHash) (number : UInt64) :
    Exclusive Names
      (withFinalityProbeIfOrphanSuspected hash number output).1.pendingRequests := by
  unfold withFinalityProbeIfOrphanSuspected
  split
  · exact exclusive_issueRequest exclusive (fun _ named => absurd named id)
  · exact exclusive

theorem exclusive_logRanges [BloomHash] (chain : ChainKey) (target : BlockHash)
    (exclusive : Exclusive Names output.1.pendingRequests) :
    Exclusive Names (scheduleMissingLogRangeRequests chain target output).1.pendingRequests := by
  unfold scheduleMissingLogRangeRequests
  generalize output.1.blocks.graph.missingCompleteRangesTo target
    (output.1.poolRegistry.verifiedPools chain) (poolManagerAddress chain)
    (PendingRequests.pendingLogRangeNumbers output.1.pendingRequests) = ranges
  induction ranges generalizing output with
  | nil => exact exclusive
  | cons range ranges inductionHypothesis =>
    exact inductionHypothesis (exclusive_issueRequest exclusive (fun _ named => absurd named id))

end Exclusive

theorem absorb_headerRequests [BloomHash] (chain : ChainKey) (state : State) (id : UInt64)
    (hash parent : BlockHash) (bloom : Bloom) (number : UInt64) :
    (absorb chain state (.blockHeaderReceived id hash parent bloom number)).pendingRequests =
      (state.pendingRequests.takeRequest .blockHeader id).1 := by
  have taken : (absorb chain state (.blockHeaderReceived id hash parent bloom
      number)).pendingRequests = ((state.withLogHeaderReceived hash parent number bloom
        (maxPendingBlocks chain)).pendingRequests.takeRequest .blockHeader id).1 := rfl
  rw [taken, withLogHeaderReceived_pendingRequests]

theorem transition_exclusive [BloomHash] (chain : ChainKey) {state : State}
    (exclusive : Exclusive Names state.pendingRequests) (event : Event) :
    Exclusive Names (transition chain state event).1.pendingRequests := by
  by_cases restarts : Reinitialises state event
  · cases event with
    | canonicalHeaderAtHeightReceived id hash number =>
      rw [transition_reinitialises chain state id restarts]
      exact Exclusive.new
    | _ => exact absurd restarts id
  · have follows := transition_follows chain state event restarts
    have absorbed : Exclusive Names (absorb chain state event).pendingRequests :=
      exclusive.of_evolves (absorb_evolves chain state event)
    generalize transition chain state event = result at follows
    cases follows with
    | idle => exact absorbed
    | @selfParent hash bloom number _ => exact exclusive_requestMissingHeader absorbed hash
    | scheduled => exact exclusive_schedule chain absorbed
    | probed hash number => exact exclusive_probe (exclusive_schedule chain absorbed) hash number
    | @reissued id hash parent bloom number payload delivered inFlight _ =>
      subst delivered
      refine exclusive_probe (exclusive_schedule chain ?_) hash number
      have again := exclusive.reissue inFlight
        (absorb chain state (.blockHeaderReceived id hash parent bloom number)).tick
      rw [← absorb_headerRequests chain state id hash parent bloom number] at again
      exact again
    | ranges target => exact exclusive_logRanges chain target absorbed
    | retried ids tick _ => exact exclusive.retryAll ids tick

theorem Starts.exclusive {start : State × List Effect} (starts : Starts start) :
    Exclusive Names start.1.pendingRequests := by
  cases starts with
  | init hash number => exact Exclusive.new
  | activateFromSeed hash number snapshots pools tokens blocks =>
    refine exclusive_issueEach .header (fun _ _ same => Target.header.inj same) ?_
      (BlocksGraph.missingParents_nodup _) Exclusive.new
      (fun _ _ => RequestStore.not_covers_new _)
    intro hash other
    cases other <;> simp [Names, eq_comm]

/-! ### Reached states -/

/-- The states of any run from any start. -/
def Reached [BloomHash] (chain : ChainKey) : State → Prop :=
  Reachable (transition chain) (fun state => ∃ effects, Starts (state, effects))
    (fun _ _ => True)

theorem Reached.built [BloomHash] {chain : ChainKey} {state : State}
    (reached : Reached chain state) : BlocksGraph.Built state.blocks.graph := by
  refine reached.invariant (fun state => BlocksGraph.Built state.blocks.graph) ?_
    (fun state event _ built _ => transition_built built event)
  rintro state ⟨effects, starts⟩
  generalize output : (state, effects) = start at starts
  cases starts with
  | init hash number =>
    obtain ⟨rfl, -⟩ := Prod.mk.inj output
    exact .new hash number
  | activateFromSeed hash number snapshots pools tokens blocks =>
    obtain rfl : state = _ := congrArg Prod.fst output
    have issues := activation_issues chain hash number snapshots pools tokens blocks
    rw [issues.blocks]
    exact .fromSeed hash number blocks

theorem Reached.exclusive [BloomHash] {chain : ChainKey} {state : State}
    (reached : Reached chain state) : Exclusive Names state.pendingRequests := by
  refine reached.invariant (fun state => Exclusive Names state.pendingRequests) ?_
    (fun state event _ exclusive _ => transition_exclusive chain exclusive event)
  rintro state ⟨effects, starts⟩
  exact starts.exclusive

end ArmchairAnalyst.Kernel

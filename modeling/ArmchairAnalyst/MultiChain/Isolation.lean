import ArmchairAnalyst.MultiChain.InertShortcut
import ArmchairAnalyst.MultiChain.Lifecycles

/-!
# Isolation of the chains

Only the snapshots for the optimizer bring chains together. Everything else that a chain
does in a run is what it does alone, given the events that concern it.
-/

namespace ArmchairAnalyst.MultiChain

open Bootstrap (FillerHash)

variable [BloomHash] [ReserveProjection]

/-! ### A chain by itself -/

/-- An event as one chain receives it. -/
inductive ChainInput
  | finalizedHeader (blockHash : BlockHash) (number : UInt64)
  | data (data : SubscriptionData)
  | kernel (event : Kernel.Event)
  | bootstrap (event : Bootstrap.Event)
  | tick (order : IterationOrder)

def Event.concerns (chain : ChainKey) : Event → Option ChainInput
  | .finalizedHeaderReceived other blockHash number =>
    if other = chain then some (.finalizedHeader blockHash number) else none
  | .finalizedHeaderUnavailable _ => none
  | .subscriptionData other data => if other = chain then some (.data data) else none
  | .chainEvent other event => if other = chain then some (.kernel event) else none
  | .bootstrapEvent other event => if other = chain then some (.bootstrap event) else none
  | .optimizationStepCompleted => none
  | .tick orders => some (.tick (orders chain))

/-- The chain that an effect is for. A snapshot for the optimizer is for no single chain. -/
def Effect.chain? : Effect → Option ChainKey
  | .fetchFinalizedHeader chain => some chain
  | .chainEffect chain _ => some chain
  | .bootstrapEffect chain _ => some chain
  | .runOptimization _ => none

def Effect.isFor (chain : ChainKey) (effect : Effect) : Bool := effect.chain? = some chain

def kernelStep (chain : ChainKey) (state : Kernel.State) (event : Kernel.Event) :
    Option ChainLifecycle × List Effect :=
  let (next, effects) := Kernel.transition chain state event
  (some (.active next), wrapChainEffects chain effects)

/-- A step after which the finalized header is fetched when the path has grown. -/
def refreshingStep (chain : ChainKey) (state : Kernel.State) (event : Kernel.Event) :
    Option ChainLifecycle × List Effect :=
  match Kernel.transitionOutcome chain state event with
  | .inert next => (some (.active next), [])
  | .progressed next effects =>
    let policy := finalizedRefreshPolicy chain
    (some (.active next),
      wrapChainEffects chain effects ++
        if shouldFetchFinalizedHeader
            (state.blocks.graph.distanceFromHead state.blocks.graph.anchor.hash)
            (next.blocks.graph.distanceFromHead next.blocks.graph.anchor.hash)
            policy.targetLen policy.retryStride then
          [.fetchFinalizedHeader chain]
        else [])

/-- A chain without the others. -/
def chainStep [FillerHash] (chain : ChainKey) :
    Option ChainLifecycle → ChainInput → Option ChainLifecycle × List Effect
  | none, _ => (none, [])
  | some (.bootstrapping state buffered), .data data =>
    (some (.bootstrapping state (buffered ++ [data])), [])
  | some (.bootstrapping state buffered), .bootstrap event =>
    advanceBootstrap chain state buffered event
  | some (.bootstrapping state buffered), .tick order =>
    advanceBootstrap chain state buffered (.tick order)
  | some (.bootstrapping state buffered), .finalizedHeader _ _ =>
    (some (.bootstrapping state buffered), [])
  | some (.bootstrapping state buffered), .kernel _ => (some (.bootstrapping state buffered), [])
  | some (.active state), .finalizedHeader blockHash number =>
    kernelStep chain state (.finalizedBlockObserved blockHash number)
  | some (.active state), .tick order => kernelStep chain state (.tick order)
  | some (.active state), .data data => refreshingStep chain state data.intoKernelEvent
  | some (.active state), .kernel event => refreshingStep chain state event
  | some (.active state), .bootstrap _ => (some (.active state), [])

/-! ### Whose effects -/

/-- All effects are for one chain. -/
def OfChain (chain : ChainKey) (effects : List Effect) : Prop :=
  ∀ effect ∈ effects, effect.chain? = some chain

namespace OfChain

variable {chain : ChainKey} {effects effects' : List Effect}

omit [BloomHash] in
theorem nil : OfChain chain [] := by
  intro effect listed
  cases listed

omit [BloomHash] in
theorem append (first : OfChain chain effects) (second : OfChain chain effects') :
    OfChain chain (effects ++ effects') := by
  intro effect listed
  rcases List.mem_append.mp listed with member | member
  · exact first effect member
  · exact second effect member

omit [BloomHash] in
theorem wrapChain (effects : List Kernel.Effect) :
    OfChain chain (wrapChainEffects chain effects) := by
  intro effect listed
  obtain ⟨request, -, rfl⟩ := List.mem_map.mp listed
  rfl

omit [BloomHash] in
theorem wrapBootstrap (effects : List Bootstrap.Effect) :
    OfChain chain (wrapBootstrapEffects chain effects) := by
  intro effect listed
  obtain ⟨request, -, rfl⟩ := List.mem_map.mp listed
  rfl

theorem replay (state : Kernel.State) (buffered : List SubscriptionData) :
    OfChain chain (replayBufferedSubscriptionData chain state buffered).2 := by
  unfold replayBufferedSubscriptionData
  have start : OfChain chain [] := nil
  generalize ([] : List Effect) = effects at start
  induction buffered generalizing state effects with
  | nil => exact start
  | cons data buffered inductionHypothesis =>
    exact inductionHypothesis _ _ (start.append (wrapChain _))

theorem advanceBootstrap [FillerHash] (state : Bootstrap.State)
    (buffered : List SubscriptionData) (event : Bootstrap.Event) :
    OfChain chain (MultiChain.advanceBootstrap chain state buffered event).2 := by
  unfold MultiChain.advanceBootstrap
  simp only
  split
  · exact ((wrapBootstrap _).append (wrapChain _)).append (replay _ _)
  · exact wrapBootstrap _
  · exact wrapBootstrap _

omit [BloomHash] in
theorem filter_own (own : OfChain chain effects) : effects.filter (Effect.isFor chain) = effects := by
  rw [List.filter_eq_self]
  intro effect listed
  simp only [Effect.isFor, own effect listed, decide_true]

omit [BloomHash] in
theorem filter_other (own : OfChain chain effects) {other : ChainKey} (different : chain ≠ other) :
    effects.filter (Effect.isFor other) = [] := by
  rw [List.filter_eq_nil_iff]
  intro effect listed
  simp only [Effect.isFor, own effect listed, Option.some.injEq, decide_eq_true_eq]
  exact different

end OfChain

theorem refreshingStep_ofChain (chain : ChainKey) (state : Kernel.State) (event : Kernel.Event) :
    OfChain chain (refreshingStep chain state event).2 := by
  unfold refreshingStep
  split
  · exact .nil
  · refine (OfChain.wrapChain _).append ?_
    split
    · intro effect listed
      obtain rfl := List.mem_singleton.mp listed
      rfl
    · exact .nil

theorem chainStep_ofChain [FillerHash] (chain : ChainKey) (lifecycle : Option ChainLifecycle)
    (input : ChainInput) : OfChain chain (chainStep chain lifecycle input).2 := by
  unfold chainStep
  split
  · exact .nil
  · exact .nil
  · exact .advanceBootstrap _ _ _
  · exact .advanceBootstrap _ _ _
  · exact .nil
  · exact .nil
  · exact .wrapChain _
  · exact .wrapChain _
  · exact refreshingStep_ofChain _ _ _
  · exact refreshingStep_ofChain _ _ _
  · exact .nil

/-! ### One event -/

/-- What a step means for one chain. -/
def seenBy (chain : ChainKey) (result : State × List Effect) :
    Option ChainLifecycle × List Effect :=
  (result.1.chains[chain]?, result.2.filter (Effect.isFor chain))

omit [BloomHash] in
theorem seenBy_withChainLifecycle (state : State) (target chain : ChainKey)
    {f : ChainLifecycle → Option ChainLifecycle × List Effect}
    (own : ∀ lifecycle, OfChain target (f lifecycle).2) :
    seenBy chain (withChainLifecycle state target f) =
      if target = chain then state.chains[chain]?.elim (none, []) f
      else (state.chains[chain]?, []) := by
  unfold withChainLifecycle seenBy
  by_cases same : target = chain
  · subst same
    rw [if_pos rfl]
    cases found : state.chains[target]? with
    | none => simp [found]
    | some lifecycle =>
      have mine := (own lifecycle).filter_own
      simp only [Option.elim]
      generalize f lifecycle = result at mine
      obtain ⟨_ | lifecycle', effects⟩ := result
      · simp [mine]
      · simp [mine]
  · rw [if_neg same]
    cases found : state.chains[target]? with
    | none => rfl
    | some lifecycle =>
      have others := (own lifecycle).filter_other same
      simp only
      generalize f lifecycle = result at others
      obtain ⟨_ | lifecycle', effects⟩ := result
      · rw [others, HashMap.getElem?_erase, if_neg (Ne.symm same)]
      · rw [others, HashMap.getElem?_insert, HashMap.getElem?_erase, if_neg (Ne.symm same),
          if_neg (Ne.symm same)]

/-- Whether or not a snapshot is dispatched, a chain sees its own effects only. -/
theorem filter_afterProgress (state : State) (target chain : ChainKey) {before : Kernel.State}
    {next : Kernel.State} {effects : List Kernel.Effect} {event : Kernel.Event}
    (progressed : Kernel.transitionOutcome target before event = .progressed next effects) :
    (afterProgress state target before (next, effects)).2.filter (Effect.isFor chain) =
      (refreshingStep target before event).2.filter (Effect.isFor chain) := by
  unfold afterProgress refreshingStep
  simp only [progressed]
  split
  · rfl
  · split
    · split
      · rfl
      · rw [List.filter_append]
        simp [Effect.isFor, Effect.chain?]
    · rfl

theorem refreshingStep_active (chain : ChainKey) (state : Kernel.State) (event : Kernel.Event) :
    (refreshingStep chain state event).1 =
      some (.active (Kernel.transition chain state event).1) := by
  unfold refreshingStep Kernel.transition
  cases Kernel.transitionOutcome chain state event with
  | inert next => rfl
  | progressed next effects => rfl

theorem seenBy_chainEvent [FillerHash] (state : State) (target chain : ChainKey)
    (event : Kernel.Event) :
    seenBy chain (chainEvent state target event) =
      if target = chain then chainStep chain state.chains[chain]? (.kernel event)
      else (state.chains[chain]?, []) := by
  cases found : state.chains[target]? with
  | none =>
    have unchanged : chainEvent state target event = (state, []) := by
      simp only [chainEvent, found]
    rw [unchanged]
    split
    · rename_i same
      rw [← same, found, seenBy, found]
      rfl
    · rfl
  | some lifecycle =>
    cases lifecycle with
    | bootstrapping bootstrapState buffered =>
      have unchanged : chainEvent state target event = (state, []) := by
        simp only [chainEvent, found, reinsert_same found]
      rw [unchanged]
      split
      · rename_i same
        rw [← same, found, seenBy, found]
        rfl
      · rfl
    | active chainState =>
      have after : (chainEvent state target event).1.chains =
          (state.chains.erase target).insert target
            (.active (Kernel.transition target chainState event).1) ∧
          (chainEvent state target event).2.filter (Effect.isFor chain) =
            (refreshingStep target chainState event).2.filter (Effect.isFor chain) := by
        simp only [chainEvent, found]
        cases outcome : Kernel.transitionOutcome target chainState event with
        | inert next => simp only [refreshingStep, transition_inert outcome, outcome, and_self]
        | progressed next effects =>
          simp only [afterProgress_chains, transition_progressed outcome, true_and]
          exact filter_afterProgress state target chain outcome
      rw [seenBy, after.1, after.2]
      split
      · rename_i same
        subst same
        rw [(refreshingStep_ofChain target chainState event).filter_own,
          Std.ExtTreeMap.getElem?_insert_self, ← refreshingStep_active, found]
        rfl
      · rename_i different
        rw [(refreshingStep_ofChain target chainState event).filter_other different,
          HashMap.getElem?_insert, HashMap.getElem?_erase, if_neg (Ne.symm different),
          if_neg (Ne.symm different)]

/-! ### A tick -/

theorem tickChain_eq [FillerHash] (orders : ChainKey → IterationOrder)
    (result : BTreeMap ChainKey ChainLifecycle × List Effect) (chain : ChainKey)
    (lifecycle : ChainLifecycle) :
    tickChain orders result (chain, lifecycle) =
      ((chainStep chain (some lifecycle) (.tick (orders chain))).1.elim result.1
          (result.1.insert chain),
        result.2 ++ (chainStep chain (some lifecycle) (.tick (orders chain))).2) := by
  cases lifecycle with
  | bootstrapping bootstrapState buffered =>
    simp only [tickChain, chainStep]
    generalize advanceBootstrap chain bootstrapState buffered (.tick (orders chain)) = advanced
    obtain ⟨_ | lifecycle', effects⟩ := advanced <;> rfl
  | active chainState => rfl

/-- Chains that are ticked leave the others alone. -/
theorem tickChain_others [FillerHash] (orders : ChainKey → IterationOrder) (chain : ChainKey)
    {entries : List (ChainKey × ChainLifecycle)} (absent : chain ∉ entries.map Prod.fst)
    (result : BTreeMap ChainKey ChainLifecycle × List Effect) :
    (entries.foldl (tickChain orders) result).1[chain]? = result.1[chain]? ∧
      (entries.foldl (tickChain orders) result).2.filter (Effect.isFor chain) =
        result.2.filter (Effect.isFor chain) := by
  induction entries generalizing result with
  | nil => exact ⟨rfl, rfl⟩
  | cons entry entries inductionHypothesis =>
    obtain ⟨other, lifecycle⟩ := entry
    rw [List.map_cons, List.mem_cons, not_or] at absent
    obtain ⟨chains, effects⟩ := inductionHypothesis absent.2
      (tickChain orders result (other, lifecycle))
    have different : other ≠ chain := fun same => absent.1 same.symm
    have others := (chainStep_ofChain other (some lifecycle)
      (.tick (orders other))).filter_other different
    rw [List.foldl_cons, chains, effects, tickChain_eq]
    generalize chainStep other (some lifecycle) (.tick (orders other)) = stepped at others
    refine ⟨?_, by rw [List.filter_append, others, List.append_nil]⟩
    obtain ⟨_ | lifecycle', effects⟩ := stepped
    · rfl
    · rw [Option.elim_some, HashMap.getElem?_insert, if_neg absent.1]

theorem seenBy_tick [FillerHash] (state : State) (chain : ChainKey)
    (orders : ChainKey → IterationOrder) :
    seenBy chain (tick state orders) =
      chainStep chain state.chains[chain]? (.tick (orders chain)) := by
  have distinct : (state.chains.toList.map Prod.fst).Nodup := by
    rw [Std.ExtTreeMap.map_fst_toList_eq_keys]
    exact HashMap.keys_nodup _
  unfold seenBy tick
  simp only
  cases found : state.chains[chain]? with
  | none =>
    have absent : chain ∉ state.chains.toList.map Prod.fst := by
      intro listed
      obtain ⟨entry, member, rfl⟩ := List.mem_map.mp listed
      rw [(HashMap.mem_toList_iff _ _).mp member] at found
      cases found
    obtain ⟨chains, effects⟩ := tickChain_others orders chain absent (∅, [])
    rw [chains, effects]
    simp [chainStep]
  | some lifecycle =>
    obtain ⟨before, after, split⟩ :=
      List.append_of_mem ((HashMap.mem_toList_iff _ (chain, lifecycle)).mpr found)
    rw [split, List.map_append, List.map_cons, List.nodup_middle, List.nodup_cons,
      List.mem_append, not_or] at distinct
    obtain ⟨⟨absentBefore, absentAfter⟩, -⟩ := distinct
    obtain ⟨chains, effects⟩ := tickChain_others orders chain absentAfter
      (tickChain orders (before.foldl (tickChain orders) (∅, [])) (chain, lifecycle))
    obtain ⟨earlierChains, earlierEffects⟩ :=
      tickChain_others orders chain absentBefore (∅, [])
    have own := (chainStep_ofChain chain (some lifecycle) (.tick (orders chain))).filter_own
    rw [split, List.foldl_append, List.foldl_cons, chains, effects, tickChain_eq,
      List.filter_append, earlierEffects, own]
    generalize chainStep chain (some lifecycle) (.tick (orders chain)) = stepped
    obtain ⟨_ | lifecycle', effects⟩ := stepped
    · simp [earlierChains]
    · simp

/-- A step is, for each chain, the step that the chain takes alone. -/
theorem seenBy_transition [FillerHash] (state : State) (chain : ChainKey) (event : Event) :
    seenBy chain (transition state event) =
      (event.concerns chain).elim (state.chains[chain]?, [])
        (chainStep chain state.chains[chain]?) := by
  cases event with
  | finalizedHeaderReceived target hash number =>
    refine (seenBy_withChainLifecycle state target chain ?_).trans ?_
    · intro lifecycle
      cases lifecycle with
      | bootstrapping bootstrapState buffered => exact .nil
      | active chainState => exact .wrapChain _
    · simp only [Event.concerns]
      split
      · rename_i same
        subst same
        cases state.chains[target]? with
        | none => rfl
        | some lifecycle => cases lifecycle <;> rfl
      · rfl
  | finalizedHeaderUnavailable target => rfl
  | subscriptionData target data =>
    simp only [transition, subscriptionData, Event.concerns]
    split
    · rename_i bootstrapState buffered found
      refine (seenBy_withChainLifecycle state target chain ?_).trans ?_
      · intro lifecycle
        cases lifecycle <;> exact .nil
      · split
        · rename_i same
          subst same
          rw [found]
          rfl
        · rfl
    · rename_i unbootstrapped
      rw [seenBy_chainEvent]
      split
      · rename_i same
        subst same
        cases found : state.chains[target]? with
        | none => rfl
        | some lifecycle =>
          cases lifecycle with
          | bootstrapping bootstrapState buffered =>
            exact absurd found (unbootstrapped bootstrapState buffered)
          | active chainState => rfl
      · rfl
  | chainEvent target event =>
    refine (seenBy_chainEvent state target chain event).trans ?_
    simp only [Event.concerns]
    split <;> rfl
  | bootstrapEvent target event =>
    refine (seenBy_withChainLifecycle state target chain ?_).trans ?_
    · intro lifecycle
      cases lifecycle with
      | bootstrapping bootstrapState buffered => exact .advanceBootstrap _ _ _
      | active chainState => exact .nil
    · simp only [Event.concerns]
      split
      · rename_i same
        subst same
        cases state.chains[target]? with
        | none => rfl
        | some lifecycle => cases lifecycle <;> rfl
      · rfl
  | optimizationStepCompleted => rfl
  | tick orders => exact seenBy_tick state chain orders

/-- In every run each chain is in the state, and has asked for what, it would be in and
have asked for alone. -/
theorem chains_isolated [FillerHash] (state : State) (chain : ChainKey) (events : List Event) :
    seenBy chain (run transition state events) =
      run (chainStep chain) state.chains[chain]? (events.filterMap (Event.concerns chain)) :=
  run_part (fun state : State => state.chains[chain]?) (Effect.isFor chain) (Event.concerns chain)
    (fun state event => seenBy_transition state chain event) state events

end ArmchairAnalyst.MultiChain

import ArmchairAnalyst.Library.TransitionSystem
import ArmchairAnalyst.MultiChainKernel
import ArmchairAnalyst.Kernel.WorkInFlight

/-!
# Lifecycles over a run

A property of bootstraps and kernels that each of their own transitions keeps,
and that an activation establishes, holds of every chain in every reached state.
-/

namespace ArmchairAnalyst.MultiChain

open Bootstrap (BootstrapOutcome FillerHash)

/-- The states of any run over any set of chains. -/
def Reached [BloomHash] [ReserveProjection] [FillerHash] : State → Prop :=
  Reachable transition (fun state => ∃ chains, state = (State.init chains).1) (fun _ _ => True)

/-- A property of a lifecycle, given for each of its two phases. -/
def ChainLifecycle.Holds (bootstrap : Bootstrap.State → Prop) (kernel : Kernel.State → Prop) :
    ChainLifecycle → Prop
  | .bootstrapping state _ => bootstrap state
  | .active state => kernel state

/-- Every chain's lifecycle has its property. -/
def AllChains (holds : ChainKey → ChainLifecycle → Prop)
    (chains : BTreeMap ChainKey ChainLifecycle) : Prop :=
  ∀ (chain : ChainKey) (lifecycle : ChainLifecycle), chains[chain]? = some lifecycle →
    holds chain lifecycle

namespace AllChains

variable {holds : ChainKey → ChainLifecycle → Prop} {chains : BTreeMap ChainKey ChainLifecycle}

theorem empty : AllChains holds ∅ := by
  intro chain lifecycle found
  simp at found

theorem insert (all : AllChains holds chains) {chain : ChainKey} {lifecycle : ChainLifecycle}
    (held : holds chain lifecycle) : AllChains holds (chains.insert chain lifecycle) := by
  intro other lifecycle' found
  rw [Std.ExtTreeMap.getElem?_insert] at found
  split at found
  · rename_i equal
    obtain rfl := Std.LawfulEqCmp.eq_of_compare equal
    obtain rfl := Option.some.inj found
    exact held
  · exact all other lifecycle' found

theorem erase (all : AllChains holds chains) (chain : ChainKey) :
    AllChains holds (chains.erase chain) := by
  intro other lifecycle found
  rw [Std.ExtTreeMap.getElem?_erase] at found
  split at found
  · simp at found
  · exact all other lifecycle found

theorem withChainLifecycle [ReserveProjection] {state : State}
    (all : AllChains holds state.chains) (chain : ChainKey)
    {f : ChainLifecycle → Option ChainLifecycle × List Effect}
    (each : ∀ lifecycle lifecycle', holds chain lifecycle → (f lifecycle).1 = some lifecycle' →
      holds chain lifecycle') :
    AllChains holds (MultiChain.withChainLifecycle state chain f).1.chains := by
  unfold MultiChain.withChainLifecycle
  split
  · rename_i lifecycle found
    have result := each lifecycle
    simp only
    split
    · rename_i lifecycle' handled
      exact (all.erase chain).insert (result lifecycle' (all chain lifecycle found) handled)
    · exact all.erase chain
  · exact all

end AllChains

/-- A dispatch leaves the chains as the transition left them. -/
theorem afterProgress_chains [BloomHash] [ReserveProjection] (state : State) (chain : ChainKey)
    (before : Kernel.State) (result : Kernel.State × List Kernel.Effect) :
    (afterProgress state chain before result).1.chains =
      (state.chains.erase chain).insert chain (.active result.1) := by
  unfold afterProgress
  simp only
  split
  · rfl
  · split
    · split <;> rfl
    · rfl

/-- A property of chains that every step of a bootstrap and of a kernel keeps. -/
structure ChainInvariant [BloomHash] [FillerHash]
    (bootstrap : ChainKey → Bootstrap.State → Prop) (kernel : ChainKey → Kernel.State → Prop) :
    Prop where
  init : ∀ chain, bootstrap chain (Bootstrap.init (bootstrapPolicy chain)).1
  advance : ∀ chain state event, bootstrap chain state →
    bootstrap chain (Bootstrap.transition chain state event).1
  activate : ∀ chain state outcome, bootstrap chain state →
    Bootstrap.completion state = some (.ready outcome) →
    kernel chain (activateBootstrapOutcome outcome).1
  step : ∀ chain state event, kernel chain state →
    kernel chain (Kernel.transition chain state event).1

variable [BloomHash] [FillerHash] {bootstrap : ChainKey → Bootstrap.State → Prop}
  {kernel : ChainKey → Kernel.State → Prop}

omit [FillerHash] in
theorem transition_progressed {chain : ChainKey} {state state' : Kernel.State}
    {event : Kernel.Event} {effects : List Kernel.Effect}
    (progressed : Kernel.transitionOutcome chain state event = .progressed state' effects) :
    Kernel.transition chain state event = (state', effects) := by
  simp only [Kernel.transition, progressed]

omit [FillerHash] in
theorem transition_inert {chain : ChainKey} {state state' : Kernel.State} {event : Kernel.Event}
    (inert : Kernel.transitionOutcome chain state event = .inert state') :
    Kernel.transition chain state event = (state', []) := by
  simp only [Kernel.transition, inert]

namespace ChainInvariant

variable (invariant : ChainInvariant bootstrap kernel)
include invariant

theorem replay [ReserveProjection] {chain : ChainKey} (buffered : List SubscriptionData)
    {state : Kernel.State} (held : kernel chain state) :
    kernel chain (replayBufferedSubscriptionData chain state buffered).1 := by
  unfold replayBufferedSubscriptionData
  generalize ([] : List Effect) = effects
  induction buffered generalizing state effects with
  | nil => exact held
  | cons data buffered inductionHypothesis =>
    exact inductionHypothesis (invariant.step chain state data.intoKernelEvent held) _

theorem advanceBootstrap [ReserveProjection] {chain : ChainKey} {state : Bootstrap.State}
    (buffered : List SubscriptionData) (event : Bootstrap.Event) (held : bootstrap chain state)
    {lifecycle : ChainLifecycle}
    (advanced : (MultiChain.advanceBootstrap chain state buffered event).1 = some lifecycle) :
    lifecycle.Holds (bootstrap chain) (kernel chain) := by
  have next := invariant.advance chain state event held
  unfold MultiChain.advanceBootstrap at advanced
  simp only at advanced
  split at advanced
  · rename_i outcome completed
    obtain rfl := Option.some.inj advanced
    exact invariant.replay buffered (invariant.activate chain _ outcome next completed)
  · simp at advanced
  · obtain rfl := Option.some.inj advanced
    exact next

theorem chainEvent [ReserveProjection] {state : State} (chain : ChainKey) (event : Kernel.Event)
    (all : AllChains (fun chain => ChainLifecycle.Holds (bootstrap chain) (kernel chain))
      state.chains) :
    AllChains (fun chain => ChainLifecycle.Holds (bootstrap chain) (kernel chain))
      (MultiChain.chainEvent state chain event).1.chains := by
  unfold MultiChain.chainEvent
  split
  · rename_i chainState found
    have held : kernel chain chainState := all chain (.active chainState) found
    have next := invariant.step chain chainState event held
    split
    · rename_i chainState' inert
      rw [transition_inert inert] at next
      exact (all.erase chain).insert next
    · rename_i chainState' effects progressed
      rw [transition_progressed progressed] at next
      rw [afterProgress_chains]
      exact (all.erase chain).insert next
  · rename_i existing _ found
    exact (all.erase chain).insert (all chain existing found)
  · exact all

theorem tick [ReserveProjection] {state : State} (orders : ChainKey → IterationOrder)
    (all : AllChains (fun chain => ChainLifecycle.Holds (bootstrap chain) (kernel chain))
      state.chains) :
    AllChains (fun chain => ChainLifecycle.Holds (bootstrap chain) (kernel chain))
      (MultiChain.tick state orders).1.chains := by
  unfold MultiChain.tick
  simp only
  have entries : ∀ entry ∈ state.chains.toList,
      entry.2.Holds (bootstrap entry.1) (kernel entry.1) := fun entry membership =>
    all entry.1 entry.2 ((HashMap.mem_toList_iff _ entry).mp membership)
  generalize start : ((∅, []) : BTreeMap ChainKey ChainLifecycle × List Effect) = result
  have held : AllChains (fun chain => ChainLifecycle.Holds (bootstrap chain) (kernel chain))
      result.1 := by
    rw [← start]
    exact .empty
  clear start
  generalize state.chains.toList = ticked at entries
  induction ticked generalizing result with
  | nil => exact held
  | cons entry ticked inductionHypothesis =>
    refine inductionHypothesis _ ?_ (fun other membership =>
      entries other (List.mem_cons_of_mem _ membership))
    have own := entries entry List.mem_cons_self
    obtain ⟨chain, lifecycle⟩ := entry
    cases lifecycle with
    | bootstrapping bootstrapState buffered =>
      simp only [tickChain]
      split
      · rename_i lifecycle handled
        exact held.insert (invariant.advanceBootstrap buffered (.tick (orders chain)) own handled)
      · exact held
    | active chainState =>
      have next := invariant.step chain chainState (.tick (orders chain)) own
      simp only [tickChain]
      exact held.insert next

theorem start [ReserveProjection] (chains : List ChainKey) :
    AllChains (fun chain => ChainLifecycle.Holds (bootstrap chain) (kernel chain))
      (State.init chains).1.chains := by
  unfold State.init
  generalize begin : (({ chains := ∅, lastOptimizedBlock := ∅ }, []) : State × List Effect) =
    result
  have held : AllChains (fun chain => ChainLifecycle.Holds (bootstrap chain) (kernel chain))
      result.1.chains := by
    rw [← begin]
    exact .empty
  clear begin
  induction chains generalizing result with
  | nil => exact held
  | cons chain chains inductionHypothesis =>
    exact inductionHypothesis _ (held.insert (invariant.init chain))

/-- Every transition keeps the property of every chain. -/
theorem transition [ReserveProjection] {state : State} (event : Event)
    (all : AllChains (fun chain => ChainLifecycle.Holds (bootstrap chain) (kernel chain))
      state.chains) :
    AllChains (fun chain => ChainLifecycle.Holds (bootstrap chain) (kernel chain))
      (MultiChain.transition state event).1.chains := by
  cases event with
  | finalizedHeaderReceived chain hash number =>
    refine all.withChainLifecycle chain (fun lifecycle lifecycle' held handled => ?_)
    cases lifecycle with
    | bootstrapping bootstrapState buffered =>
      obtain rfl := Option.some.inj handled
      exact held
    | active chainState =>
      obtain rfl := Option.some.inj handled
      exact invariant.step chain chainState _ held
  | finalizedHeaderUnavailable chain => exact all
  | subscriptionData chain data =>
    simp only [MultiChain.transition, subscriptionData]
    split
    · refine all.withChainLifecycle chain (fun lifecycle lifecycle' held handled => ?_)
      cases lifecycle with
      | bootstrapping bootstrapState buffered =>
        obtain rfl := Option.some.inj handled
        exact held
      | active chainState =>
        obtain rfl := Option.some.inj handled
        exact held
    · exact invariant.chainEvent chain data.intoKernelEvent all
  | chainEvent chain event => exact invariant.chainEvent chain event all
  | bootstrapEvent chain event =>
    refine all.withChainLifecycle chain (fun lifecycle lifecycle' held handled => ?_)
    cases lifecycle with
    | bootstrapping bootstrapState buffered =>
      exact invariant.advanceBootstrap buffered event held handled
    | active chainState =>
      obtain rfl := Option.some.inj handled
      exact held
  | optimizationStepCompleted => exact all
  | tick orders => exact invariant.tick orders all

theorem reached [ReserveProjection] {state : State} (reached : Reached state) :
    AllChains (fun chain => ChainLifecycle.Holds (bootstrap chain) (kernel chain))
      state.chains := by
  refine Reachable.invariant (fun state => AllChains (fun chain =>
    ChainLifecycle.Holds (bootstrap chain) (kernel chain)) state.chains) reached ?_
    (fun state event _ all _ => invariant.transition event all)
  rintro state ⟨chains, rfl⟩
  exact invariant.start chains

end ChainInvariant

end ArmchairAnalyst.MultiChain

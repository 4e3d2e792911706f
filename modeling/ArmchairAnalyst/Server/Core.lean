import ArmchairAnalyst.Kernel.WorkInFlight

/-!
# The server

One chain's kernel behind a warm start: the registries are read from disk, the
finalized anchor is probed, and from then on every input goes to the kernel.
-/

namespace ArmchairAnalyst.Server

def servedChain : ChainKey := .ethereum

structure AnchorHeader where
  hash : BlockHash
  number : UInt64

/-- The registries of an earlier process. -/
structure RegistrySeed where
  poolRegistry : TrustedPoolRegistry
  tokenRegistry : TokenRegistry

inductive ServerState
  | awaitingSeed
  | awaitingAnchor (seed : RegistrySeed)
  | running (state : Kernel.State)

inductive ServerInput
  | registrySeed (seed : RegistrySeed)
  | finalizedHeader (anchor : Option AnchorHeader)
  | kernel (event : Kernel.Event)
  | tick (order : IterationOrder)

inductive ServerEffect
  | kernel (effect : Kernel.Effect)
  | fetchFinalizedHeader
  | loadRegistrySeed

def kernelEffects (effects : List Kernel.Effect) : List ServerEffect := effects.map .kernel

def serverInit : ServerState × List ServerEffect := (.awaitingSeed, [.loadRegistrySeed])

def serverTransition [BloomHash] : ServerState → ServerInput → ServerState × List ServerEffect
  | .awaitingSeed, .registrySeed seed => (.awaitingAnchor seed, [.fetchFinalizedHeader])
  | .awaitingSeed, _ => (.awaitingSeed, [])
  | .awaitingAnchor seed, .finalizedHeader (some anchor) =>
    let (kernelState, effects) := Kernel.State.activateFromSeed anchor.hash anchor.number ∅
      seed.poolRegistry seed.tokenRegistry []
    (.running kernelState, kernelEffects effects)
  | .awaitingAnchor seed, .finalizedHeader none => (.awaitingAnchor seed, [.fetchFinalizedHeader])
  | .awaitingAnchor seed, .tick _ => (.awaitingAnchor seed, [.fetchFinalizedHeader])
  | .awaitingAnchor seed, .kernel _ => (.awaitingAnchor seed, [])
  | .awaitingAnchor seed, .registrySeed _ => (.awaitingAnchor seed, [])
  | .running kernelState, .registrySeed _ => (.running kernelState, [])
  | .running kernelState, .kernel event =>
    let (next, effects) := Kernel.transition servedChain kernelState event
    (.running next, kernelEffects effects)
  | .running kernelState, .finalizedHeader (some anchor) =>
    let (next, effects) := Kernel.transition servedChain kernelState
      (.finalizedBlockObserved anchor.hash anchor.number)
    (.running next, kernelEffects effects)
  | .running kernelState, .finalizedHeader none => (.running kernelState, [])
  | .running kernelState, .tick order =>
    let (next, effects) := Kernel.transition servedChain kernelState (.tick order)
    (.running next, kernelEffects effects ++ [.fetchFinalizedHeader])

/-! ### Reached states -/

/-- The states of any run of the server. -/
def Reached [BloomHash] : ServerState → Prop :=
  Reachable serverTransition (· = serverInit.1) (fun _ _ => True)

/-- A running server's kernel is one that the kernel's own events reach. -/
def ServerState.KernelReached [BloomHash] : ServerState → Prop
  | .running kernelState => Kernel.Reached servedChain kernelState
  | _ => True

theorem kernelReached_transition [BloomHash] {state : ServerState} (input : ServerInput)
    (held : state.KernelReached) : (serverTransition state input).1.KernelReached := by
  cases state with
  | awaitingSeed => cases input <;> trivial
  | awaitingAnchor seed =>
    cases input with
    | finalizedHeader anchor =>
      cases anchor with
      | none => trivial
      | some anchor =>
        have starts := Kernel.Starts.activateFromSeed anchor.hash anchor.number ∅
          seed.poolRegistry seed.tokenRegistry []
        exact .init ⟨_, starts⟩
    | _ => trivial
  | running kernelState =>
    have reached : Kernel.Reached servedChain kernelState := held
    have next : ∀ event, Kernel.Reached servedChain
        (Kernel.transition servedChain kernelState event).1 := fun _ => .step reached trivial
    cases input with
    | registrySeed seed => exact reached
    | finalizedHeader anchor =>
      cases anchor with
      | none => exact reached
      | some anchor => exact next (.finalizedBlockObserved anchor.hash anchor.number)
    | kernel event => exact next event
    | tick order => exact next (.tick order)

theorem Reached.kernel [BloomHash] {kernelState : Kernel.State}
    (reached : Reached (.running kernelState)) : Kernel.Reached servedChain kernelState := by
  refine Reachable.invariant ServerState.KernelReached reached ?_
    (fun _ input _ held _ => kernelReached_transition input held)
  rintro state rfl
  trivial

theorem Reached.next [BloomHash] {state : ServerState} (reached : Reached state)
    (input : ServerInput) : Reached (serverTransition state input).1 :=
  Reachable.step reached trivial

/-- A server that has its seed and its anchor runs. -/
theorem Reached.activated [BloomHash] (seed : RegistrySeed) (anchor : AnchorHeader) :
    Reached (.running (Kernel.State.activateFromSeed anchor.hash anchor.number ∅
      seed.poolRegistry seed.tokenRegistry []).1) := by
  have start : Reached serverInit.1 := .init rfl
  exact (start.next (.registrySeed seed)).next (.finalizedHeader (some anchor))

/-- A running server takes any events to its kernel. -/
theorem Reached.kernelRun [BloomHash] {kernelState : Kernel.State}
    (reached : Reached (.running kernelState)) (events : List Kernel.Event) :
    Reached (.running (run (Kernel.transition servedChain) kernelState events).1) := by
  induction events generalizing kernelState with
  | nil => exact reached
  | cons event events inductionHypothesis =>
    exact inductionHypothesis (reached.next (.kernel event))

end ArmchairAnalyst.Server

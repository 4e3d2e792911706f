import ArmchairAnalyst.Library.TransitionSystem
import ArmchairAnalyst.Kernel.StepProofs

/-!
# Request identifiers over a run

Answers are matched with requests by identifier alone. The sequence of one state
hands out every identifier once, and a re-initialisation starts a new sequence.
-/

namespace ArmchairAnalyst.Kernel

open RequestStore (Evolves idsAfter idsAfter_nodup)

/-- The two ways in which the kernel of a chain starts, with the requests issued at once. -/
inductive Starts : State × List Effect → Prop
  | init (finalizedHash : BlockHash) (finalizedNumber : UInt64) :
    Starts (State.init finalizedHash finalizedNumber, [])
  | activateFromSeed (finalizedHash : BlockHash) (finalizedNumber : UInt64)
      (finalizedPoolSnapshots : HashMap PoolRef PoolState) (poolRegistry : TrustedPoolRegistry)
      (tokenRegistry : TokenRegistry) (seedBlocks : List SeedBlock) :
    Starts (State.activateFromSeed finalizedHash finalizedNumber finalizedPoolSnapshots
      poolRegistry tokenRegistry seedBlocks)

/-- The state after a list of events, with every request issued since the start. -/
def runFrom [BloomHash] (chain : ChainKey) (start : State × List Effect) (events : List Event) :
    State × List Effect :=
  let (state, effects) := run (transition chain) start.1 events
  (state, start.2 ++ effects)

/-- The kernel is only restarted before it has issued a request. -/
def KeepsSequence (state : State) (event : Event) : Prop :=
  Reinitialises state event → state.pendingRequests.lastRequestId = 0

instance (state : State) (event : Event) : Decidable (KeepsSequence state event) := by
  unfold KeepsSequence
  infer_instance

/-- The state of an activation before its missing headers are asked for. -/
def activated (finalizedHash : BlockHash) (finalizedNumber : UInt64)
    (finalizedPoolSnapshots : HashMap PoolRef PoolState) (poolRegistry : TrustedPoolRegistry)
    (tokenRegistry : TokenRegistry) (seedBlocks : List SeedBlock) : State where
  pendingRequests := RequestStore.new
  poolRegistry := poolRegistry
  tokenRegistry := tokenRegistry
  tick := Tick.initial
  streamedLogs := ∅
  blocks :=
    { graph := BlocksGraph.fromSeed finalizedHash finalizedNumber seedBlocks
      finalizedSnapshot := finalizedPoolSnapshots }
  wsMissCount := 0

theorem activation_issues (chain : ChainKey) (finalizedHash : BlockHash)
    (finalizedNumber : UInt64) (finalizedPoolSnapshots : HashMap PoolRef PoolState)
    (poolRegistry : TrustedPoolRegistry) (tokenRegistry : TokenRegistry)
    (seedBlocks : List SeedBlock) :
    Issues
      (Scheduled chain (activated finalizedHash finalizedNumber finalizedPoolSnapshots poolRegistry
        tokenRegistry seedBlocks))
      (activated finalizedHash finalizedNumber finalizedPoolSnapshots poolRegistry tokenRegistry
        seedBlocks, [])
      (State.activateFromSeed finalizedHash finalizedNumber finalizedPoolSnapshots poolRegistry
        tokenRegistry seedBlocks) :=
  Issues.foldl (fun hash missing output => Issues.request output .blockHeader ⟨hash⟩ missing) _

/-- A start issues the first identifiers of a new sequence. -/
theorem Starts.evolves {start : State × List Effect} (starts : Starts start) :
    Evolves RequestStore.new start.2 start.1.pendingRequests := by
  cases starts with
  | init hash number => exact Evolves.refl _
  | activateFromSeed hash number snapshots pools tokens blocks =>
    obtain ⟨issued, effects, evolves, -⟩ :=
      (activation_issues .ethereum hash number snapshots pools tokens blocks).issued
    rw [effects, List.nil_append]
    exact evolves

/-- A step continues the sequence, or restarts one that is still at its beginning. -/
theorem transition_evolves [BloomHash] (chain : ChainKey) {state : State} {event : Event}
    (keeps : KeepsSequence state event) :
    Evolves state.pendingRequests (transition chain state event).2
      (transition chain state event).1.pendingRequests := by
  by_cases restarts : Reinitialises state event
  · cases event with
    | canonicalHeaderAtHeightReceived id hash number =>
      rw [transition_reinitialises chain state id restarts]
      exact ⟨by simp [State.init, RequestStore.new, keeps restarts], rfl,
        fun request inFlight => absurd inFlight (RequestStore.not_inFlight_new request)⟩
    | _ => exact absurd restarts id
  · exact (transition_continues chain state event restarts).evolves

theorem run_evolves [BloomHash] (chain : ChainKey) (state : State) (events : List Event)
    (keeps : AllowedAlong (transition chain) KeepsSequence state events) :
    Evolves state.pendingRequests (run (transition chain) state events).2
      (run (transition chain) state events).1.pendingRequests := by
  induction events generalizing state with
  | nil => exact Evolves.refl _
  | cons event events inductionHypothesis =>
    exact (transition_evolves chain keeps.1).trans (inductionHypothesis _ keeps.2)

/-- Within one sequence the issued requests have distinct identifiers, and an answer
to one of them finds that very request or none. -/
theorem issued_requests_distinguished [BloomHash] (chain : ChainKey)
    {start : State × List Effect} (starts : Starts start) (events : List Event)
    (keeps : AllowedAlong (transition chain) KeepsSequence start.1 events)
    (bounded : (runFrom chain start events).2.length < 2 ^ 64) :
    ((runFrom chain start events).2.map (·.requestId)).Nodup ∧
      ∀ request ∈ (runFrom chain start events).2, ∀ pending,
        (runFrom chain start events).1.pendingRequests.InFlight pending →
        pending.requestId = request.requestId → pending = request := by
  have evolves : Evolves RequestStore.new (runFrom chain start events).2
      (runFrom chain start events).1.pendingRequests :=
    starts.evolves.trans (run_evolves chain start.1 events keeps)
  have distinct : ((runFrom chain start events).2.map (·.requestId)).Nodup := by
    rw [evolves.ids]
    exact idsAfter_nodup _ bounded
  refine ⟨distinct, fun request membership pending inFlight same => ?_⟩
  have issued : pending ∈ (runFrom chain start events).2 :=
    (evolves.inFlight pending inFlight).resolve_right (RequestStore.not_inFlight_new pending)
  exact List.inj_on_of_nodup_map distinct issued membership same

/-- A head whose parent is missing right above the anchor. -/
def orphanHead (hash parentHash : BlockHash) : Event := .headObserved hash parentHash 0 101

/-- A head two blocks above the anchor, and the header of its parent, whose own is missing. -/
def answeredHeader : List Event :=
  [.headObserved 0x13 0x12 0 103, .blockHeaderReceived 1 0x12 0x11 0 102]

theorem issued_requests_distinguished_answeredHeader :
    letI : BloomHash := BloomHash.tabulated
    (runFrom .ethereum (State.init 0x10 100, []) answeredHeader).2.map (·.requestId) = [1, 2] ∧
      ((runFrom .ethereum (State.init 0x10 100, []) answeredHeader).2.map (·.requestId)).Nodup ∧
      ∀ request ∈ (runFrom .ethereum (State.init 0x10 100, []) answeredHeader).2, ∀ pending,
        (runFrom .ethereum (State.init 0x10 100, []) answeredHeader).1.pendingRequests.InFlight
          pending →
        pending.requestId = request.requestId → pending = request := by
  let _ : BloomHash := BloomHash.tabulated
  refine ⟨by decide +kernel, ?_⟩
  apply @issued_requests_distinguished BloomHash.tabulated .ethereum _ (.init 0x10 100) answeredHeader
  · decide +kernel
  · decide +kernel

/-- The anchor is proven orphaned while two requests are on the wire, and the next
head is asked for under the identifiers of these. -/
theorem reinitialisation_repeats_identifiers :
    letI : BloomHash := BloomHash.tabulated
    let issued := (runFrom .ethereum (State.init 0x10 100, [])
      [orphanHead 0x30 0x20, .canonicalHeaderAtHeightReceived 2 0x11 100,
        orphanHead 0x31 0x21]).2
    issued.length < 2 ^ 64 ∧ ¬ (issued.map (·.requestId)).Nodup := by
  decide +kernel

end ArmchairAnalyst.Kernel

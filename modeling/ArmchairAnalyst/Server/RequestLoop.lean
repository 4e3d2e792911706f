import ArmchairAnalyst.Kernel.Execution
import ArmchairAnalyst.Kernel.RequestIds
import ArmchairAnalyst.Library.EffectLoop
import ArmchairAnalyst.Server.PoolsMeta

/-!
# The server and its workers

The effects of the server are executed on a pool of workers while new heads and ticks come
in. In every order of their steps what the server waits for is on its way, and nothing
arrives that the server would have to drop.
-/

namespace ArmchairAnalyst.Server

open Client (ClientEvmError)
open RequestStore (Evolves)

/-! ### Execution -/

/-- What the effects of the server are executed with. -/
structure ServerReads where
  fetchers : Kernel.Fetchers
  fetchFinalizedBlockHeader : Except ClientEvmError (Option ClientHead)
  cachedPools : HashMap ProtocolPoolKey PoolMetadata
  cachedTokens : HashMap TokenAddress TokenMetadata

def ServerReads.fetchAnchor (reads : ServerReads) : Option AnchorHeader :=
  match reads.fetchFinalizedBlockHeader with
  | .ok (some header) => some { hash := header.hash, number := header.number }
  | .ok none => none
  | .error _ => none

def executeEffect (reads : ServerReads) : ServerEffect → List ServerInput
  | .loadRegistrySeed => [.registrySeed (loadRegistrySeed reads.cachedPools reads.cachedTokens)]
  | .fetchFinalizedHeader => [.finalizedHeader reads.fetchAnchor]
  | .kernel request => [.kernel (Kernel.executeRequestWith reads.fetchers request)]

def Executes (effect : ServerEffect) (inputs : List ServerInput) : Prop :=
  ∃ reads, inputs = executeEffect reads effect

/-- The inputs of the subscriptions: new heads and ticks. -/
inductive Feeds : ServerInput → Prop
  | newHead (hash parentHash : BlockHash) (logsBloom : Bloom) (number : UInt64) :
    Feeds (.kernel (.headObserved hash parentHash logsBloom number))
  | tick (order : IterationOrder) : Feeds (.tick order)

variable [BloomHash]

/-- The loops that the server reaches, with the inputs it has taken. -/
def LoopReached : List ServerInput → EffectLoop ServerState ServerInput ServerEffect → Prop :=
  EffectLoop.Reached serverTransition Executes Feeds serverInit

/-! ### A sample start -/

def startReads : ServerReads where
  fetchers :=
    { fetchBlockHeader := fun hash => .ok (some ⟨hash, 0x10, 0, 100⟩)
      fetchBlockLogs := fun _ => .ok []
      fetchPoolMetadata := fun _ _ => .ok ∅
      fetchTokenMetadata := fun _ _ => .ok ∅
      fetchPoolData := fun _ _ => .ok ∅
      fetchLogsRange := fun _ _ => .ok []
      fetchCanonicalHeader := fun _ => .ok none }
  fetchFinalizedBlockHeader := .ok (some ⟨0x10, 0x0F, 0, 100⟩)
  cachedPools := ∅
  cachedTokens := ∅

def seedInput : ServerInput := .registrySeed (loadRegistrySeed ∅ ∅)

def anchorInput : ServerInput := .finalizedHeader (some ⟨0x10, 100⟩)

/-- A head whose parent is missing. -/
def headInput : ServerInput := .kernel (Kernel.orphanHead 0x30 0x20)

theorem loading : LoopReached [] ⟨.awaitingSeed, [], [[]], [seedInput]⟩ := by
  have begun : LoopReached [] ⟨.awaitingSeed, [.loadRegistrySeed], [], []⟩ := .start
  exact EffectLoop.Reached.deliver begun ⟨startReads, rfl⟩

theorem probing :
    LoopReached [seedInput]
      ⟨.awaitingAnchor (loadRegistrySeed ∅ ∅), [.fetchFinalizedHeader], [[]], []⟩ :=
  EffectLoop.Reached.step loading .receive

def startInputs : List ServerInput := [seedInput, anchorInput, headInput]

theorem started : ∃ loop, LoopReached startInputs loop := by
  have anchored :=
    EffectLoop.Reached.step (EffectLoop.Reached.deliver probing ⟨startReads, rfl⟩) .receive
  have fed := EffectLoop.Reached.step anchored (.feed (.newHead 0x30 0x20 0 101))
  exact ⟨_, EffectLoop.Reached.step fed .receive⟩

/-! ### What the server waits for -/

inductive Awaited
  | seed
  | anchor
  | answer (request : Kernel.IssuedRequest)

/-- The effect that brings what is awaited. -/
def Awaited.effect : Awaited → ServerEffect
  | seed => .loadRegistrySeed
  | anchor => .fetchFinalizedHeader
  | answer request => .kernel request

def ServerState.Waits : ServerState → Awaited → Prop
  | .awaitingSeed, .seed => True
  | .awaitingAnchor _, .anchor => True
  | .running kernelState, .answer request => kernelState.pendingRequests.InFlight request
  | _, _ => False

/-- The input is an answer to the effect that brings what is awaited. -/
def Settles (input : ServerInput) (awaited : Awaited) : Prop :=
  ∃ reads, executeEffect reads awaited.effect = [input]

omit [BloomHash] in
theorem settles_answer {input : ServerInput} {request : Kernel.IssuedRequest}
    (settled : Settles input (.answer request)) :
    ∃ event, input = .kernel event ∧
      event.answered? = some ⟨request.kind, request.requestId⟩ := by
  obtain ⟨reads, executed⟩ := settled
  obtain ⟨rfl, -⟩ := List.cons.inj executed
  exact ⟨_, rfl, Kernel.executeRequestWith_answered reads.fetchers request⟩

omit [BloomHash] in
theorem not_settles {input : ServerInput} {awaited : Awaited}
    (other : ∀ reads, executeEffect reads awaited.effect ≠ [input]) : ¬ Settles input awaited := by
  rintro ⟨reads, executed⟩
  exact other reads executed

theorem waits_seed {state : ServerState} {input : ServerInput}
    (waits : (serverTransition state input).1.Waits .seed) :
    state.Waits .seed ∧ ¬ Settles input .seed := by
  cases state with
  | awaitingSeed =>
    cases input with
    | registrySeed seed => exact waits.elim
    | finalizedHeader _ | kernel _ | tick _ =>
      exact ⟨trivial, not_settles (by simp [executeEffect, Awaited.effect])⟩
  | awaitingAnchor seed =>
    cases input with
    | finalizedHeader anchor => cases anchor <;> exact waits.elim
    | registrySeed _ | kernel _ | tick _ => exact waits.elim
  | running kernelState =>
    cases input with
    | finalizedHeader anchor => cases anchor <;> exact waits.elim
    | registrySeed _ | kernel _ | tick _ => exact waits.elim

/-- A probe without a result is followed by the next one. -/
theorem waits_anchor {state : ServerState} {input : ServerInput}
    (waits : (serverTransition state input).1.Waits .anchor) :
    (state.Waits .anchor ∧ ¬ Settles input .anchor) ∨
      .fetchFinalizedHeader ∈ (serverTransition state input).2 := by
  cases state with
  | awaitingSeed =>
    cases input with
    | registrySeed seed => exact .inr List.mem_cons_self
    | finalizedHeader _ | kernel _ | tick _ => exact waits.elim
  | awaitingAnchor seed =>
    cases input with
    | finalizedHeader anchor =>
      cases anchor with
      | none => exact .inr List.mem_cons_self
      | some anchor => exact waits.elim
    | tick order => exact .inr List.mem_cons_self
    | registrySeed _ | kernel _ =>
      exact .inl ⟨trivial, not_settles (by simp [executeEffect, Awaited.effect])⟩
  | running kernelState =>
    cases input with
    | finalizedHeader anchor => cases anchor <;> exact waits.elim
    | registrySeed _ | kernel _ | tick _ => exact waits.elim

theorem waits_answer {state : ServerState} {input : ServerInput} {request : Kernel.IssuedRequest}
    (waits : (serverTransition state input).1.Waits (.answer request)) :
    (state.Waits (.answer request) ∧ ¬ Settles input (.answer request)) ∨
      .kernel request ∈ (serverTransition state input).2 := by
  cases state with
  | awaitingSeed => cases input <;> exact waits.elim
  | awaitingAnchor seed =>
    cases input with
    | finalizedHeader anchor =>
      cases anchor with
      | none => exact waits.elim
      | some anchor =>
        -- The kernel starts without a request of its own.
        have starts := Kernel.Starts.activateFromSeed anchor.hash anchor.number ∅
          seed.poolRegistry seed.tokenRegistry []
        have issued := (starts.evolves.inFlight request waits).resolve_right
          (RequestStore.not_inFlight_new request)
        exact .inr (List.mem_map_of_mem issued)
    | registrySeed _ | kernel _ | tick _ => exact waits.elim
  | running kernelState =>
    cases input with
    | registrySeed seed =>
      exact .inl ⟨waits, not_settles (by simp [executeEffect, Awaited.effect])⟩
    | finalizedHeader anchor =>
      have other : ¬ Settles (.finalizedHeader anchor) (.answer request) :=
        not_settles (by simp [executeEffect, Awaited.effect])
      cases anchor with
      | none => exact .inl ⟨waits, other⟩
      | some anchor =>
        rcases Kernel.transition_settles servedChain kernelState
          (.finalizedBlockObserved anchor.hash anchor.number) waits with before | issued
        · exact .inl ⟨before.1, other⟩
        · exact .inr (List.mem_map_of_mem issued)
    | kernel event =>
      rcases Kernel.transition_settles servedChain kernelState event waits with before | issued
      · refine .inl ⟨before.1, fun settled => ?_⟩
        obtain ⟨event', same, answers⟩ := settles_answer settled
        obtain rfl := ServerInput.kernel.inj same
        exact before.2 answers
      · exact .inr (List.mem_map_of_mem issued)
    | tick order =>
      have other : ¬ Settles (.tick order) (.answer request) :=
        not_settles (by simp [executeEffect, Awaited.effect])
      rcases Kernel.transition_settles servedChain kernelState (.tick order) waits with
        before | issued
      · exact .inl ⟨before.1, other⟩
      · exact .inr (List.mem_append_left _ (List.mem_map_of_mem issued))

theorem server_accounted :
    EffectLoop.Accounted ServerState.Waits (fun effect awaited => effect = awaited.effect) Settles
      serverTransition Executes serverInit where
  start awaited waits := by
    cases awaited with
    | seed => exact ⟨_, List.mem_cons_self, rfl⟩
    | anchor | answer _ => exact waits.elim
  answer effect inputs awaited carried executed := by
    obtain ⟨reads, rfl⟩ := executed
    subst carried
    cases awaited <;> exact ⟨_, List.mem_cons_self, reads, rfl⟩
  step state input awaited waits := by
    cases awaited with
    | seed => exact .inl (waits_seed waits)
    | anchor => exact (waits_anchor waits).imp_right (fun issued => ⟨_, issued, rfl⟩)
    | answer request => exact (waits_answer waits).imp_right (fun issued => ⟨_, issued, rfl⟩)

/-- In every order of steps, the effect that brings what the server waits for is being
executed, or its answer is on the way. -/
theorem awaited_outstanding {taken : List ServerInput}
    {loop : EffectLoop ServerState ServerInput ServerEffect} (reached : LoopReached taken loop)
    {awaited : Awaited} (waits : loop.state.Waits awaited) :
    awaited.effect ∈ loop.executing ∨ ∃ input ∈ loop.queued, Settles input awaited := by
  refine (reached.outstanding server_accounted waits).imp_left ?_
  rintro ⟨effect, executed, rfl⟩
  exact executed

/-- The request for the parent of the sample head. -/
abbrev parentRequest : Kernel.IssuedRequest := ⟨.blockHeader, 1, ⟨0x20⟩⟩

omit [BloomHash] in
theorem awaited_outstanding_started :
    letI : BloomHash := BloomHash.tabulated
    ∃ loop, LoopReached startInputs loop ∧ loop.state.Waits (.answer parentRequest) ∧
      (.kernel parentRequest ∈ loop.executing ∨
        ∃ input ∈ loop.queued, Settles input (.answer parentRequest)) := by
  let _ : BloomHash := BloomHash.tabulated
  obtain ⟨loop, reached⟩ := started
  have waits : loop.state.Waits (.answer parentRequest) := by
    rw [reached.run]
    exact ⟨⟨0⟩, by decide +kernel⟩
  exact ⟨loop, reached, waits, awaited_outstanding reached waits⟩

/-! ### What reaches the server -/

/-- What an effect brings. -/
inductive Tag
  | seed
  | anchor
  | answer (id : Kernel.RequestId)

def ServerEffect.tags : ServerEffect → List Tag
  | .loadRegistrySeed => [.seed]
  | .fetchFinalizedHeader => [.anchor]
  | .kernel request => [.answer ⟨request.kind, request.requestId⟩]

def ServerInput.tags : ServerInput → List Tag
  | .registrySeed _ => [.seed]
  | .finalizedHeader _ => [.anchor]
  | .kernel event => event.answered?.toList.map .answer
  | .tick _ => []

omit [BloomHash] in
theorem server_tagged : EffectLoop.Tagged ServerEffect.tags ServerInput.tags Executes Feeds where
  answer effect inputs executed := by
    obtain ⟨reads, rfl⟩ := executed
    cases effect with
    | kernel request =>
      simp [executeEffect, ServerEffect.tags, ServerInput.tags, Kernel.executeRequestWith_answered]
    | fetchFinalizedHeader | loadRegistrySeed => exact .refl _
  feed input fed := by cases fed <;> rfl

/-- What has been handed out when a state is reached: the seed is loaded once, the probe
comes after it, and requests of the kernel come after the anchor. -/
def Issued : ServerState → List ServerEffect → Prop
  | .awaitingSeed, effects => effects = [.loadRegistrySeed]
  | .awaitingAnchor _, effects => ∃ probes, effects = .loadRegistrySeed :: probes ∧
      ∀ effect ∈ probes, effect = .fetchFinalizedHeader
  | .running _, effects => ∃ later, effects = .loadRegistrySeed :: later ∧
      .loadRegistrySeed ∉ later

omit [BloomHash] in
theorem not_load_kernelEffects (effects : List Kernel.Effect) :
    ServerEffect.loadRegistrySeed ∉ kernelEffects effects := by
  intro listed
  obtain ⟨request, -, other⟩ := List.mem_map.mp listed
  cases other

theorem issued_transition {state : ServerState} {effects : List ServerEffect}
    (issued : Issued state effects) (input : ServerInput) :
    Issued (serverTransition state input).1 (effects ++ (serverTransition state input).2) := by
  cases state with
  | awaitingSeed =>
    obtain rfl : effects = [.loadRegistrySeed] := issued
    cases input with
    | registrySeed seed => exact ⟨[.fetchFinalizedHeader], rfl, by simp⟩
    | finalizedHeader _ | kernel _ | tick _ => rfl
  | awaitingAnchor seed =>
    obtain ⟨probes, rfl, only⟩ := issued
    have again : ∀ effect ∈ probes ++ [.fetchFinalizedHeader], effect = .fetchFinalizedHeader := by
      intro effect listed
      rcases List.mem_append.mp listed with before | now
      · exact only effect before
      · exact List.mem_singleton.mp now
    cases input with
    | finalizedHeader anchor =>
      cases anchor with
      | none => exact ⟨_, rfl, again⟩
      | some anchor =>
        refine ⟨_, rfl, fun loaded => ?_⟩
        rcases List.mem_append.mp loaded with before | now
        · cases only _ before
        · exact not_load_kernelEffects _ now
    | tick order => exact ⟨_, rfl, again⟩
    | registrySeed _ | kernel _ => exact ⟨probes, by simp [serverTransition], only⟩
  | running kernelState =>
    obtain ⟨later, rfl, once⟩ := issued
    have further (now : List Kernel.Effect) : .loadRegistrySeed ∉ later ++ kernelEffects now := by
      rw [List.mem_append, not_or]
      exact ⟨once, not_load_kernelEffects now⟩
    cases input with
    | registrySeed seed => exact ⟨later, by simp [serverTransition], once⟩
    | finalizedHeader anchor =>
      cases anchor with
      | none => exact ⟨later, by simp [serverTransition], once⟩
      | some anchor => exact ⟨_, rfl, further _⟩
    | kernel event => exact ⟨_, rfl, further _⟩
    | tick order =>
      refine ⟨_, rfl, fun loaded => ?_⟩
      rcases List.mem_append.mp loaded with before | now
      · exact once before
      · rcases List.mem_append.mp now with asked | probed
        · exact not_load_kernelEffects _ asked
        · cases List.mem_singleton.mp probed

theorem issued_run (taken : List ServerInput) :
    Issued (run serverTransition serverInit.1 taken).1
      (serverInit.2 ++ (run serverTransition serverInit.1 taken).2) := by
  have permitted : AllowedAlong serverTransition (fun _ _ => True) serverInit.1 taken :=
    .of_events (fun _ _ _ => trivial) _
  exact permitted.history Issued (fun _ input _ issued _ => issued_transition issued input) rfl

/-- The seed is awaited until it is taken. -/
theorem run_without_seed {taken : List ServerInput} (unseeded : Tag.seed ∉ taken.flatMap ServerInput.tags) :
    (run serverTransition .awaitingSeed taken).1 = .awaitingSeed := by
  induction taken with
  | nil => rfl
  | cons input taken inductionHypothesis =>
    rw [List.flatMap_cons, List.mem_append, not_or] at unseeded
    cases input with
    | registrySeed seed => exact absurd List.mem_cons_self unseeded.1
    | finalizedHeader _ | kernel _ | tick _ => exact inductionHypothesis unseeded.2

/-- The inputs that a state has no use for: a second seed, an anchor before the seed, and
an answer for a kernel that has not started. -/
def Impossible : ServerState → ServerInput → Prop
  | .awaitingSeed, .finalizedHeader _ => True
  | .awaitingSeed, .kernel event => event.answered?.isSome
  | .awaitingAnchor _, .registrySeed _ => True
  | .awaitingAnchor _, .kernel event => event.answered?.isSome
  | .running _, .registrySeed _ => True
  | _, _ => False

def Tag.isSeed : Tag → Bool
  | seed => true
  | anchor | answer _ => false

/-- The seed is on its way to the server only as long as the server waits for it. -/
theorem seed_not_queued {taken : List ServerInput}
    {loop : EffectLoop ServerState ServerInput ServerEffect} (reached : LoopReached taken loop)
    (seeded : loop.state ≠ .awaitingSeed) : Tag.seed ∉ loop.queued.flatMap ServerInput.tags := by
  have here := reached.run
  have issued := issued_run taken
  rw [← here] at issued
  obtain ⟨later, handed, once⟩ : ∃ later,
      serverInit.2 ++ (run serverTransition serverInit.1 taken).2 = .loadRegistrySeed :: later ∧
        .loadRegistrySeed ∉ later := by
    cases state : loop.state with
    | awaitingSeed => exact absurd state seeded
    | awaitingAnchor seed =>
      rw [state] at issued
      obtain ⟨probes, handed, only⟩ := issued
      exact ⟨probes, handed, fun loaded => by cases only _ loaded⟩
    | running kernelState =>
      rw [state] at issued
      exact issued
  have takenSeed : Tag.seed ∈ taken.flatMap ServerInput.tags := by
    by_contra unseeded
    exact seeded (here.trans (run_without_seed unseeded))
  have counts := (reached.conserves server_tagged).countP_eq Tag.isSeed
  have none : (later.flatMap ServerEffect.tags).countP Tag.isSeed = 0 := by
    rw [List.countP_eq_zero]
    intro tag listed
    obtain ⟨effect, member, tagged⟩ := List.mem_flatMap.mp listed
    cases effect with
    | loadRegistrySeed => exact absurd member once
    | kernel _ | fetchFinalizedHeader =>
      obtain rfl := List.mem_singleton.mp tagged
      exact Bool.false_ne_true
  have one : 0 < (taken.flatMap ServerInput.tags).countP Tag.isSeed :=
    List.countP_pos_iff.mpr ⟨_, takenSeed, rfl⟩
  intro queued
  have another : 0 < (loop.queued.flatMap ServerInput.tags).countP Tag.isSeed :=
    List.countP_pos_iff.mpr ⟨_, queued, rfl⟩
  rw [handed, List.flatMap_cons, List.countP_append, List.countP_append, List.countP_append,
    none] at counts
  have first : (ServerEffect.tags .loadRegistrySeed).countP Tag.isSeed = 1 := rfl
  omega

/-- No order of steps brings the server a second seed, an anchor before the seed, or an
answer for a kernel that has not started. -/
theorem nothing_impossible_queued {taken : List ServerInput}
    {loop : EffectLoop ServerState ServerInput ServerEffect} (reached : LoopReached taken loop)
    {input : ServerInput} (queued : input ∈ loop.queued) : ¬ Impossible loop.state input := by
  have handed : ∀ tag ∈ input.tags, ∃ effect ∈ serverInit.2 ++
      (run serverTransition serverInit.1 taken).2, tag ∈ effect.tags := by
    intro tag tagged
    have arrived : tag ∈ loop.queued.flatMap ServerInput.tags :=
      List.mem_flatMap.mpr ⟨input, queued, tagged⟩
    exact List.mem_flatMap.mp ((reached.conserves server_tagged).mem_iff.mpr
      (List.mem_append_left _ (List.mem_append_right _ arrived)))
  have issued := issued_run taken
  rw [← reached.run] at issued
  have seedless (seed : RegistrySeed) (seeded : loop.state ≠ .awaitingSeed) :
      input ≠ .registrySeed seed := by
    rintro rfl
    exact seed_not_queued reached seeded (List.mem_flatMap.mpr ⟨_, queued, List.mem_cons_self⟩)
  intro impossible
  cases state : loop.state with
  | awaitingSeed =>
    rw [state] at issued impossible
    rw [show serverInit.2 ++ _ = [_] from issued] at handed
    cases input with
    | finalizedHeader anchor =>
      obtain ⟨effect, listed, tagged⟩ := handed .anchor List.mem_cons_self
      obtain rfl := List.mem_singleton.mp listed
      cases List.mem_singleton.mp tagged
    | kernel event =>
      obtain ⟨id, answers⟩ := Option.isSome_iff_exists.mp impossible
      obtain ⟨effect, listed, tagged⟩ := handed (.answer id) (by simp [ServerInput.tags, answers])
      obtain rfl := List.mem_singleton.mp listed
      cases List.mem_singleton.mp tagged
    | registrySeed _ | tick _ => exact impossible
  | awaitingAnchor seed =>
    rw [state] at issued impossible
    obtain ⟨probes, all, only⟩ := issued
    rw [all] at handed
    cases input with
    | registrySeed seed => exact seedless seed (by simp [state]) rfl
    | kernel event =>
      obtain ⟨id, answers⟩ := Option.isSome_iff_exists.mp impossible
      obtain ⟨effect, listed, tagged⟩ := handed (.answer id) (by simp [ServerInput.tags, answers])
      rcases List.mem_cons.mp listed with rfl | probe
      · cases List.mem_singleton.mp tagged
      · rw [only effect probe] at tagged
        cases List.mem_singleton.mp tagged
    | finalizedHeader _ | tick _ => exact impossible
  | running kernelState =>
    rw [state] at impossible
    cases input with
    | registrySeed seed => exact seedless seed (by simp [state]) rfl
    | finalizedHeader _ | kernel _ | tick _ => exact impossible

omit [BloomHash] in
theorem nothing_impossible_queued_loading :
    letI : BloomHash := BloomHash.tabulated
    ∃ loop, LoopReached [] loop ∧ seedInput ∈ loop.queued ∧ ¬ Impossible loop.state seedInput := by
  let _ : BloomHash := BloomHash.tabulated
  have queued : seedInput ∈ EffectLoop.queued
      (⟨.awaitingSeed, [], [[]], [seedInput]⟩ : EffectLoop ServerState ServerInput ServerEffect) :=
    List.mem_cons_self
  exact ⟨_, loading, queued, nothing_impossible_queued loading queued⟩

/-! ### Answers -/

def ServerEffect.request? : ServerEffect → Option Kernel.IssuedRequest
  | .kernel request => some request
  | .fetchFinalizedHeader | .loadRegistrySeed => none

def named (requests : List Kernel.IssuedRequest) : List Kernel.RequestId :=
  requests.map (fun request => ⟨request.kind, request.requestId⟩)

def ServerEffect.requests (effect : ServerEffect) : List Kernel.RequestId :=
  named effect.request?.toList

/-- The requests that an input answers. -/
def ServerInput.answers : ServerInput → List Kernel.RequestId
  | .kernel event => event.answered?.toList
  | .registrySeed _ | .finalizedHeader _ | .tick _ => []

/-- The requests of the kernel that a run hands out. -/
def requested (taken : List ServerInput) : List Kernel.IssuedRequest :=
  (run serverTransition serverInit.1 taken).2.filterMap ServerEffect.request?

/-- The kernel is only restarted before it has issued a request. -/
def KeepsSequence : ServerState → ServerInput → Prop
  | .running kernelState, .kernel event => Kernel.KeepsSequence kernelState event
  | _, _ => True

instance : (state : ServerState) → (input : ServerInput) → Decidable (KeepsSequence state input)
  | .running kernelState, .kernel event =>
    inferInstanceAs (Decidable (Kernel.KeepsSequence kernelState event))
  | .running _, .registrySeed _ | .running _, .finalizedHeader _ | .running _, .tick _ => .isTrue trivial
  | .awaitingSeed, _ | .awaitingAnchor _, _ => .isTrue trivial

/-- The requests that have been handed out continue one sequence of identifiers. -/
def Sequenced : ServerState → List ServerEffect → Prop
  | .running kernelState, effects =>
    Evolves RequestStore.new (effects.filterMap ServerEffect.request?) kernelState.pendingRequests
  | _, effects => effects.filterMap ServerEffect.request? = []

omit [BloomHash] in
@[simp] theorem filterMap_kernelEffects (effects : List Kernel.Effect) :
    (kernelEffects effects).filterMap ServerEffect.request? = effects := by
  simp [kernelEffects, List.filterMap_map, Function.comp_def, ServerEffect.request?]

theorem sequenced_transition {state : ServerState} {input : ServerInput}
    {effects : List ServerEffect} (sequenced : Sequenced state effects)
    (keeps : KeepsSequence state input) :
    Sequenced (serverTransition state input).1 (effects ++ (serverTransition state input).2) := by
  cases state with
  | awaitingSeed =>
    have none : effects.filterMap ServerEffect.request? = [] := sequenced
    cases input with
    | registrySeed _ | finalizedHeader _ | kernel _ | tick _ =>
      simp [serverTransition, Sequenced, none, ServerEffect.request?]
  | awaitingAnchor seed =>
    have none : effects.filterMap ServerEffect.request? = [] := sequenced
    cases input with
    | finalizedHeader anchor =>
      cases anchor with
      | none => simp [serverTransition, Sequenced, none, ServerEffect.request?]
      | some anchor =>
        have starts := Kernel.Starts.activateFromSeed anchor.hash anchor.number ∅
          seed.poolRegistry seed.tokenRegistry []
        simp only [serverTransition, Sequenced, List.filterMap_append, none, List.nil_append,
          filterMap_kernelEffects]
        exact starts.evolves
    | registrySeed _ | kernel _ | tick _ =>
      simp [serverTransition, Sequenced, none, ServerEffect.request?]
  | running kernelState =>
    have before : Evolves RequestStore.new (effects.filterMap ServerEffect.request?)
        kernelState.pendingRequests := sequenced
    cases input with
    | registrySeed seed => simpa [serverTransition, Sequenced] using before
    | finalizedHeader anchor =>
      cases anchor with
      | none => simpa [serverTransition, Sequenced] using before
      | some anchor =>
        have keeps : Kernel.KeepsSequence kernelState
            (.finalizedBlockObserved anchor.hash anchor.number) := fun restarts => restarts.elim
        have step := Kernel.transition_evolves servedChain keeps
        simpa [serverTransition, Sequenced] using before.trans step
    | kernel event =>
      have step := Kernel.transition_evolves servedChain keeps
      simpa [serverTransition, Sequenced] using before.trans step
    | tick order =>
      have keeps : Kernel.KeepsSequence kernelState (.tick order) := fun restarts => restarts.elim
      have step := Kernel.transition_evolves servedChain keeps
      simpa [serverTransition, Sequenced, List.filterMap_cons, ServerEffect.request?] using
        before.trans step

/-- The identifiers of all requests of a run, as long as the sequence is not restarted. -/
theorem requested_distinct {taken : List ServerInput}
    (keeps : AllowedAlong serverTransition KeepsSequence serverInit.1 taken)
    (bounded : (requested taken).length < 2 ^ 64) : (named (requested taken)).Nodup := by
  have unasked : Sequenced serverInit.1 serverInit.2 := rfl
  have sequenced := keeps.history Sequenced
    (fun _ _ _ held keeps => sequenced_transition held keeps) unasked
  have same : (serverInit.2 ++ (run serverTransition serverInit.1 taken).2).filterMap
      ServerEffect.request? = requested taken := rfl
  have distinct : ((requested taken).map (·.requestId)).Nodup := by
    cases state : (run serverTransition serverInit.1 taken).1 with
    | running kernelState =>
      rw [state, Sequenced, same] at sequenced
      rw [sequenced.ids]
      exact RequestStore.idsAfter_nodup _ bounded
    | awaitingSeed | awaitingAnchor seed =>
      rw [state] at sequenced
      rw [show requested taken = [] from sequenced]
      exact List.nodup_nil
  refine List.Nodup.of_map AnyRequestId.requestId ?_
  rw [named, List.map_map]
  exact distinct

omit [BloomHash] in
theorem server_answers :
    EffectLoop.Tagged ServerEffect.requests ServerInput.answers Executes Feeds where
  answer effect inputs executed := by
    obtain ⟨reads, rfl⟩ := executed
    cases effect with
    | kernel request =>
      simp [executeEffect, ServerInput.answers, ServerEffect.requests, named,
        ServerEffect.request?, Kernel.executeRequestWith_answered]
    | fetchFinalizedHeader | loadRegistrySeed => exact .refl _
  feed input fed := by cases fed <;> rfl

theorem flatMap_requests (taken : List ServerInput) :
    (serverInit.2 ++ (run serverTransition serverInit.1 taken).2).flatMap ServerEffect.requests =
      named (requested taken) := by
  have load : serverInit.2.flatMap ServerEffect.requests = [] := rfl
  rw [List.flatMap_append, load, List.nil_append, requested]
  generalize (run serverTransition serverInit.1 taken).2 = effects
  induction effects with
  | nil => rfl
  | cons effect effects inductionHypothesis =>
    rw [List.flatMap_cons, List.filterMap_cons]
    cases requests : effect.request? with
    | none =>
      simpa [ServerEffect.requests, requests, named] using inductionHypothesis
    | some request =>
      simpa [ServerEffect.requests, requests, named] using inductionHypothesis

/-- In every order of steps each request of the kernel is exactly once being executed, on
its way back or taken: none is lost and none is answered twice. -/
theorem answered_once {taken : List ServerInput}
    {loop : EffectLoop ServerState ServerInput ServerEffect} (reached : LoopReached taken loop)
    (keeps : AllowedAlong serverTransition KeepsSequence serverInit.1 taken)
    (bounded : (requested taken).length < 2 ^ 64) :
    (named (requested taken)).Perm
        (loop.executing.flatMap ServerEffect.requests ++
          loop.queued.flatMap ServerInput.answers ++ taken.flatMap ServerInput.answers) ∧
      (loop.executing.flatMap ServerEffect.requests ++
        loop.queued.flatMap ServerInput.answers ++ taken.flatMap ServerInput.answers).Nodup := by
  have conserved := reached.conserves server_answers
  rw [flatMap_requests] at conserved
  exact ⟨conserved, conserved.nodup_iff.mp (requested_distinct keeps bounded)⟩

omit [BloomHash] in
theorem answered_once_started :
    letI : BloomHash := BloomHash.tabulated
    (requested startInputs).length = 2 ∧
      ∃ loop, LoopReached startInputs loop ∧
        (loop.executing.flatMap ServerEffect.requests ++
          loop.queued.flatMap ServerInput.answers ++
          startInputs.flatMap ServerInput.answers).Nodup := by
  let _ : BloomHash := BloomHash.tabulated
  obtain ⟨loop, reached⟩ := started
  exact ⟨by decide +kernel, loop, reached,
    (answered_once reached (by decide +kernel) (by decide +kernel)).2⟩

end ArmchairAnalyst.Server

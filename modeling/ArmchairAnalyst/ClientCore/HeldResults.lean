import ArmchairAnalyst.ClientCore.Runtime
import ArmchairAnalyst.ClientCore.SafeHistory

/-!
# Held results

The engine holds the last step and its plan. They belong to the route in force as long
as no step of another route's session is delivered while the engine is optimizing.
-/

namespace ArmchairAnalyst.ClientCore

open Wire Optimization

variable [ReserveProjection]

/-- The held results: the last step and the plan. -/
abbrev Held := Option OptimizationStepResult × Option ExecutionPlan

def Work.held : Work → Held
  | .awaiting _ => (none, none)
  | .optimizing _ lastStep plan => (lastStep, plan)

def Session.held : Session → Held
  | .noCatalog => (none, none)
  | .ready _ work => work.held

def AppState.optimizing (state : AppState) : Bool :=
  match state.session with
  | .ready _ (.optimizing _ _ _) => true
  | _ => false

/-- An asset pair is the one in force. -/
def SessionConfig.InForce (config : SessionConfig) (sourceAsset outputAsset : TokenAddress) :
    Prop :=
  sourceAsset = config.optimization.sourceAsset ∧ outputAsset = config.optimization.outputAsset

/-- The engine with the session that produced the held step. -/
structure Attributed where
  engine : Engine
  heldFrom : Option (OptimizationSessionConfig TokenAddress)

variable [HexText]

namespace Attributed

/-- The session of a delivered step is recorded when the engine holds the step. -/
def step (attributed : Attributed) (action : Action) : Attributed × List Observation :=
  let (engine, seen) := attributed.engine.step action
  let heldFrom :=
    match action, attributed.engine.queue with
    | .deliver, { session, event := .optimizerStepped _ _ } :: _ =>
      if attributed.engine.app.optimizing then some session else attributed.heldFrom
    | _, _ => attributed.heldFrom
  ({ engine, heldFrom := if engine.app.session.held.1.isSome then heldFrom else none }, seen)

def init (config : SessionConfig) : Attributed := { engine := .init config, heldFrom := none }

theorem step_engine (attributed : Attributed) (action : Action) :
    (attributed.step action).1.engine = (attributed.engine.step action).1 := rfl

/-- The held results belong to the route in force. -/
def Fits (attributed : Attributed) : Prop :=
  let app := attributed.engine.app
  (app.session.held.1.isSome → ∃ session, attributed.heldFrom = some session ∧
    app.config.InForce session.sourceAsset session.outputAsset) ∧
  ∀ plan, app.session.held.2 = some plan → app.config.InForce plan.sourceAsset plan.outputAsset

/-- A delivered step that the engine would hold comes from a session for the route in
force. -/
def DeliversInForce (attributed : Attributed) (action : Action) : Prop :=
  let engine := attributed.engine
  action = .deliver → ∀ message rest, engine.queue = message :: rest →
    ∀ result plan, message.event = .optimizerStepped result plan →
      engine.app.optimizing = true →
      engine.app.config.InForce message.session.sourceAsset message.session.outputAsset

end Attributed

/-! ### What a step holds -/

omit [HexText] in
theorem Session.held_withCatalog (session : Session) (catalog : Catalog) :
    (session.withCatalog catalog).held = session.held := by
  cases session <;> rfl

omit [HexText] in
theorem Session.held_bootstrapping (session : Session) : session.bootstrapping.held = (none, none) := by
  cases session <;> rfl

omit [HexText] in
theorem Work.held_refreshed (work : Work) (provenance : SliceProvenance) :
    (work.refreshed provenance).held = work.held := by
  cases work <;> rfl

omit [HexText] in
theorem Work.held_unproductive (work : Work) : work.unproductive.held = work.held := by
  cases work <;> rfl

omit [HexText] in
theorem onStep_held (state : AppState) (result : OptimizationStepResult)
    (plan : Option ExecutionPlan) :
    (onStep state result plan).session.held =
      if state.optimizing then (some result, plan) else state.session.held := by
  unfold onStep AppState.optimizing
  cases state.session with
  | noCatalog => rfl
  | ready catalog work => cases work <;> rfl

theorem onSlice_held (state : AppState) (slice : SliceResponse) :
    (onSlice state slice).1.config = state.config ∧
      (onSlice state slice).1.session.held = state.session.held := by
  unfold onSlice
  cases ready : state.session with
  | noCatalog => exact ⟨rfl, congrArg _ ready⟩
  | ready catalog work =>
    dsimp only
    split
    · exact ⟨rfl, rfl⟩
    · split
      · exact ⟨rfl, rfl⟩
      · split
        · exact ⟨rfl, work.held_refreshed _⟩
        · exact ⟨rfl, work.held_unproductive⟩

/-- An event other than a step keeps what is held with its route, or holds nothing. -/
theorem transition_held {state : AppState} {event : Event}
    (other : ∀ result plan, event ≠ .optimizerStepped result plan) :
    ((transition state event).1.config = state.config ∧
      (transition state event).1.session.held = state.session.held) ∨
    (transition state event).1.session.held = (none, none) := by
  cases event with
  | tick =>
    obtain ⟨pending, result⟩ := onTick_state state
    have folded : (transition state .tick).1 = { state with pending } := result
    rw [folded]
    exact .inl ⟨rfl, rfl⟩
  | metaFetched id response =>
    simp only [transition]
    split
    · obtain ⟨pending, result⟩ := onMeta_state { state with pending := _ } response
      rw [result]
      exact .inl ⟨rfl, Session.held_withCatalog _ _⟩
    · exact .inl ⟨rfl, rfl⟩
  | sliceFetched id slice =>
    simp only [transition]
    split
    · exact .inl (onSlice_held { state with pending := _ } slice)
    · exact .inl ⟨rfl, rfl⟩
  | healthFetched _ _ | fetchFailed _ _ _ =>
    simp only [transition]
    split <;> exact .inl ⟨rfl, rfl⟩
  | optimizerStepped result plan => exact absurd rfl (other result plan)
  | effectFailed error => exact .inl ⟨rfl, rfl⟩
  | setRoute route =>
    simp only [transition, onSetRoute]
    split
    · exact .inl ⟨rfl, rfl⟩
    · exact .inr (Session.held_bootstrapping _)

namespace Attributed

/-- What an action does to the held results. -/
inductive Credits (attributed : Attributed) (action : Action) (next : Attributed) : Prop
  | credited (message : Message) (rest : List Message) (result : OptimizationStepResult)
      (plan : Option ExecutionPlan) : action = .deliver →
      attributed.engine.queue = message :: rest →
      message.event = .optimizerStepped result plan → attributed.engine.app.optimizing = true →
      next.engine.app.config = attributed.engine.app.config →
      next.engine.app.session.held = (some result, plan) →
      next.heldFrom = some message.session → Credits attributed action next
  | kept : (action = .deliver → ∀ message rest, attributed.engine.queue = message :: rest →
        ∀ result plan, message.event = .optimizerStepped result plan →
        attributed.engine.app.optimizing ≠ true) →
      (next.engine.app.config = attributed.engine.app.config ∧
        next.engine.app.session.held = attributed.engine.app.session.held ∧
        (next.engine.app.session.held.1.isSome → next.heldFrom = attributed.heldFrom)) ∨
        next.engine.app.session.held = (none, none) →
      Credits attributed action next

/-- An action that leaves the reducer alone keeps what is held. -/
theorem credits_of_same {attributed : Attributed} {action : Action}
    (other : action ≠ .deliver)
    (same : (attributed.engine.step action).1.app = attributed.engine.app) :
    Credits attributed action (attributed.step action).1 := by
  have app : (attributed.step action).1.engine.app = attributed.engine.app := same
  refine .kept (fun delivers => absurd delivers other) (.inl ⟨by rw [app], by rw [app], ?_⟩)
  intro held
  rw [step_engine] at held
  simp only [step, if_pos held]
  cases action with
  | deliver => exact absurd rfl other
  | input _ | execute _ | take | finish _ => rfl

theorem step_credits (attributed : Attributed) (action : Action) :
    Credits attributed action (attributed.step action).1 := by
  cases action with
  | input event =>
    cases worker : event.fromWorker with
    | true =>
      apply credits_of_same (by rintro ⟨⟩)
      simp only [Engine.step, worker, if_true]
    | false =>
      have reduced : (attributed.engine.step (.input event)).1.app =
          (transition attributed.engine.app event).1 := by
        simp only [Engine.step, worker]
        rfl
      have other : ∀ result plan, event ≠ .optimizerStepped result plan := by
        rintro result plan rfl
        cases worker
      refine .kept (by rintro ⟨⟩) ?_
      rw [step_engine, reduced]
      rcases transition_held other with ⟨config, held⟩ | cleared
      · refine .inl ⟨config, held, ?_⟩
        intro holds
        rw [← reduced] at holds
        simp only [step, if_pos holds]
      · exact .inr cleared
  | execute number =>
    apply credits_of_same (by rintro ⟨⟩)
    simp only [Engine.step]
    split <;> rfl
  | take =>
    apply credits_of_same (by rintro ⟨⟩)
    simp only [Engine.step]
    split <;> rfl
  | finish outcome =>
    apply credits_of_same (by rintro ⟨⟩)
    rfl
  | deliver =>
    cases queued : attributed.engine.queue with
    | nil =>
      have same : (attributed.engine.step .deliver).1 = attributed.engine := by
        simp only [Engine.step, queued]
      refine .kept (fun _ _ _ some => by rw [queued] at some; cases some) (.inl ?_)
      rw [step_engine, same]
      refine ⟨rfl, rfl, fun held => ?_⟩
      have next : (attributed.engine.step .deliver).1.app.session.held.1.isSome := by rwa [same]
      simp only [step, if_pos next, queued]
    | cons message rest =>
      obtain ⟨session, event⟩ := message
      have reduced : (attributed.engine.step .deliver).1.app =
          (transition attributed.engine.app event).1 := by
        simp only [Engine.step, queued]
        rfl
      by_cases stepped : ∃ result plan, event = .optimizerStepped result plan
      · obtain ⟨result, plan, rfl⟩ := stepped
        have folded : (attributed.engine.step .deliver).1.app =
            onStep attributed.engine.app result plan := reduced
        have holds := onStep_held attributed.engine.app result plan
        by_cases optimizing : attributed.engine.app.optimizing = true
        · rw [if_pos optimizing, ← folded] at holds
          refine .credited _ rest result plan rfl queued rfl optimizing ?_ holds ?_
          · rw [step_engine, folded]
            rfl
          · simp only [step, queued, holds, Option.isSome_some, if_true, optimizing]
        · rw [if_neg optimizing, ← folded] at holds
          refine .kept (fun _ _ _ _ _ _ _ => optimizing) (.inl ⟨?_, holds, fun held => ?_⟩)
          · rw [step_engine, folded]
            rfl
          · rw [step_engine] at held
            simp only [step, queued, if_pos held, if_neg optimizing]
      · have other : ∀ result plan, event ≠ .optimizerStepped result plan :=
          fun result plan same => stepped ⟨result, plan, same⟩
        apply Credits.kept
        · intro _ message' rest' same result plan named
          rw [queued] at same
          cases same
          exact absurd named (other result plan)
        · rw [step_engine, reduced]
          rcases transition_held other with ⟨config, held⟩ | cleared
          · refine .inl ⟨config, held, fun holds => ?_⟩
            rw [← reduced] at holds
            simp only [step, queued, if_pos holds]
            cases event with
            | optimizerStepped result plan => exact absurd rfl (other result plan)
            | metaFetched _ _ | sliceFetched _ _ | healthFetched _ _ | fetchFailed _ _ _
            | effectFailed _ | tick | setRoute _ => rfl
          · exact .inr cleared

/-! ### The invariant -/

/-- Plans are for the assets of the session that produced them. -/
structure Consistent (attributed : Attributed) : Prop where
  held : attributed.engine.app.session.held.1.isSome → attributed.heldFrom.isSome
  planned : ∀ plan, attributed.engine.app.session.held.2 = some plan →
    attributed.engine.app.session.held.1.isSome ∧ ∃ session, attributed.heldFrom = some session ∧
      plan.sourceAsset = session.sourceAsset ∧ plan.outputAsset = session.outputAsset
  queued : ∀ message ∈ attributed.engine.queue, ∀ result plan,
    message.event = .optimizerStepped result (some plan) →
      plan.sourceAsset = message.session.sourceAsset ∧
        plan.outputAsset = message.session.outputAsset

theorem mem_step_queue {engine : Engine} {action : Action} {message : Message}
    (listed : message ∈ (engine.step action).1.queue) :
    message ∈ engine.queue ∨ ∃ outcome, message ∈ (engine.worker.finish outcome).2 := by
  cases action with
  | input event =>
    simp only [Engine.step] at listed
    split at listed <;> exact .inl listed
  | execute number =>
    simp only [Engine.step] at listed
    split at listed <;> exact .inl listed
  | take =>
    simp only [Engine.step] at listed
    split at listed <;> exact .inl listed
  | finish outcome =>
    rcases List.mem_append.mp listed with earlier | last
    · exact .inl earlier
    · exact .inr ⟨outcome, last⟩
  | deliver =>
    cases queued : engine.queue with
    | nil =>
      simp only [Engine.step, queued] at listed
      cases listed
    | cons first rest =>
      simp only [Engine.step, queued] at listed
      exact .inl (List.mem_cons_of_mem _ listed)

omit [HexText] in
/-- The worker's plans are for the assets of its own session. -/
theorem finish_plans {worker : Worker} {outcome : Outcome} {message : Message}
    (listed : message ∈ (worker.finish outcome).2) {result : OptimizationStepResult}
    {plan : ExecutionPlan} (named : message.event = .optimizerStepped result (some plan)) :
    plan.sourceAsset = message.session.sourceAsset ∧
      plan.outputAsset = message.session.outputAsset := by
  have ofStep : ∀ session result' steps, message = stepMessage session result' steps →
      plan.sourceAsset = message.session.sourceAsset ∧
        plan.outputAsset = message.session.outputAsset := by
    rintro session result' steps rfl
    obtain ⟨-, planned⟩ := Event.optimizerStepped.inj named
    obtain ⟨route, -, rfl⟩ := Option.map_eq_some_iff.mp planned
    exact ⟨rfl, rfl⟩
  have ofFailure : ∀ session stage text, message ≠ failMessage session stage text := by
    rintro session stage text rfl
    cases named
  cases worker <;> cases outcome <;>
    simp only [Worker.finish, List.mem_singleton, List.not_mem_nil] at listed
  all_goals first
    | exact ofStep _ _ _ listed
    | exact absurd listed (ofFailure _ _ _)

theorem step_consistent {attributed : Attributed} (consistent : attributed.Consistent)
    (action : Action) : (attributed.step action).1.Consistent := by
  refine ⟨?_, ?_, ?_⟩
  · intro holds
    cases step_credits attributed action with
    | credited _ _ _ _ _ _ _ _ _ _ heldFrom => rw [heldFrom]; rfl
    | kept _ outcome =>
      rcases outcome with ⟨_, same, heldFrom⟩ | cleared
      · rw [heldFrom holds]
        rw [same] at holds
        exact consistent.held holds
      · rw [cleared] at holds
        cases holds
  · intro plan holds
    cases step_credits attributed action with
    | credited message rest result' plan' _ queued named _ _ held heldFrom =>
      rw [held] at holds ⊢
      cases holds
      exact ⟨rfl, message.session, heldFrom,
        consistent.queued message (by simp [queued]) result' plan named⟩
    | kept _ outcome =>
      rcases outcome with ⟨_, same, heldFrom⟩ | cleared
      · rw [same] at holds
        obtain ⟨stepped, session, produced, assets⟩ := consistent.planned plan holds
        rw [← same] at stepped
        exact ⟨stepped, session, (heldFrom stepped).trans produced, assets⟩
      · rw [cleared] at holds
        cases holds
  · intro message listed result plan named
    rcases mem_step_queue listed with earlier | ⟨outcome, fresh⟩
    · exact consistent.queued message earlier result plan named
    · exact finish_plans fresh named

/-- From fitting results, a step leads to fitting results exactly when it delivers for the
route in force. -/
theorem step_fits_iff {attributed : Attributed} (consistent : attributed.Consistent)
    (fits : attributed.Fits) (action : Action) :
    (attributed.step action).1.Fits ↔ attributed.DeliversInForce action := by
  cases step_credits attributed action with
  | credited message rest result plan delivers queued named optimizing config held heldFrom =>
    constructor
    · intro fitting _ message' rest' queued' _ _ _ _
      rw [queued] at queued'
      cases queued'
      obtain ⟨session, produced, inForce⟩ := fitting.1 (by rw [held]; rfl)
      rw [heldFrom] at produced
      cases produced
      rwa [config] at inForce
    · intro allowed
      have inForce := allowed delivers message rest queued result plan named optimizing
      unfold Fits
      dsimp only
      rw [config, held]
      refine ⟨fun _ => ⟨message.session, heldFrom, inForce⟩, ?_⟩
      rintro plan' rfl
      obtain ⟨source, output⟩ := consistent.queued message (by simp [queued]) result plan' named
      exact ⟨source.trans inForce.1, output.trans inForce.2⟩
  | kept uncredited outcome =>
    constructor
    · intro _ delivers message rest queued result plan named optimizing
      exact absurd optimizing (uncredited delivers message rest queued result plan named)
    · intro _
      unfold Fits
      dsimp only
      rcases outcome with ⟨config, same, heldFrom⟩ | cleared
      · rw [config, same]
        refine ⟨fun holds => ?_, fits.2⟩
        rw [heldFrom (by rw [same]; exact holds)]
        exact fits.1 holds
      · rw [cleared]
        exact ⟨by rintro ⟨⟩, by rintro _ ⟨⟩⟩

/-! ### Over runs -/

theorem init_holds_nothing (config : SessionConfig) :
    (init config).engine.app.session.held = (none, none) := by
  obtain ⟨pending, result⟩ := onTick_state (.started config)
  have folded : (init config).engine.app = { AppState.started config with pending } := result
  rw [folded]
  rfl

theorem init_consistent (config : SessionConfig) : (init config).Consistent := by
  refine ⟨?_, ?_, by rintro message ⟨⟩⟩ <;> rw [init_holds_nothing]
  · rintro ⟨⟩
  · rintro plan ⟨⟩

theorem init_fits (config : SessionConfig) : (init config).Fits := by
  unfold Fits
  dsimp only
  rw [init_holds_nothing]
  exact ⟨by rintro ⟨⟩, by rintro _ ⟨⟩⟩

theorem run_consistent (config : SessionConfig) (actions : List Action) :
    (run step (.init config) actions).1.Consistent := by
  have permitted : AllowedAlong step (fun _ _ => True) (.init config) actions :=
    .of_events (fun _ _ _ => trivial) _
  exact (permitted.outputs Consistent (fun _ => True)
    (fun _ action consistent _ => ⟨step_consistent consistent action, fun _ _ => trivial⟩)
    (init_consistent config)).1

/-- The results that are held belong to the route in force throughout a run exactly when
every step that is delivered while optimizing comes from a session for it. -/
theorem heldResults_fit_iff (config : SessionConfig) (actions : List Action) :
    (∀ taken, taken <+: actions → (run step (.init config) taken).1.Fits) ↔
      AllowedAlong step DeliversInForce (.init config) actions := by
  rw [← AllowedAlong.iff_never_left (fun attributed => attributed.Consistent ∧ attributed.Fits)]
  · apply forall₂_congr
    intro taken _
    exact (and_iff_right (run_consistent config taken)).symm
  · intro attributed action holds
    rw [← step_fits_iff holds.1 holds.2 action]
    exact and_iff_right (step_consistent holds.1 action)
  · exact ⟨init_consistent config, init_fits config⟩

/-! ### A step that crosses a retarget -/

/-- A step for the seeded route is delivered after the first slice for the new one. -/
def crossedRetarget (result : OptimizationStepResult) : List Action :=
  [.input (.metaFetched ⟨1⟩ sampleMeta), .input (.sliceFetched ⟨2⟩ sampleSlice), .execute 0, .take,
   .finish (.stepped result (some [])), .input (.setRoute wethRoute), .input .tick,
   .input (.sliceFetched ⟨3⟩ sampleSlice), .deliver]

omit [ReserveProjection] [HexText] in
theorem crossed_step_is_held :
    letI : ReserveProjection := .convertible
    letI : HexText := .decoded
    let result : OptimizationStepResult :=
      { status := .initialized, inputAmount := (), outputAmount := (), profitAmount := ()
        reservesCount := 2, disabledCount := 0, poolSlots := 1, routeEntropy := ()
        effectivePools := (), routedPoolCount := 0, iterationsCompleted := 10 }
    let config := sessionConfigFor defaultRoute
    let final := (run step (.init config) (crossedRetarget result)).1
    final.engine.app.optimizing = true ∧
      final.engine.app.config = config.retarget wethRoute ∧
      final.heldFrom = some config.optimization ∧
      final.engine.app.session.held.2.map (fun plan =>
        (plan.sourceAsset, plan.outputAsset)) =
        some (config.optimization.sourceAsset, config.optimization.outputAsset) ∧
      config.optimization.sourceAsset ≠ final.engine.app.config.optimization.sourceAsset := by
  decide +kernel

end Attributed

end ArmchairAnalyst.ClientCore

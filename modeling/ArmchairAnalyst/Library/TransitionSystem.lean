import Mathlib

/-!
# Runs of a step function

A system takes an event in a state and answers with a new state and outputs. A
predicate on states and events restricts the events that may occur.
-/

namespace ArmchairAnalyst

variable {State Event Output : Type}

/-- The states reached from initial ones when every step is allowed. -/
inductive Reachable (step : State → Event → State × List Output) (initial : State → Prop)
    (allowed : State → Event → Prop) : State → Prop
  | init {state} : initial state → Reachable step initial allowed state
  | step {state event} : Reachable step initial allowed state → allowed state event →
      Reachable step initial allowed (step state event).1

/-- The state after a list of events, with the outputs of all steps in order. -/
def run (step : State → Event → State × List Output) (state : State) :
    List Event → State × List Output
  | [] => (state, [])
  | event :: events =>
    let (next, outputs) := step state event
    let (last, later) := run step next events
    (last, outputs ++ later)

theorem run_append (step : State → Event → State × List Output) (state : State)
    (first second : List Event) :
    run step state (first ++ second) =
      ((run step (run step state first).1 second).1,
        (run step state first).2 ++ (run step (run step state first).1 second).2) := by
  induction first generalizing state with
  | nil => rfl
  | cons event first inductionHypothesis =>
    simp only [List.cons_append, run, inductionHypothesis, List.append_assoc]

/-- A part of the state that takes its own steps, one for each event that concerns it,
takes the run of the events that concern it, and puts out its own outputs. -/
theorem run_part {Part PartEvent : Type} {step : State → Event → State × List Output}
    {partStep : Part → PartEvent → Part × List Output} (part : State → Part) (own : Output → Bool)
    (concerns : Event → Option PartEvent)
    (each : ∀ state event,
      (part (step state event).1, (step state event).2.filter own) =
        (concerns event).elim (part state, []) (partStep (part state)))
    (state : State) (events : List Event) :
    (part (run step state events).1, (run step state events).2.filter own) =
      run partStep (part state) (events.filterMap concerns) := by
  induction events generalizing state with
  | nil => rfl
  | cons event events inductionHypothesis =>
    have now := each state event
    have later := inductionHypothesis (step state event).1
    rw [Prod.mk.injEq] at now later
    rw [run, List.filter_append, later.1, later.2, List.filterMap_cons]
    cases concerned : concerns event with
    | none =>
      rw [concerned] at now
      rw [now.1, now.2]
      rfl
    | some partEvent =>
      rw [concerned] at now
      rw [now.1, now.2]
      rfl

/-- Every event of a list is allowed in the state it meets. -/
def AllowedAlong (step : State → Event → State × List Output)
    (allowed : State → Event → Prop) : State → List Event → Prop
  | _, [] => True
  | state, event :: events =>
    allowed state event ∧ AllowedAlong step allowed (step state event).1 events

instance instDecidableAllowedAlong {step : State → Event → State × List Output}
    {allowed : State → Event → Prop} [∀ state event, Decidable (allowed state event)] :
    (state : State) → (events : List Event) → Decidable (AllowedAlong step allowed state events)
  | _, [] => .isTrue trivial
  | state, event :: events =>
    have : Decidable (AllowedAlong step allowed (step state event).1 events) :=
      instDecidableAllowedAlong _ events
    inferInstanceAs (Decidable (_ ∧ _))

namespace AllowedAlong

variable {step : State → Event → State × List Output} {allowed allowed' : State → Event → Prop}

theorem and {state : State} {events : List Event}
    (permitted : AllowedAlong step allowed state events)
    (permitted' : AllowedAlong step allowed' state events) :
    AllowedAlong step (fun state event => allowed state event ∧ allowed' state event) state
      events := by
  induction events generalizing state with
  | nil => exact trivial
  | cons event events inductionHypothesis =>
    exact ⟨⟨permitted.1, permitted'.1⟩, inductionHypothesis permitted.2 permitted'.2⟩

theorem of_events {events : List Event} (each : ∀ event ∈ events, ∀ state, allowed state event)
    (state : State) : AllowedAlong step allowed state events := by
  induction events generalizing state with
  | nil => exact trivial
  | cons event events inductionHypothesis =>
    exact ⟨each event (by simp) state,
      inductionHypothesis (fun other listed => each other (by simp [listed])) _⟩

theorem outputs (holds : State → Prop) (fine : Output → Prop) {state : State}
    {events : List Event} (permitted : AllowedAlong step allowed state events)
    (each : ∀ state event, holds state → allowed state event →
      holds (step state event).1 ∧ ∀ output ∈ (step state event).2, fine output)
    (start : holds state) :
    holds (run step state events).1 ∧ ∀ output ∈ (run step state events).2, fine output := by
  induction events generalizing state with
  | nil => exact ⟨start, by simp [run]⟩
  | cons event events inductionHypothesis =>
    obtain ⟨next, now⟩ := each state event start permitted.1
    obtain ⟨last, later⟩ := inductionHypothesis permitted.2 next
    refine ⟨last, fun output membership => ?_⟩
    rcases List.mem_append.mp membership with first | rest
    · exact now output first
    · exact later output rest

/-- What holds of a state with the outputs so far, and is kept by allowed steps, holds at
the end of an allowed run. -/
theorem history (holds : State → List Output → Prop) {state : State} {events : List Event}
    (permitted : AllowedAlong step allowed state events)
    (keep : ∀ state event seen, holds state seen → allowed state event →
      holds (step state event).1 (seen ++ (step state event).2))
    {seen : List Output} (start : holds state seen) :
    holds (run step state events).1 (seen ++ (run step state events).2) := by
  induction events generalizing state seen with
  | nil => simpa [run] using start
  | cons event events inductionHypothesis =>
    have next := keep state event seen start permitted.1
    have last := inductionHypothesis permitted.2 next
    rw [List.append_assoc] at last
    exact last

/-- Where the allowed steps are the ones that keep a property, the allowed runs are the
ones that never leave it. -/
theorem iff_never_left (holds : State → Prop) {state : State} {events : List Event}
    (each : ∀ state event, holds state → (holds (step state event).1 ↔ allowed state event))
    (start : holds state) :
    (∀ taken, taken <+: events → holds (run step state taken).1) ↔
      AllowedAlong step allowed state events := by
  induction events generalizing state with
  | nil =>
    refine ⟨fun _ => trivial, fun _ taken isPrefix => ?_⟩
    obtain rfl := List.prefix_nil.mp isPrefix
    exact start
  | cons event events inductionHypothesis =>
    constructor
    · intro throughout
      have next : holds (step state event).1 :=
        throughout [event] (List.cons_prefix_cons.mpr ⟨rfl, List.nil_prefix⟩)
      refine ⟨(each state event start).mp next, (inductionHypothesis next).mp ?_⟩
      exact fun taken isPrefix =>
        throughout (event :: taken) (List.cons_prefix_cons.mpr ⟨rfl, isPrefix⟩)
    · rintro ⟨permitted, later⟩ taken isPrefix
      have next := (each state event start).mpr permitted
      cases taken with
      | nil => exact start
      | cons first taken =>
        obtain ⟨rfl, begins⟩ := List.cons_prefix_cons.mp isPrefix
        exact (inductionHypothesis next).mpr later taken begins

theorem of_append {state : State} {first second : List Event}
    (permitted : AllowedAlong step allowed state (first ++ second)) :
    AllowedAlong step allowed state first := by
  induction first generalizing state with
  | nil => exact trivial
  | cons event first inductionHypothesis =>
    exact ⟨permitted.1, inductionHypothesis permitted.2⟩

theorem append {state : State} {first second : List Event}
    (permitted : AllowedAlong step allowed state first)
    (later : AllowedAlong step allowed (run step state first).1 second) :
    AllowedAlong step allowed state (first ++ second) := by
  induction first generalizing state with
  | nil => exact later
  | cons event first inductionHypothesis =>
    exact ⟨permitted.1, inductionHypothesis permitted.2 later⟩

theorem of_prefix {state : State} {events taken : List Event} {event : Event}
    (permitted : AllowedAlong step allowed state events)
    (begins : taken ++ [event] <+: events) : allowed (run step state taken).1 event := by
  induction taken generalizing state events with
  | nil =>
    obtain ⟨rest, rfl⟩ := begins
    exact permitted.1
  | cons first taken inductionHypothesis =>
    obtain ⟨rest, rfl⟩ := begins
    exact inductionHypothesis permitted.2 ⟨rest, rfl⟩

end AllowedAlong

/-- What the steps of a run add up to. -/
def countAlong (step : State → Event → State × List Output) (count : State → Event → Nat) :
    State → List Event → Nat
  | _, [] => 0
  | state, event :: events =>
    count state event + countAlong step count (step state event).1 events

/-- Where the allowed steps are the ones at which a bounded counter grows by what they count,
as long as it has room for it, the allowed runs with a total below the bound are the ones
along which it is the total. -/
theorem AllowedAlong.iff_counts {step : State → Event → State × List Output}
    {allowed : State → Event → Prop} (value : State → Nat) (count : State → Event → Nat)
    {bound : Nat} (below : ∀ state, value state < bound)
    (each : ∀ state event, value state + count state event < bound →
      (value (step state event).1 = value state + count state event ↔ allowed state event))
    (state : State) (events : List Event) :
    (∀ taken, taken <+: events →
      value (run step state taken).1 = value state + countAlong step count state taken) ↔
      AllowedAlong step allowed state events ∧
        value state + countAlong step count state events < bound := by
  induction events generalizing state with
  | nil =>
    refine ⟨fun _ => ⟨trivial, below state⟩, fun _ taken isPrefix => ?_⟩
    obtain rfl := List.prefix_nil.mp isPrefix
    rfl
  | cons event events inductionHypothesis =>
    have grows : ∀ taken, value (run step state (event :: taken)).1 =
        value (run step (step state event).1 taken).1 := fun _ => rfl
    have adds : ∀ taken, countAlong step count state (event :: taken) =
        count state event + countAlong step count (step state event).1 taken := fun _ => rfl
    constructor
    · intro throughout
      have next : value (step state event).1 = value state + count state event :=
        throughout [event] (List.cons_prefix_cons.mpr ⟨rfl, List.nil_prefix⟩)
      have later : ∀ taken, taken <+: events → value (run step (step state event).1 taken).1 =
          value (step state event).1 + countAlong step count (step state event).1 taken := by
        intro taken isPrefix
        have total := throughout (event :: taken) (List.cons_prefix_cons.mpr ⟨rfl, isPrefix⟩)
        rw [grows, adds] at total
        omega
      obtain ⟨permitted, small⟩ := (inductionHypothesis _).mp later
      have room := below (step state event).1
      refine ⟨⟨(each state event (next ▸ room)).mp next, permitted⟩, ?_⟩
      rw [adds]
      omega
    · rintro ⟨permitted, small⟩ taken isPrefix
      rw [adds] at small
      have next := (each state event (by omega)).mpr permitted.1
      cases taken with
      | nil => rfl
      | cons first taken =>
        obtain ⟨rfl, begins⟩ := List.cons_prefix_cons.mp isPrefix
        have total := (inductionHypothesis _).mpr ⟨permitted.2, by omega⟩ taken begins
        rw [grows, adds]
        omega

/-- What the steps of a run yield, in order. -/
def yieldsAlong {Yield : Type} (step : State → Event → State × List Output)
    (yields : State → Event → List Yield) : State → List Event → List Yield
  | _, [] => []
  | state, event :: events =>
    yields state event ++ yieldsAlong step yields (step state event).1 events

theorem yieldsAlong_append {Yield : Type} (step : State → Event → State × List Output)
    (yields : State → Event → List Yield) (state : State) (first second : List Event) :
    yieldsAlong step yields state (first ++ second) = yieldsAlong step yields state first ++
      yieldsAlong step yields (run step state first).1 second := by
  induction first generalizing state with
  | nil => rfl
  | cons event first inductionHypothesis =>
    simp only [List.cons_append, yieldsAlong, inductionHypothesis, List.append_assoc, run]

theorem AllowedAlong.yields {Yield : Type} {step : State → Event → State × List Output}
    {allowed : State → Event → Prop} {yields : State → Event → List Yield}
    (holds : State → List Yield → Prop) {state : State} {events : List Event}
    (permitted : AllowedAlong step allowed state events)
    (keep : ∀ state event seen, holds state seen → allowed state event →
      holds (step state event).1 (seen ++ yields state event))
    {seen : List Yield} (start : holds state seen) :
    holds (run step state events).1 (seen ++ yieldsAlong step yields state events) := by
  induction events generalizing state seen with
  | nil => simpa [run, yieldsAlong] using start
  | cons event events inductionHypothesis =>
    have last := inductionHypothesis permitted.2 (keep state event seen start permitted.1)
    rw [List.append_assoc] at last
    exact last

theorem exists_of_mem_yieldsAlong {Yield : Type} {step : State → Event → State × List Output}
    {yields : State → Event → List Yield} {state : State} {events : List Event} {yielded : Yield}
    (membership : yielded ∈ yieldsAlong step yields state events) :
    ∃ taken event rest, events = taken ++ event :: rest ∧
      yielded ∈ yields (run step state taken).1 event := by
  induction events generalizing state with
  | nil => simp [yieldsAlong] at membership
  | cons event events inductionHypothesis =>
    rcases List.mem_append.mp membership with now | later
    · exact ⟨[], event, events, rfl, now⟩
    · obtain ⟨taken, next, rest, rfl, there⟩ := inductionHypothesis later
      exact ⟨event :: taken, next, rest, rfl, there⟩

namespace Reachable

variable {step : State → Event → State × List Output} {initial : State → Prop}
  {allowed : State → Event → Prop}

theorem invariant (holds : State → Prop) {state : State}
    (reached : Reachable step initial allowed state)
    (base : ∀ state, initial state → holds state)
    (keep : ∀ state event, Reachable step initial allowed state → holds state →
      allowed state event → holds (step state event).1) : holds state := by
  induction reached with
  | init start => exact base _ start
  | step reached permitted inductionHypothesis =>
    exact keep _ _ reached inductionHypothesis permitted

/-- A list of allowed events leads from a reached state to a reached state. -/
theorem run {state : State} (reached : Reachable step initial allowed state)
    (events : List Event) (permitted : AllowedAlong step allowed state events) :
    Reachable step initial allowed (ArmchairAnalyst.run step state events).1 := by
  induction events generalizing state with
  | nil => exact reached
  | cons event events inductionHypothesis =>
    exact inductionHypothesis (.step reached permitted.1) permitted.2

end Reachable

end ArmchairAnalyst

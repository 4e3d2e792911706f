import ArmchairAnalyst.ClientCore.Runtime
import ArmchairAnalyst.ClientCore.SafeHistory

/-!
# The latest push

What the worker takes follows the order in which pushes are executed. It follows the
order in which they were emitted when every push is executed before the next one.
-/

namespace ArmchairAnalyst.ClientCore

open Wire Optimization

variable [ReserveProjection]

/-! ### Histories -/

def Observation.emits : Observation → Option Push
  | .emitted push => some push
  | _ => none

def Observation.executes : Observation → Option Push
  | .executed push => some push
  | _ => none

def Observation.takes : Observation → Option Push
  | .took push => some push
  | _ => none

/-- The pushes of the reducer, in the order in which it emitted them. -/
def emittedIn (seen : List Observation) : List Push := seen.filterMap Observation.emits

/-- The pushes that reached the slot, in the order in which their effects were executed. -/
def executedIn (seen : List Observation) : List Push := seen.filterMap Observation.executes

/-- The pushes that the worker took, in its order. -/
def takenIn (seen : List Observation) : List Push := seen.filterMap Observation.takes

@[simp] theorem emittedIn_append (seen seen' : List Observation) :
    emittedIn (seen ++ seen') = emittedIn seen ++ emittedIn seen' := List.filterMap_append

@[simp] theorem executedIn_append (seen seen' : List Observation) :
    executedIn (seen ++ seen') = executedIn seen ++ executedIn seen' := List.filterMap_append

@[simp] theorem takenIn_append (seen seen' : List Observation) :
    takenIn (seen ++ seen') = takenIn seen ++ takenIn seen' := List.filterMap_append

@[simp] theorem emittedIn_emitted (pushes : List Push) :
    emittedIn (pushes.map .emitted) = pushes := by
  simp [emittedIn, List.filterMap_map, Function.comp_def, Observation.emits]

@[simp] theorem executedIn_emitted (pushes : List Push) :
    executedIn (pushes.map .emitted) = [] := by
  simp [executedIn, List.filterMap_map, Function.comp_def, Observation.executes]

@[simp] theorem takenIn_emitted (pushes : List Push) : takenIn (pushes.map .emitted) = [] := by
  simp [takenIn, List.filterMap_map, Function.comp_def, Observation.takes]

@[simp] theorem takenIn_took (pushes : List Push) : takenIn (pushes.map .took) = pushes := by
  simp [takenIn, List.filterMap_map, Function.comp_def, Observation.takes]

@[simp] theorem emittedIn_took (pushes : List Push) : emittedIn (pushes.map .took) = [] := by
  simp [emittedIn, List.filterMap_map, Function.comp_def, Observation.emits]

@[simp] theorem executedIn_took (pushes : List Push) : executedIn (pushes.map .took) = [] := by
  simp [executedIn, List.filterMap_map, Function.comp_def, Observation.executes]

@[simp] theorem emittedIn_delivered (message : Message) (seen : List Observation) :
    emittedIn (.delivered message :: seen) = emittedIn seen := rfl

@[simp] theorem executedIn_delivered (message : Message) (seen : List Observation) :
    executedIn (.delivered message :: seen) = executedIn seen := rfl

@[simp] theorem takenIn_delivered (message : Message) (seen : List Observation) :
    takenIn (.delivered message :: seen) = takenIn seen := rfl

variable [HexText]

/-- What an action does to the pushes that are under way. -/
inductive Moves (engine : Engine) (action : Action) (next : Engine) (seen : List Observation) :
    Prop
  | emits (event : Event) : next.slot = engine.slot →
      next.spawned = engine.spawned ++
        pushesOf (transition engine.app event).2 engine.emitted →
      next.emitted = engine.emitted +
        (pushesOf (transition engine.app event).2 engine.emitted).length →
      emittedIn seen = pushesOf (transition engine.app event).2 engine.emitted →
      executedIn seen = [] → takenIn seen = [] → Moves engine action next seen
  | executes (push : Push) : action = .execute push.number → push ∈ engine.spawned →
      next.slot = engine.slot.send push →
      next.spawned = engine.spawned.filter (·.number ≠ push.number) →
      next.emitted = engine.emitted → seen = [.executed push] → Moves engine action next seen
  | takes : next.slot = engine.slot.take → next.spawned = engine.spawned →
      next.emitted = engine.emitted → seen = engine.slot.latest.toList.map .took →
      Moves engine action next seen
  | quiet : next.slot.latest = engine.slot.latest →
      (next.slot.closed = false → engine.slot.closed = false) →
      next.spawned = engine.spawned → next.emitted = engine.emitted → seen = [] →
      Moves engine action next seen

theorem step_moves (engine : Engine) (action : Action) :
    Moves engine action (engine.step action).1 (engine.step action).2 := by
  cases action with
  | input event =>
    simp only [Engine.step]
    split
    · exact .quiet rfl (fun opened => opened) rfl rfl rfl
    · refine .emits event rfl rfl rfl ?_ ?_ ?_ <;> simp [Engine.reduce]
  | execute number =>
    simp only [Engine.step]
    cases found : engine.spawned.find? (·.number = number) with
    | none => exact .quiet rfl (fun opened => opened) rfl rfl rfl
    | some push =>
      have named : push.number = number := by simpa using List.find?_some found
      subst named
      exact .executes push rfl (List.mem_of_find?_eq_some found) rfl rfl rfl rfl
  | take =>
    simp only [Engine.step]
    split
    · exact .takes rfl rfl rfl rfl
    · exact .quiet rfl (fun opened => opened) rfl rfl rfl
  | finish outcome =>
    simp only [Engine.step]
    refine .quiet ?_ ?_ rfl rfl rfl
    · split <;> rfl
    · split
      · intro opened
        cases opened
      · exact fun opened => opened
  | deliver =>
    simp only [Engine.step]
    split
    · exact .quiet rfl (fun opened => opened) rfl rfl rfl
    · rename_i message queue _
      refine .emits message.event rfl rfl rfl ?_ ?_ ?_ <;>
        simp [Engine.reduce]

/-- What was taken, and what is in the slot, were executed in that order, and nothing was
executed after what an open slot holds or, when it is empty, the worker took last. -/
structure SlotFollows (engine : Engine) (seen : List Observation) : Prop where
  ordered : (takenIn seen ++ engine.slot.latest.toList).Sublist (executedIn seen)
  last : engine.slot.closed = false →
    (takenIn seen ++ engine.slot.latest.toList).getLast? = (executedIn seen).getLast?

theorem step_slotFollows {engine : Engine} {seen : List Observation}
    (follows : SlotFollows engine seen) (action : Action) :
    SlotFollows (engine.step action).1 (seen ++ (engine.step action).2) := by
  obtain ⟨ordered, last⟩ := follows
  cases step_moves engine action with
  | emits event slot _ _ _ executed taken =>
    constructor
    · simpa [slot, executed, taken] using ordered
    · simpa [slot, executed, taken] using last
  | executes push _ _ slot _ _ observed =>
    rw [observed]
    have appends : executedIn (seen ++ [.executed push]) = executedIn seen ++ [push] := by
      simp [executedIn, Observation.executes]
    have leaves : takenIn (seen ++ [.executed push]) = takenIn seen := by
      simp [takenIn, Observation.takes]
    cases closed : engine.slot.closed with
    | true =>
      have refused : (engine.step action).1.slot = engine.slot := by
        rw [slot, LatestSlot.send, if_pos closed]
      constructor
      · rw [appends, leaves, refused]
        exact ordered.trans (List.sublist_append_left _ _)
      · rw [refused, closed]
        rintro ⟨⟩
    | false =>
      have stored : (engine.step action).1.slot = { engine.slot with latest := some push } := by
        rw [slot, LatestSlot.send, if_neg (by simp [closed])]
      constructor
      · rw [appends, leaves, stored]
        exact ((List.sublist_append_left _ _).trans ordered).append_right [push]
      · intro _
        rw [appends, leaves, stored]
        simp
  | takes slot _ _ observed =>
    have collects : takenIn (seen ++ engine.slot.latest.toList.map .took) =
        takenIn seen ++ engine.slot.latest.toList := by simp
    have leaves : executedIn (seen ++ engine.slot.latest.toList.map .took) = executedIn seen := by
      simp
    constructor
    · rw [observed, collects, leaves, slot, LatestSlot.take]
      simpa using ordered
    · rw [observed, collects, leaves, slot, LatestSlot.take]
      simpa using last
  | quiet latest opened _ _ observed =>
    rw [observed, List.append_nil]
    constructor
    · rw [latest]
      exact ordered
    · intro open'
      rw [latest]
      exact last (opened open')

/-! ### Executing in order -/

/-- No push that was emitted before is still to be executed. -/
def ExecutesInOrder (engine : Engine) (action : Action) : Prop :=
  ∀ number, action = .execute number → ∀ push ∈ engine.spawned, number ≤ push.number

/-- The pushes that were executed, and then those that are to be, are the emitted ones in
their order. -/
structure InOrder (engine : Engine) (seen : List Observation) : Prop where
  emitted : emittedIn seen = executedIn seen ++ engine.spawned
  numbered : (emittedIn seen).map (·.number) = List.range engine.emitted

omit [HexText] in
theorem pushesOf_numbers (effects : List Effect) (emitted : Nat) :
    (pushesOf effects emitted).map (·.number) =
      (List.range (pushesOf effects emitted).length).map (emitted + ·) := by
  apply List.ext_getElem
  · simp
  · intro place _ _
    simp [pushesOf]

omit [HexText] in
theorem InOrder.sorted {engine : Engine} {seen : List Observation} (ordered : InOrder engine seen) :
    (emittedIn seen).Pairwise (fun earlier later => earlier.number < later.number) := by
  have numbers := List.pairwise_lt_range (n := engine.emitted)
  rw [← ordered.numbered, List.pairwise_map] at numbers
  exact numbers

omit [HexText] in
/-- The oldest waiting push is the one that is executed. -/
theorem spawned_of_executes {engine : Engine} {push : Push}
    (sorted : engine.spawned.Pairwise (fun earlier later => earlier.number < later.number))
    (waits : push ∈ engine.spawned) (oldest : ∀ other ∈ engine.spawned, push.number ≤ other.number) :
    engine.spawned = push :: engine.spawned.filter (·.number ≠ push.number) := by
  cases spawned : engine.spawned with
  | nil => simp [spawned] at waits
  | cons first rest =>
    rw [spawned] at sorted waits oldest
    obtain ⟨before, later⟩ := List.pairwise_cons.mp sorted
    have same : push = first := by
      rcases List.mem_cons.mp waits with same | listed
      · exact same
      · have earlier := before push listed
        have bound := oldest first List.mem_cons_self
        omega
    subst same
    have kept : rest.filter (fun other => other.number ≠ push.number) = rest := by
      apply List.filter_eq_self.mpr
      intro other listed
      have later := before other listed
      simp only [ne_eq, decide_not, Bool.not_eq_eq_eq_not, Bool.not_true, decide_eq_false_iff_not]
      omega
    rw [List.filter_cons_of_neg (by simp), kept]

theorem step_inOrder {engine : Engine} {seen : List Observation} (ordered : InOrder engine seen)
    {action : Action} (allowed : ExecutesInOrder engine action) :
    InOrder (engine.step action).1 (seen ++ (engine.step action).2) := by
  obtain ⟨emitted, numbered⟩ := ordered
  cases step_moves engine action with
  | emits event _ spawned count pushes executed _ =>
    constructor
    · simp only [emittedIn_append, executedIn_append, pushes, executed, spawned, emitted,
        List.append_nil, List.append_assoc]
    · rw [emittedIn_append, List.map_append, numbered, pushes, pushesOf_numbers, count,
        List.range_add]
  | executes push named waits _ spawned count observed =>
    have sorted := (InOrder.mk emitted numbered).sorted
    rw [emitted] at sorted
    have first := spawned_of_executes (List.pairwise_append.mp sorted).2.1 waits
      (allowed push.number named)
    have keeps : emittedIn (seen ++ [.executed push]) = emittedIn seen := by
      simp [emittedIn, Observation.emits]
    have appends : executedIn (seen ++ [.executed push]) = executedIn seen ++ [push] := by
      simp [executedIn, Observation.executes]
    constructor
    · rw [observed, keeps, appends, spawned, emitted, List.append_assoc]
      exact congrArg _ first
    · rw [observed, keeps, numbered, count]
  | takes _ spawned count observed =>
    constructor
    · rw [observed, spawned]
      simpa using emitted
    · rw [observed, count]
      simpa using numbered
  | quiet _ _ spawned count observed =>
    rw [observed, List.append_nil]
    exact ⟨by rw [spawned, emitted], by rw [count, numbered]⟩

/-! ### The latest push wins -/

omit [HexText] in
theorem mem_pushesOf {effects : List Effect} {emitted : Nat} {push : Push}
    (listed : push ∈ pushesOf effects emitted) :
    Effect.pushReserves push.snapshot.reserves push.snapshot.session ∈ effects := by
  obtain ⟨place, bound, rfl⟩ := List.mem_mapIdx.mp listed
  obtain ⟨effect, among, carries⟩ := List.mem_filterMap.mp (List.getElem_mem bound)
  cases effect with
  | pushReserves reserves session =>
    rw [← Option.some.inj carries]
    exact among
  | fetchMeta _ | fetchHealth _ | fetchSlice _ _ => cases carries

/-- Every push carries the route in force. -/
theorem emitted_in_force {engine : Engine} {action : Action} {push : Push}
    (emitted : push ∈ emittedIn (engine.step action).2) :
    push.snapshot.session = engine.app.config.optimization := by
  cases step_moves engine action with
  | emits event _ _ _ pushes _ _ =>
    rw [pushes] at emitted
    obtain ⟨_, _, _, _, _, -, -, -, -, -, -, session, -⟩ :=
      pushed_of_transition (mem_pushesOf emitted)
    exact session
  | executes _ _ _ _ _ _ observed =>
    rw [observed] at emitted
    cases emitted
  | takes _ _ _ observed =>
    rw [observed, emittedIn_took] at emitted
    cases emitted
  | quiet _ _ _ _ observed =>
    rw [observed] at emitted
    cases emitted

theorem run_slotFollows (config : SessionConfig) (actions : List Action) :
    SlotFollows (run Engine.step (.init config) actions).1
      (run Engine.step (.init config) actions).2 := by
  have permitted : AllowedAlong Engine.step (fun _ _ => True) (.init config) actions :=
    .of_events (fun _ _ _ => trivial) _
  have start : SlotFollows (.init config) [] := ⟨.refl _, fun _ => rfl⟩
  exact permitted.history SlotFollows (fun _ action _ follows _ => step_slotFollows follows action)
    start

/-- Whatever the order of the threads, the worker ends with the push that was executed
last. -/
theorem taken_last_executed (config : SessionConfig) (actions : List Action) :
    let final := run Engine.step (.init config) actions
    final.1.slot.latest = none → final.1.slot.closed = false →
      (takenIn final.2).getLast? = (executedIn final.2).getLast? := by
  intro final empty opened
  have last := (run_slotFollows config actions).last opened
  rw [empty] at last
  simpa using last

/-- When the pushes are executed in the order in which they were emitted, the worker never
goes back, and it ends with the last one. -/
theorem latest_push_wins {config : SessionConfig} {actions : List Action}
    (inOrder : AllowedAlong Engine.step ExecutesInOrder (.init config) actions) :
    let final := run Engine.step (.init config) actions
    (takenIn final.2).Pairwise (fun earlier later => earlier.number < later.number) ∧
    (final.1.spawned = [] → final.1.slot.latest = none → final.1.slot.closed = false →
      (takenIn final.2).getLast? = (emittedIn final.2).getLast?) ∧
    ∀ before action, before ++ [action] <+: actions →
      let engine := (run Engine.step (.init config) before).1
      ∀ push ∈ emittedIn (engine.step action).2,
        push.snapshot.session = engine.app.config.optimization := by
  intro final
  have start : InOrder (.init config) [] := ⟨rfl, rfl⟩
  have ordered : InOrder final.1 final.2 :=
    inOrder.history InOrder (fun _ _ _ ordered allowed => step_inOrder ordered allowed) start
  have follows := run_slotFollows config actions
  refine ⟨?_, ?_, ?_⟩
  · have among : (takenIn final.2).Sublist (emittedIn final.2) := by
      have executed := (List.sublist_append_left _ _).trans follows.ordered
      rw [ordered.emitted]
      exact executed.trans (List.sublist_append_left _ _)
    exact ordered.sorted.sublist among
  · intro executed empty opened
    rw [ordered.emitted, executed, List.append_nil]
    exact taken_last_executed config actions empty opened
  · intro before action _ engine push emitted
    exact emitted_in_force emitted

/-! ### Two pushes in either order -/

instance (engine : Engine) (action : Action) : Decidable (ExecutesInOrder engine action) :=
  match action with
  | .execute number => decidable_of_iff (∀ push ∈ engine.spawned, number ≤ push.number)
      ⟨fun oldest _ named => Action.execute.inj named ▸ oldest, fun all => all number rfl⟩
  | .input _ | .take | .finish _ | .deliver => .isTrue (by rintro _ ⟨⟩)

/-- The worker takes each of the two pushes as it is executed, and skips the first. -/
def executedAs (first second : Nat) : List Action :=
  twoPushes ++ [.execute first, .take, .finish (.routeGap "source asset not found"),
    .execute second, .take]

omit [ReserveProjection] [HexText] in
/-- The thread of the earlier push is late, and the worker ends with the route that was
left. -/
theorem late_push_wins :
    letI : ReserveProjection := .convertible
    letI : HexText := .decoded
    let config := sessionConfigFor defaultRoute
    let final := run Engine.step (.init config) (executedAs 1 0)
    final.1.spawned.length = 0 ∧ final.1.slot.latest.isNone ∧ final.1.slot.closed = false ∧
      (emittedIn final.2).map (·.number) = [0, 1] ∧ (takenIn final.2).map (·.number) = [1, 0] ∧
      (takenIn final.2).getLast?.map (·.snapshot.session) = some config.optimization ∧
      final.1.app.config = config.retarget wethRoute := by
  decide +kernel

omit [ReserveProjection] [HexText] in
theorem executedAs_inOrder :
    letI : ReserveProjection := .convertible
    letI : HexText := .decoded
    AllowedAlong Engine.step ExecutesInOrder (.init (sessionConfigFor defaultRoute))
      (executedAs 0 1) := by
  decide +kernel

omit [ReserveProjection] [HexText] in
theorem latest_push_wins_executedAs :
    letI : ReserveProjection := .convertible
    letI : HexText := .decoded
    (takenIn (run Engine.step (.init (sessionConfigFor defaultRoute))
      (executedAs 0 1)).2).Pairwise (fun earlier later => earlier.number < later.number) :=
  (@latest_push_wins .convertible .decoded _ _ executedAs_inOrder).1

end ArmchairAnalyst.ClientCore

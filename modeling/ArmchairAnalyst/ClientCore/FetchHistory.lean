import ArmchairAnalyst.ClientCore.State
import ArmchairAnalyst.Library.TransitionSystem

/-!
# The history of fetches

What a step of the engine does to its ledger, and from it what a run has issued: the
identifiers follow each other, a slot only holds what was issued since it was last
free, and a fetch is issued again only when it is free or expired.
-/

namespace ArmchairAnalyst.ClientCore

open Wire

open RequestStore (idsAfter idsAfter_add idsAfter_nodup)

/-! ### One step -/

/-- What a step does to the slot of one kind. -/
inductive SlotStep (before : PendingFetches) (answer : Option (FetchKind × FetchId))
    (fetches : List (FetchKind × FetchId)) (after : PendingFetches) (kind : FetchKind) : Prop
  | kept : after.slot kind = before.slot kind → (∀ id, (kind, id) ∉ fetches) →
      SlotStep before answer fetches after kind
  | accepted (id : FetchId) : answer = some (kind, id) → before.holds kind id = true →
      after.slot kind = none → (∀ id, (kind, id) ∉ fetches) →
      SlotStep before answer fetches after kind
  | issued (id : FetchId) : (∀ other, (kind, other) ∈ fetches ↔ other = id) →
      after.slot kind = some ⟨id, after.now⟩ →
      (∀ slot, before.slot kind = some slot →
        fetchTtlTicks ≤ after.now - slot.dispatchedAt) →
      SlotStep before answer fetches after kind

/-- What a step does to the ledger. -/
structure LedgerStep (before : PendingFetches) (answer : Option (FetchKind × FetchId))
    (ticks : Nat) (fetches : List (FetchKind × FetchId)) (after : PendingFetches) : Prop where
  counter : after.nextId = before.nextId + UInt64.ofNat fetches.length
  ids : fetches.map (·.2.value) = idsAfter (before.nextId - 1) fetches.length
  clock : after.now = before.now + UInt64.ofNat ticks
  slots : ∀ kind, SlotStep before answer fetches after kind
  frees : ∀ kind id, answer = some (kind, id) → before.holds kind id = true →
    after.slot kind = none

namespace LedgerStep

variable {before middle : PendingFetches} {answer : Option (FetchKind × FetchId)} {ticks : Nat}
  {fetches : List (FetchKind × FetchId)}

theorem refl (unheld : ∀ kind id, answer = some (kind, id) → before.holds kind id ≠ true) :
    LedgerStep before answer 0 [] before where
  counter := by simp
  ids := rfl
  clock := by simp
  slots := fun _ => .kept rfl (by simp)
  frees := fun kind id answered held => absurd held (unheld kind id answered)

theorem advance (before : PendingFetches) : LedgerStep before none 1 [] before.advance where
  counter := by simp [PendingFetches.advance]
  ids := rfl
  clock := rfl
  slots := fun kind => .kept (before.slot_advance kind) (by simp)
  frees := by simp

theorem accept {kind : FetchKind} {id : FetchId} (held : before.holds kind id = true) :
    LedgerStep before (some (kind, id)) 0 [] (before.setSlot kind none) where
  counter := by simp
  ids := rfl
  clock := by simp
  slots := by
    intro other
    by_cases same : other = kind
    · subst same
      exact .accepted id rfl held (by simp) (by simp)
    · exact .kept (by simp [same]) (by simp)
  frees := by
    rintro other id' answered -
    cases answered
    simp

/-- A fetch of a kind that was left alone so far. -/
theorem ensure (step : LedgerStep before answer ticks fetches middle) {kind : FetchKind}
    (alone : middle.slot kind = before.slot kind) (fresh : ∀ id, (kind, id) ∉ fetches) :
    LedgerStep before answer ticks
      (fetches ++ (middle.ensure kind).1.toList.map (kind, ·)) (middle.ensure kind).2 := by
  have ensured := middle.ensure_ensured kind
  generalize middle.ensure kind = result at ensured ⊢
  cases ensured with
  | gated _ =>
    simp only [Option.toList_none, List.map_nil, List.append_nil]
    exact step
  | issued next expired counter clock slots =>
    simp only [Option.toList_some, List.map_cons, List.map_nil]
    refine ⟨?_, ?_, clock.trans step.clock, ?_, ?_⟩
    · rw [counter, step.counter, List.length_append, UInt64.ofNat_add, UInt64.add_assoc]
      rfl
    · have following : middle.nextId = before.nextId - 1 + UInt64.ofNat fetches.length + 1 := by
        rw [step.counter]
        grind
      rw [List.map_append, step.ids, List.length_append, idsAfter_add, following]
      rfl
    · intro other
      by_cases same : other = kind
      · subst same
        refine .issued ⟨middle.nextId⟩ ?_ ?_ ?_
        · simp [fresh]
        · rw [slots, if_pos rfl, clock]
        · intro slot found
          rw [← alone] at found
          simp only [PendingFetches.isFresh, found, decide_eq_false_iff_not,
            UInt64.not_lt] at expired
          rw [clock]
          exact expired
      · have untouched : next.slot other = middle.slot other := by rw [slots, if_neg same]
        cases step.slots other with
        | kept keeps absent => exact .kept (untouched.trans keeps) (by simp [absent, same])
        | accepted id answered held freed absent =>
          exact .accepted id answered held (untouched.trans freed) (by simp [absent, same])
        | issued id listed recorded spaced =>
          refine .issued id ?_ ?_ ?_
          · simp [listed, same]
          · rw [untouched, recorded, clock]
          · rw [clock]
            exact spaced
    · intro other id answered held
      have freed := step.frees other id answered held
      by_cases same : other = kind
      · -- The slot was left alone, so it cannot have been freed.
        subst same
        rw [PendingFetches.holds, ← alone, freed] at held
        cases held
      · rw [slots, if_neg same, freed]

end LedgerStep

variable [ReserveProjection]

def Effect.fetch : Effect → Option (FetchKind × FetchId)
  | .fetchMeta id => some (.poolsMeta, id)
  | .fetchHealth id => some (.health, id)
  | .fetchSlice id _ => some (.slice, id)
  | .pushReserves _ _ => none

/-- The fetches among effects, in the order in which they are emitted. -/
def issued (effects : List Effect) : List (FetchKind × FetchId) := effects.filterMap Effect.fetch

/-- The fetch that an event answers, with a payload or with a failure. -/
def Event.answer : Event → Option (FetchKind × FetchId)
  | .metaFetched id _ => some (.poolsMeta, id)
  | .sliceFetched id _ => some (.slice, id)
  | .healthFetched id _ => some (.health, id)
  | .fetchFailed id kind _ => some (kind, id)
  | _ => none

/-- The clock ticks of an event. -/
def Event.ticks : Event → Nat
  | .tick => 1
  | _ => 0

def ticks (events : List Event) : Nat := (events.map Event.ticks).sum

@[simp] theorem issued_append (effects effects' : List Effect) :
    issued (effects ++ effects') = issued effects ++ issued effects' :=
  List.filterMap_append

/-! ### The steps of the engine -/

theorem ensureFetch_pending (state : AppState) (kind : FetchKind) (effect : FetchId → Effect) :
    (ensureFetch state kind effect).1.pending = (state.pending.ensure kind).2 := by
  unfold ensureFetch
  split <;> simp_all

theorem ensureFetch_issued (state : AppState) {kind : FetchKind} {effect : FetchId → Effect}
    (names : ∀ id, (effect id).fetch = some (kind, id)) :
    issued (ensureFetch state kind effect).2 =
      (state.pending.ensure kind).1.toList.map (kind, ·) := by
  unfold ensureFetch issued
  split <;> simp_all

theorem onTick_ledger (state : AppState) :
    LedgerStep state.pending none 1 (issued (onTick state).2) (onTick state).1.pending := by
  let advanced : AppState := { state with pending := state.pending.advance }
  have polled : LedgerStep state.pending none 1
      (issued (ensureFetch advanced .health .fetchHealth).2)
      (ensureFetch advanced .health .fetchHealth).1.pending := by
    rw [ensureFetch_pending, ensureFetch_issued advanced (fun _ => rfl)]
    exact (LedgerStep.advance state.pending).ensure (by simp) (by simp)
  have others : ∀ kind ≠ FetchKind.health, ∀ id,
      (kind, id) ∉ issued (ensureFetch advanced .health .fetchHealth).2 := by
    intro kind different id
    rw [ensureFetch_issued advanced (fun _ => rfl)]
    simp [different.symm]
  have alone : ∀ kind ≠ FetchKind.health,
      (ensureFetch advanced .health .fetchHealth).1.pending.slot kind =
        state.pending.slot kind := by
    intro kind different
    rw [ensureFetch_pending]
    have ensured := advanced.pending.ensure_ensured .health
    generalize advanced.pending.ensure .health = result at ensured ⊢
    cases ensured with
    | gated _ => exact state.pending.slot_advance kind
    | issued next _ _ _ slots =>
      rw [slots, if_neg different]
      exact state.pending.slot_advance kind
  unfold onTick
  dsimp only
  split
  · rw [issued_append, ensureFetch_pending (ensureFetch advanced .health .fetchHealth).1,
      ensureFetch_issued (ensureFetch advanced .health .fetchHealth).1 (fun _ => rfl)]
    exact polled.ensure (alone .poolsMeta (by decide)) (others .poolsMeta (by decide))
  · rw [issued_append, ensureFetch_pending (ensureFetch advanced .health .fetchHealth).1,
      ensureFetch_issued (ensureFetch advanced .health .fetchHealth).1 (fun _ => rfl)]
    exact polled.ensure (alone .slice (by decide)) (others .slice (by decide))

variable [HexText]

theorem onSlice_pending (state : AppState) (slice : SliceResponse) :
    (onSlice state slice).1.pending = state.pending ∧ issued (onSlice state slice).2 = [] := by
  unfold onSlice
  split
  · exact ⟨rfl, rfl⟩
  · split
    · exact ⟨rfl, rfl⟩
    · split
      · exact ⟨rfl, rfl⟩
      · split <;> exact ⟨rfl, rfl⟩

/-- An answer frees the slot of its kind when it is the recorded one, and nothing else. -/
theorem transition_ledger (state : AppState) (event : Event) :
    LedgerStep state.pending event.answer event.ticks (issued (transition state event).2)
      (transition state event).1.pending := by
  cases event with
  | tick => exact onTick_ledger state
  | metaFetched id response =>
    simp only [transition, PendingFetches.accept]
    by_cases held : state.pending.holds .poolsMeta id = true
    · simp only [held, if_true, onMeta]
      rw [ensureFetch_pending, ensureFetch_issued _ (fun _ => rfl)]
      exact (LedgerStep.accept held).ensure (by simp) (by simp)
    · simp only [if_neg held]
      exact .refl (by rintro _ _ ⟨⟩; exact held)
  | sliceFetched id response =>
    simp only [transition, PendingFetches.accept]
    by_cases held : state.pending.holds .slice id = true
    · simp only [held, if_true]
      obtain ⟨keeps, silent⟩ :=
        onSlice_pending { state with pending := state.pending.setSlot .slice none } response
      rw [keeps, silent]
      exact .accept held
    · simp only [if_neg held]
      exact .refl (by rintro _ _ ⟨⟩; exact held)
  | healthFetched id response =>
    simp only [transition, PendingFetches.accept]
    by_cases held : state.pending.holds .health id = true
    · simp only [held, if_true]
      exact .accept held
    · simp only [if_neg held]
      exact .refl (by rintro _ _ ⟨⟩; exact held)
  | fetchFailed id kind message =>
    simp only [transition, PendingFetches.accept]
    by_cases held : state.pending.holds kind id = true
    · simp only [held, if_true]
      exact .accept held
    · simp only [if_neg held]
      exact .refl (by rintro _ _ ⟨⟩; exact held)
  | optimizerStepped result plan => exact .refl (by rintro _ _ ⟨⟩)
  | effectFailed error => exact .refl (by rintro _ _ ⟨⟩)
  | setRoute route =>
    have keeps : (onSetRoute state route).pending = state.pending := by
      unfold onSetRoute
      split <;> rfl
    simp only [transition, keeps]
    exact .refl (by rintro _ _ ⟨⟩)

/-! ### Runs -/

/-- The fetches that a run issues. -/
def issuedAlong (state : AppState) (events : List Event) : List (FetchKind × FetchId) :=
  issued (run transition state events).2

/-- The state after a run. -/
def after (state : AppState) (events : List Event) : AppState := (run transition state events).1

theorem issuedAlong_cons (state : AppState) (event : Event) (events : List Event) :
    issuedAlong state (event :: events) =
      issued (transition state event).2 ++ issuedAlong (transition state event).1 events :=
  issued_append _ _

theorem issuedAlong_append (state : AppState) (first second : List Event) :
    issuedAlong state (first ++ second) =
      issuedAlong state first ++ issuedAlong (after state first) second := by
  simp only [issuedAlong, after, run_append, issued_append]

theorem after_append (state : AppState) (first second : List Event) :
    after state (first ++ second) = after (after state first) second := by
  simp only [after, run_append]

/-- The identifiers of a run follow each other. -/
theorem issuedAlong_ids (state : AppState) (events : List Event) :
    (after state events).pending.nextId =
        state.pending.nextId + UInt64.ofNat (issuedAlong state events).length ∧
      (issuedAlong state events).map (·.2.value) =
        idsAfter (state.pending.nextId - 1) (issuedAlong state events).length := by
  induction events generalizing state with
  | nil => exact ⟨by simp [after, run, issuedAlong, issued], rfl⟩
  | cons event events inductionHypothesis =>
    obtain ⟨counter, ids, -, -⟩ := transition_ledger state event
    obtain ⟨counter', ids'⟩ := inductionHypothesis (transition state event).1
    have last : (after state (event :: events)).pending.nextId =
        (after (transition state event).1 events).pending.nextId := rfl
    rw [issuedAlong_cons, List.length_append, last, counter', counter, UInt64.ofNat_add]
    refine ⟨by rw [UInt64.add_assoc], ?_⟩
    have following : (transition state event).1.pending.nextId - 1 =
        state.pending.nextId - 1 + UInt64.ofNat (issued (transition state event).2).length := by
      rw [counter]
      grind
    rw [List.map_append, ids, ids', idsAfter_add, following]

/-- A slot holds what the run issued, or what it held before. -/
theorem holds_after {state : AppState} {events : List Event} {kind : FetchKind} {id : FetchId}
    (held : (after state events).pending.holds kind id = true) :
    (kind, id) ∈ issuedAlong state events ∨ state.pending.holds kind id = true := by
  induction events generalizing state with
  | nil => exact .inr held
  | cons event events inductionHypothesis =>
    rw [issuedAlong_cons, List.mem_append]
    rcases @inductionHypothesis (transition state event).1 held with later | next
    · exact .inl (.inr later)
    · cases (transition_ledger state event).slots kind with
      | kept keeps _ =>
        rw [PendingFetches.holds, keeps] at next
        exact .inr next
      | accepted _ _ _ freed _ => simp [PendingFetches.holds, freed] at next
      | issued other listed recorded _ =>
        simp only [PendingFetches.holds, recorded, decide_eq_true_eq] at next
        exact .inl (.inl ((listed id).mpr next.symm))

/-- What is issued is recorded. -/
theorem holds_of_issued {state : AppState} {event : Event} {kind : FetchKind} {id : FetchId}
    (emitted : (kind, id) ∈ issued (transition state event).2) :
    (transition state event).1.pending.slot kind =
      some ⟨id, (transition state event).1.pending.now⟩ := by
  cases (transition_ledger state event).slots kind with
  | kept _ absent => exact absurd emitted (absent id)
  | accepted _ _ _ _ absent => exact absurd emitted (absent id)
  | issued other listed recorded _ =>
    obtain rfl := (listed id).mp emitted
    exact recorded

/-- An event is the answer that the ledger waits for. -/
def Accepts (state : AppState) (event : Event) (kind : FetchKind) (id : FetchId) : Prop :=
  event.answer = some (kind, id) ∧ state.pending.holds kind id = true

/-- Of two answers of one kind that are accepted, the earlier one was issued first. -/
theorem accepted_in_order {start : AppState} (unsent : ∀ kind, start.pending.slot kind = none)
    {before middle : List Event} {first second : Event} {kind : FetchKind} {id id' : FetchId}
    (accepts : Accepts (after start before) first kind id)
    (accepts' : Accepts (after start (before ++ first :: middle)) second kind id') :
    ∃ earlier between later, issuedAlong start (before ++ first :: middle) =
      earlier ++ (kind, id) :: between ++ (kind, id') :: later := by
  have idle : ∀ id, start.pending.holds kind id ≠ true := by
    simp [PendingFetches.holds, unsent kind]
  have sent : (kind, id) ∈ issuedAlong start before :=
    (holds_after accepts.2).resolve_right (idle id)
  have freed := (transition_ledger (after start before) first).frees kind id accepts.1 accepts.2
  have resent : (kind, id') ∈ issuedAlong (transition (after start before) first).1 middle := by
    have held := accepts'.2
    rw [after_append] at held
    have issuedOrHeld : (kind, id') ∈ issuedAlong (transition (after start before) first).1 middle ∨
        (transition (after start before) first).1.pending.holds kind id' = true := holds_after held
    apply issuedOrHeld.resolve_right
    simp [PendingFetches.holds, freed]
  rw [issuedAlong_append, issuedAlong_cons]
  obtain ⟨earlier, rest, split⟩ := List.append_of_mem sent
  obtain ⟨between, later, split'⟩ := List.append_of_mem resent
  refine ⟨earlier, rest ++ issued (transition (after start before) first).2 ++ between, later, ?_⟩
  rw [split, split']
  simp

omit [ReserveProjection] [HexText] in
theorem elapsed_of_expired {since now : UInt64} {elapsed count : Nat}
    (clock : now = since + UInt64.ofNat elapsed)
    (expired : fetchTtlTicks ≤ now + UInt64.ofNat count - since) :
    fetchTtlTicks.toNat ≤ elapsed + count := by
  have passed : now + UInt64.ofNat count - since = UInt64.ofNat (elapsed + count) := by
    rw [clock, UInt64.ofNat_add]
    grind
  rw [passed, UInt64.le_iff_toNat_le, UInt64.toNat_ofNat'] at expired
  exact Nat.le_trans expired (Nat.mod_le _ _)

/-- A fetch of a kind is issued again when the earlier one was accepted, or has expired. -/
theorem issued_again {state : AppState} {kind : FetchKind} {id : FetchId} {since : UInt64}
    {elapsed : Nat} (recorded : state.pending.slot kind = some ⟨id, since⟩)
    (clock : state.pending.now = since + UInt64.ofNat elapsed) {middle : List Event}
    {second : Event} {id' : FetchId}
    (emitted : (kind, id') ∈ issued (transition (after state middle) second).2) :
    (∃ taken answer rest, middle = taken ++ answer :: rest ∧
      Accepts (after state taken) answer kind id) ∨
    fetchTtlTicks.toNat ≤ elapsed + ticks (middle ++ [second]) := by
  induction middle generalizing state elapsed with
  | nil =>
    have step := transition_ledger state second
    cases step.slots kind with
    | kept _ absent => exact absurd emitted (absent id')
    | accepted _ _ _ _ absent => exact absurd emitted (absent id')
    | issued other _ _ spaced =>
      have expired := spaced _ recorded
      rw [step.clock] at expired
      right
      simpa [ticks] using elapsed_of_expired clock expired
  | cons event middle inductionHypothesis =>
    have step := transition_ledger state event
    have total : ticks (event :: middle ++ [second]) = event.ticks + ticks (middle ++ [second]) := by
      simp [ticks]
    cases step.slots kind with
    | kept keeps _ =>
      have clock' : (transition state event).1.pending.now =
          since + UInt64.ofNat (elapsed + event.ticks) := by
        rw [step.clock, clock, UInt64.ofNat_add, UInt64.add_assoc]
      rcases inductionHypothesis (keeps.trans recorded) clock' emitted with
        ⟨taken, answer, rest, rfl, accepted⟩ | expired
      · exact .inl ⟨event :: taken, answer, rest, rfl, accepted⟩
      · right
        omega
    | accepted other answered held _ _ =>
      rw [PendingFetches.holds, recorded, decide_eq_true_eq] at held
      cases held
      left
      refine ⟨[], event, middle, rfl, answered, ?_⟩
      simp [after, run, PendingFetches.holds, recorded]
    | issued other _ _ spaced =>
      have expired := spaced _ recorded
      rw [step.clock] at expired
      have passed := elapsed_of_expired clock expired
      right
      omega

end ArmchairAnalyst.ClientCore

import ArmchairAnalyst.PoolLog

/-!
# Runs of pool events as an action

Folding a run is folding its parts in turn, so a run may be split anywhere. What an
absolute event follows leaves no trace, unless a liquidity adjustment before it
overflows and ends the fold.
-/

namespace ArmchairAnalyst

/-- A liquidity adjustment, as opposed to an absolute state. -/
def PoolLogEvent.IsDelta : PoolLogEvent → Prop
  | .mint _ _ _ | .burn _ _ _ => True
  | .swap _ _ _ | .initializePool _ _ => False

/-- An adjustment in the range of the tick that leaves the range of the liquidity. -/
def OverflowsAt (state : PoolState) : PoolLogEvent → Prop
  | .mint tickLower tickUpper amount => tickLower ≤ state.tick ∧ state.tick < tickUpper ∧
      2 ^ 128 ≤ state.liquidity.toNat + amount.toNat
  | .burn tickLower tickUpper amount => tickLower ≤ state.tick ∧ state.tick < tickUpper ∧
      state.liquidity.toNat < amount.toNat
  | .swap _ _ _ | .initializePool _ _ => False

/-- Some adjustment of the run overflows in the state it meets. -/
def Overflows (base : Option PoolState) (events : List PoolLogEvent) : Prop :=
  ∃ before event after, events = before ++ event :: after ∧
    ∃ state, derivePoolState base before = some state ∧ OverflowsAt state event

/-! ### Overflow ends the fold -/

theorem applyLiquidityDelta_eq_none {current : PoolState} {tickLower tickUpper : I24}
    {delta : U128 → Option U128} :
    applyLiquidityDelta current tickLower tickUpper delta = none ↔
      tickLower ≤ current.tick ∧ current.tick < tickUpper ∧ delta current.liquidity = none := by
  unfold applyLiquidityDelta
  split
  · rename_i inRange
    rw [Option.map_eq_none_iff]
    exact ⟨fun failed => ⟨inRange.1, inRange.2, failed⟩, fun failed => failed.2.2⟩
  · rename_i outside
    constructor
    · intro failed
      cases failed
    · intro failed
      exact absurd ⟨failed.1, failed.2.1⟩ outside

theorem applyEvent_eq_none {state : PoolState} {event : PoolLogEvent} :
    applyEvent (some state) event = none ↔ OverflowsAt state event := by
  cases event with
  | initializePool _ _ => simp [applyEvent, OverflowsAt]
  | swap _ _ _ => simp [applyEvent, OverflowsAt]
  | mint tickLower tickUpper amount =>
    simp [applyEvent, OverflowsAt, applyLiquidityDelta_eq_none, checkedAdd]
  | burn tickLower tickUpper amount =>
    simp [applyEvent, OverflowsAt, applyLiquidityDelta_eq_none, checkedSub]

/-- An unseeded run has nothing to adjust. -/
theorem applyEvent_none_isSome (event : PoolLogEvent) : (applyEvent none event).isSome := by
  cases event <;> rfl

theorem foldEvents_eq_none_iff (base : Option PoolState) (events : List PoolLogEvent) :
    foldEvents base events = none ↔ Overflows base events := by
  induction events using List.reverseRecOn with
  | nil => simp [Overflows]
  | append_singleton events event inductionHypothesis =>
    rw [foldEvents_append]
    cases folded : foldEvents base events with
    | none =>
      obtain ⟨before, earlier, after, rfl, overflow⟩ := inductionHypothesis.mp folded
      rw [Option.bind_none]
      exact ⟨fun _ => ⟨before, earlier, after ++ [event], by simp, overflow⟩, fun _ => rfl⟩
    | some running =>
      have safe : ¬ Overflows base events := fun overflow => by
        rw [inductionHypothesis.mpr overflow] at folded
        cases folded
      have derived : derivePoolState base events = running := by
        rw [derivePoolState, folded, Option.join_some]
      have last : foldEvents running [event] = none ↔ applyEvent running event = none := by
        rw [foldEvents_cons]
        cases applyEvent running event <;> simp
      rw [Option.bind_some, last]
      constructor
      · intro failed
        cases running with
        | none =>
          have succeeds := applyEvent_none_isSome event
          rw [failed] at succeeds
          cases succeeds
        | some state =>
          exact ⟨events, event, [], rfl, state, derived, applyEvent_eq_none.mp failed⟩
      · rintro ⟨before, event', after, split, state, reached, overflow⟩
        rcases List.eq_nil_or_concat after with rfl | ⟨after, final, rfl⟩
        · obtain ⟨rfl, same⟩ := List.append_inj' split rfl
          obtain rfl := (List.cons.inj same).1
          rw [derived] at reached
          rw [reached]
          exact applyEvent_eq_none.mpr overflow
        · have earlier : events = before ++ event' :: after := by
            rw [List.concat_eq_append, ← List.cons_append, ← List.append_assoc] at split
            exact (List.append_inj' split rfl).1
          exact absurd ⟨before, event', after, earlier, state, reached, overflow⟩ safe

/-! ### Splitting a run -/

theorem foldEvents_of_derived {base : Option PoolState} {events : List PoolLogEvent}
    {state : PoolState} (derived : derivePoolState base events = some state) :
    foldEvents base events = some (some state) :=
  Option.join_eq_some_iff.mp derived

theorem derivePoolState_append {base : Option PoolState} {first second : List PoolLogEvent}
    {state : PoolState} (derived : derivePoolState base first = some state) :
    derivePoolState base (first ++ second) = derivePoolState (some state) second := by
  rw [derivePoolState, foldEvents_append, foldEvents_of_derived derived, Option.bind_some,
    derivePoolState]

theorem foldEvents_deltas {events : List PoolLogEvent} (deltas : ∀ event ∈ events, event.IsDelta) :
    foldEvents none events = some none := by
  induction events with
  | nil => rfl
  | cons event events inductionHypothesis =>
    have step : applyEvent none event = some none := by
      have delta := deltas event List.mem_cons_self
      cases event with
      | initializePool _ _ => exact absurd delta id
      | swap _ _ _ => exact absurd delta id
      | mint _ _ _ => rfl
      | burn _ _ _ => rfl
    rw [foldEvents_cons, step, Option.bind_some]
    exact inductionHypothesis (fun other membership => deltas other (List.mem_cons_of_mem _ membership))

/-- An absolute event gives the same state whatever runs before it. -/
theorem applyEvent_absolute {event : PoolLogEvent} (absolute : ¬ event.IsDelta)
    (running running' : Option PoolState) : applyEvent running event = applyEvent running' event := by
  cases event with
  | initializePool _ _ => rfl
  | swap _ _ _ => rfl
  | mint _ _ _ => exact absurd trivial absolute
  | burn _ _ _ => exact absurd trivial absolute

theorem foldEvents_absolute {event : PoolLogEvent} (absolute : ¬ event.IsDelta)
    {base : Option PoolState} {before : List PoolLogEvent} (safe : ¬ Overflows base before)
    (after : List PoolLogEvent) :
    foldEvents base (before ++ event :: after) = foldEvents none (event :: after) := by
  rw [← foldEvents_eq_none_iff] at safe
  obtain ⟨running, folded⟩ := Option.ne_none_iff_exists'.mp safe
  rw [foldEvents_append, folded, Option.bind_some, foldEvents_cons, foldEvents_cons,
    applyEvent_absolute absolute running none]

theorem Overflows.append {base : Option PoolState} {first : List PoolLogEvent}
    (overflows : Overflows base first) (second : List PoolLogEvent) :
    Overflows base (first ++ second) := by
  obtain ⟨before, event, after, rfl, overflow⟩ := overflows
  exact ⟨before, event, after ++ second, by simp, overflow⟩

/-- A run that derives without a base has a first absolute event. -/
theorem exists_absolute {events : List PoolLogEvent} {state : PoolState}
    (derived : derivePoolState none events = some state) :
    ∃ before event after, events = before ++ event :: after ∧
      (∀ earlier ∈ before, earlier.IsDelta) ∧ ¬ event.IsDelta := by
  induction events with
  | nil => simp [derivePoolState] at derived
  | cons event events inductionHypothesis =>
    by_cases delta : event.IsDelta
    · have skipped : foldEvents none [event] = some none :=
        foldEvents_deltas (by simpa using delta)
      have rest : derivePoolState none events = some state := by
        rw [derivePoolState, ← List.singleton_append, foldEvents_append, skipped] at derived
        exact derived
      obtain ⟨before, absolute, after, rfl, deltas, isAbsolute⟩ := inductionHypothesis rest
      exact ⟨event :: before, absolute, after, rfl, List.forall_mem_cons.mpr ⟨delta, deltas⟩,
        isAbsolute⟩
    · exact ⟨[], event, events, rfl, by simp, delta⟩

/-- Deriving is an action of runs on states, and absolute events forget the past. -/
theorem derivePoolState_action :
    (∀ base first second state, derivePoolState base first = some state →
      derivePoolState base (first ++ second) = derivePoolState (some state) second) ∧
    (∀ first second, (∀ event ∈ first, PoolLogEvent.IsDelta event) →
      derivePoolState none (first ++ second) = derivePoolState none second) ∧
    (∀ event, ¬ PoolLogEvent.IsDelta event → ∀ after base before base' before',
      ¬ Overflows base before → ¬ Overflows base' before' →
        derivePoolState base (before ++ event :: after) =
          derivePoolState base' (before' ++ event :: after)) ∧
    ∀ events state, derivePoolState none events = some state →
      ∀ base, ¬ Overflows (some base) events →
        derivePoolState (some base) events = some state := by
  refine ⟨fun _ _ _ _ => derivePoolState_append, ?_, ?_, ?_⟩
  · intro first second deltas
    rw [derivePoolState, foldEvents_append, foldEvents_deltas deltas, Option.bind_some,
      derivePoolState]
  · intro event absolute after base before base' before' safe safe'
    rw [derivePoolState, foldEvents_absolute absolute safe, derivePoolState,
      foldEvents_absolute absolute safe']
  · intro events state derived base safe
    obtain ⟨before, event, after, rfl, deltas, absolute⟩ := exists_absolute derived
    have safeBefore : ¬ Overflows (some base) before := fun overflow => safe (overflow.append _)
    have safeNone : ¬ Overflows none before := by
      rw [← foldEvents_eq_none_iff, foldEvents_deltas deltas]
      simp
    rw [derivePoolState, foldEvents_absolute absolute safeNone] at derived
    rw [derivePoolState, foldEvents_absolute absolute safeBefore]
    exact derived

theorem derivePoolState_action_mint :
    derivePoolState none ([sampleSwap.event] ++ [sampleMint]) =
        derivePoolState (some sampleState) [sampleMint] ∧
      derivePoolState none ([sampleMint] ++ [sampleSwap.event]) =
        derivePoolState none [sampleSwap.event] ∧
      derivePoolState (some sampleState) ([sampleMint] ++ sampleSwap.event :: [sampleMint]) =
        derivePoolState none ([] ++ sampleSwap.event :: [sampleMint]) ∧
      derivePoolState (some sampleState) [sampleMint, sampleSwap.event] = some sampleState := by
  have safe : ∀ base events, (foldEvents base events).isSome → ¬ Overflows base events := by
    intro base events folded
    rw [← foldEvents_eq_none_iff]
    exact Option.isSome_iff_ne_none.mp folded
  obtain ⟨acts, unborn, forgets, absorbs⟩ := derivePoolState_action
  refine ⟨acts _ _ _ _ rfl, unborn _ _ (by simp [sampleMint, PoolLogEvent.IsDelta]), ?_,
    absorbs _ _ rfl _ (safe _ _ rfl)⟩
  exact forgets _ (by simp [sampleSwap, PoolLogEvent.IsDelta]) _ _ _ _ _ (safe _ _ rfl)
    (safe _ _ rfl)

end ArmchairAnalyst

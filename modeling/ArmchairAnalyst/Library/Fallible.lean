import Mathlib

/-!
# Computations that may fail

Where a chain of fallible steps succeeds, every step of it has succeeded.
-/

namespace ArmchairAnalyst.Except

variable {Failure A B : Type}

theorem bind_eq_ok_iff {result : Except Failure A} {next : A → Except Failure B} {value : B} :
    result >>= next = .ok value ↔ ∃ intermediate, result = .ok intermediate ∧
      next intermediate = .ok value := by
  cases result with
  | error failure => simp [bind, Except.bind]
  | ok intermediate => simp [bind, Except.bind]

theorem bind_eq_error_iff {result : Except Failure A} {next : A → Except Failure B}
    {failure : Failure} :
    result >>= next = .error failure ↔ result = .error failure ∨
      ∃ intermediate, result = .ok intermediate ∧ next intermediate = .error failure := by
  cases result with
  | error failure' => simp [bind, Except.bind]
  | ok intermediate => simp [bind, Except.bind]

theorem pure_eq_ok_iff {value value' : A} :
    (pure value : Except Failure A) = .ok value' ↔ value = value' := by
  simp [pure, Except.pure]

/-! ### Folds -/

section Folds

variable {S T X : Type}

/-- Two folds over one list that both succeed keep what each pair of their steps keeps,
with the items before and after the step in sight. -/
theorem foldlM_two_runs {first : S → X → Except Failure S} {second : T → X → Except Failure T}
    (Related : List X → List X → S → T → Prop)
    (step : ∀ before item after s t s' t', Related before (item :: after) s t →
      first s item = .ok s' → second t item = .ok t' → Related (before ++ [item]) after s' t')
    {before items : List X} {s s' : S} {t t' : T} (related : Related before items s t)
    (ran : items.foldlM first s = .ok s') (ran' : items.foldlM second t = .ok t') :
    Related (before ++ items) [] s' t' := by
  induction items generalizing before s t with
  | nil =>
    obtain rfl := pure_eq_ok_iff.mp ran
    obtain rfl := pure_eq_ok_iff.mp ran'
    simpa using related
  | cons item items inductionHypothesis =>
    rw [List.foldlM_cons] at ran ran'
    obtain ⟨mid, moved, rest⟩ := bind_eq_ok_iff.mp ran
    obtain ⟨mid', moved', rest'⟩ := bind_eq_ok_iff.mp ran'
    have next := step before item items s t mid mid' related moved moved'
    simpa using inductionHypothesis next rest rest'

theorem foldlM_keeps {f : S → X → Except Failure S} (Kept : S → Prop)
    (step : ∀ item s s', Kept s → f s item = .ok s' → Kept s') {items : List X} {s s' : S}
    (kept : Kept s) (ran : items.foldlM f s = .ok s') : Kept s' :=
  @foldlM_two_runs _ _ _ _ f f (fun _ _ state _ => Kept state)
    (fun _ item _ s _ s' _ before moved _ => step item s s' before moved) [] _ _ _ _ _ kept ran ran

/-- A fold succeeds where each of its steps does, in every state that the steps can meet. -/
theorem foldlM_ok {f : S → X → Except Failure S} (Kept : S → Prop) {items : List X}
    (step : ∀ item ∈ items, ∀ s, Kept s → ∃ s', f s item = .ok s' ∧ Kept s') {s : S}
    (kept : Kept s) : ∃ s', items.foldlM f s = .ok s' ∧ Kept s' := by
  induction items generalizing s with
  | nil => exact ⟨s, rfl, kept⟩
  | cons item items inductionHypothesis =>
    obtain ⟨mid, moved, kept'⟩ := step item List.mem_cons_self s kept
    obtain ⟨last, ran, kept''⟩ := inductionHypothesis
      (fun later member => step later (List.mem_cons_of_mem _ member)) kept'
    refine ⟨last, ?_, kept''⟩
    rw [List.foldlM_cons, moved]
    exact ran

/-- A fold fails as one of its steps does, in a state that the steps can meet. -/
theorem foldlM_error {f : S → X → Except Failure S} (Kept : S → Prop) {items : List X}
    (step : ∀ item ∈ items, ∀ s s', Kept s → f s item = .ok s' → Kept s') {s : S} (kept : Kept s)
    {failure : Failure} (failed : items.foldlM f s = .error failure) :
    ∃ item ∈ items, ∃ mid, Kept mid ∧ f mid item = .error failure := by
  induction items generalizing s with
  | nil => cases failed
  | cons item items inductionHypothesis =>
    rw [List.foldlM_cons] at failed
    rcases bind_eq_error_iff.mp failed with now | ⟨mid, moved, later⟩
    · exact ⟨item, List.mem_cons_self, s, kept, now⟩
    · obtain ⟨other, member, found⟩ := inductionHypothesis
        (fun other member => step other (List.mem_cons_of_mem _ member))
        (step item List.mem_cons_self s mid kept moved) later
      exact ⟨other, List.mem_cons_of_mem _ member, found⟩

/-- The order of the items does not matter to a fold whose steps commute, failures
included, in every state that the steps can meet. -/
theorem foldlM_perm {f : S → X → Except Failure S} (Kept : S → Prop) {items items' : List X}
    (permuted : items.Perm items')
    (keeps : ∀ item ∈ items, ∀ s s', Kept s → f s item = .ok s' → Kept s')
    (commute : ∀ item ∈ items, ∀ item' ∈ items, ∀ s, Kept s →
      f s item >>= (fun s' => f s' item') = f s item' >>= (fun s' => f s' item))
    {s : S} (kept : Kept s) : items.foldlM f s = items'.foldlM f s := by
  induction permuted generalizing s with
  | nil => rfl
  | @cons item items items' permuted inductionHypothesis =>
    rw [List.foldlM_cons, List.foldlM_cons]
    cases moved : f s item with
    | error failure => rfl
    | ok next =>
      refine inductionHypothesis ?_ ?_ (keeps item List.mem_cons_self s next kept moved)
      · intro later member
        exact keeps later (List.mem_cons_of_mem _ member)
      · intro later member later' member'
        exact commute later (List.mem_cons_of_mem _ member) later' (List.mem_cons_of_mem _ member')
  | swap item item' items =>
    simp only [List.foldlM_cons, ← bind_assoc]
    rw [commute item' List.mem_cons_self item (List.mem_cons_of_mem _ List.mem_cons_self) s kept]
  | trans permuted permuted' inductionHypothesis inductionHypothesis' =>
    refine (inductionHypothesis keeps commute kept).trans (inductionHypothesis' ?_ ?_ kept)
    · intro item member
      exact keeps item (permuted.mem_iff.mpr member)
    · intro item member item' member'
      exact commute item (permuted.mem_iff.mpr member) item' (permuted.mem_iff.mpr member')

/-- Where every item writes one place of its own, each place reads back what was written. -/
theorem foldlM_writes {P V : Type} {step : S → X → Except Failure S} {place : X → P} {value : X → V}
    {read : S → P → Option V} (Kept : S → Prop) {items : List X}
    (each : ∀ item ∈ items, ∀ s, Kept s → ∃ s', step s item = .ok s' ∧ Kept s' ∧
      read s' (place item) = some (value item) ∧ ∀ p, p ≠ place item → read s' p = read s p)
    (distinct : (items.map place).Nodup) {s : S} (kept : Kept s) :
    ∃ s', items.foldlM step s = .ok s' ∧ Kept s' ∧
      (∀ item ∈ items, read s' (place item) = some (value item)) ∧
      ∀ p ∉ items.map place, read s' p = read s p := by
  induction items generalizing s with
  | nil => exact ⟨s, rfl, kept, by simp, fun _ _ => rfl⟩
  | cons item items inductionHypothesis =>
    obtain ⟨mid, moved, kept', own, others⟩ := each item List.mem_cons_self s kept
    rw [List.map_cons, List.nodup_cons] at distinct
    obtain ⟨s', ran, kept'', written, untouched⟩ := inductionHypothesis
      (fun later listed => each later (List.mem_cons_of_mem _ listed)) distinct.2 kept'
    refine ⟨s', ?_, kept'', ?_, ?_⟩
    · rw [List.foldlM_cons, moved]
      exact ran
    · refine List.forall_mem_cons.mpr ⟨?_, written⟩
      rw [untouched _ distinct.1, own]
    · intro p elsewhere
      rw [List.map_cons, List.mem_cons, not_or] at elsewhere
      rw [untouched p elsewhere.2, others p elsewhere.1]

end Folds

end ArmchairAnalyst.Except

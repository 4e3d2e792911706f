import ArmchairAnalyst.Library.Collections
import ArmchairAnalyst.Library.Fallible

/-!
# Work in batches

A list is cut into pieces, fallible jobs run window by window, and the results of each
window are appended in its order. Where all jobs succeed the windows leave no trace. The
results are then found by a test, or gathered in a table by key.
-/

namespace ArmchairAnalyst

variable {A B Failure : Type}

/-! ### Pieces of a list -/

def chunksFrom (size : Nat) : Nat → List A → List (List A)
  | 0, _ => []
  | fuel + 1, items =>
    if items.isEmpty then [] else items.take size :: chunksFrom size fuel (items.drop size)

/-- Consecutive pieces of a list. The last one may be shorter. -/
def chunks (size : Nat) (items : List A) : List (List A) := chunksFrom size items.length items

theorem flatten_chunksFrom {size : Nat} (positive : 0 < size) {fuel : Nat} {items : List A}
    (enough : items.length ≤ fuel) : (chunksFrom size fuel items).flatten = items := by
  induction fuel generalizing items with
  | zero => rw [List.eq_nil_of_length_eq_zero (Nat.le_zero.mp enough), chunksFrom, List.flatten_nil]
  | succ fuel inductionHypothesis =>
    unfold chunksFrom
    split
    case isTrue empty => rw [List.isEmpty_iff.mp empty, List.flatten_nil]
    case isFalse more =>
      have some : 0 < items.length := List.length_pos_iff.mpr (by simpa using more)
      rw [List.flatten_cons, inductionHypothesis (by rw [List.length_drop]; omega),
        List.take_append_drop]

theorem flatten_chunks {size : Nat} (positive : 0 < size) (items : List A) :
    (chunks size items).flatten = items :=
  flatten_chunksFrom positive le_rfl

theorem length_le_of_mem_chunksFrom {size fuel : Nat} {items chunk : List A}
    (listed : chunk ∈ chunksFrom size fuel items) : chunk.length ≤ size := by
  induction fuel generalizing items with
  | zero => cases listed
  | succ fuel inductionHypothesis =>
    unfold chunksFrom at listed
    split at listed
    case isTrue => cases listed
    case isFalse =>
      rcases List.mem_cons.mp listed with rfl | later
      · exact (List.length_take_le size items)
      · exact inductionHypothesis later

theorem length_le_of_mem_chunks {size : Nat} {items chunk : List A}
    (listed : chunk ∈ chunks size items) : chunk.length ≤ size :=
  length_le_of_mem_chunksFrom listed

/-! ### Windows of jobs -/

/-- Appends the results of finished jobs until one has failed. -/
def extendAll : List (Except Failure (List B)) → List B → Except Failure (List B)
  | [], results => .ok results
  | .ok more :: finished, results => extendAll finished (results ++ more)
  | .error failure :: _, _ => .error failure

/-- The jobs of a window have all run before its results are looked at. -/
def runWindows (run : A → Except Failure (List B)) :
    List (List A) → List B → Except Failure (List B)
  | [], results => .ok results
  | window :: windows, results =>
    match extendAll (window.map run) results with
    | .error failure => .error failure
    | .ok results => runWindows run windows results

theorem extendAll_map (run : A → Except Failure (List B)) (jobs : List A) (results : List B) :
    extendAll (jobs.map run) results =
      (jobs.mapM run).map (fun parts => results ++ parts.flatten) := by
  induction jobs generalizing results with
  | nil => simp [extendAll, Except.map, pure, Except.pure]
  | cons job jobs inductionHypothesis =>
    rw [List.map_cons, List.mapM_cons]
    cases ran : run job with
    | error failure => rfl
    | ok more =>
      rw [extendAll, inductionHypothesis]
      cases jobs.mapM run with
      | error failure => rfl
      | ok parts => simp [Except.map, bind, Except.bind, pure, Except.pure]

/-- The windows run the jobs one after the other. -/
theorem runWindows_eq (run : A → Except Failure (List B)) (windows : List (List A))
    (results : List B) :
    runWindows run windows results =
      (windows.flatten.mapM run).map (fun parts => results ++ parts.flatten) := by
  induction windows generalizing results with
  | nil => simp [runWindows, Except.map, pure, Except.pure]
  | cons window windows inductionHypothesis =>
    rw [runWindows, extendAll_map, List.flatten_cons, List.mapM_append]
    cases window.mapM run with
    | error failure => rfl
    | ok parts =>
      simp only [Except.map, inductionHypothesis]
      cases windows.flatten.mapM run with
      | error failure => rfl
      | ok later => simp [bind, Except.bind, pure, Except.pure]

theorem mapM_eq_ok_iff {C : Type} {run : A → Except Failure C} {jobs : List A} {values : List C} :
    jobs.mapM run = .ok values ↔ List.Forall₂ (fun job value => run job = .ok value) jobs values := by
  induction jobs generalizing values with
  | nil =>
    rw [List.mapM_nil, Except.pure_eq_ok_iff, List.forall₂_nil_left_iff]
    exact eq_comm
  | cons job jobs inductionHypothesis =>
    rw [List.mapM_cons, List.forall₂_cons_left_iff, Except.bind_eq_ok_iff]
    constructor
    · rintro ⟨value, ran, rest⟩
      obtain ⟨later, ranLater, joined⟩ := Except.bind_eq_ok_iff.mp rest
      exact ⟨value, later, ran, inductionHypothesis.mp ranLater,
        (Except.pure_eq_ok_iff.mp joined).symm⟩
    · rintro ⟨value, later, ran, ranLater, rfl⟩
      exact ⟨value, ran,
        Except.bind_eq_ok_iff.mpr ⟨later, inductionHypothesis.mpr ranLater, rfl⟩⟩

theorem mapM_ok {C : Type} {run : A → Except Failure C} {value : A → C} {jobs : List A}
    (succeed : ∀ job ∈ jobs, run job = .ok (value job)) : jobs.mapM run = .ok (jobs.map value) :=
  mapM_eq_ok_iff.mpr (List.forall₂_map_right_iff.mpr (List.forall₂_same.mpr succeed))

theorem mapM_error {C : Type} {run : A → Except Failure C} {jobs : List A} {job : A}
    (listed : job ∈ jobs) {failure : Failure} (failed : run job = .error failure) :
    ∃ failure', jobs.mapM run = .error failure' := by
  cases ran : jobs.mapM run with
  | error failure' => exact ⟨failure', rfl⟩
  | ok values =>
    obtain ⟨i, bound, rfl⟩ := List.getElem_of_mem listed
    have pairs := mapM_eq_ok_iff.mp ran
    have succeeded := pairs.get bound (pairs.length_eq ▸ bound)
    rw [List.get_eq_getElem, failed] at succeeded
    cases succeeded

/-! ### Answers found by a test -/

/-- The first element that passes a test is the only one that does. -/
theorem find?_eq_some_of_unique {test : A → Bool} {xs : List A} {x : A}
    (listed : x ∈ xs) (passes : test x = true) (unique : ∀ y ∈ xs, test y = true → y = x) :
    xs.find? test = some x := by
  cases found : xs.find? test with
  | none => exact absurd passes (List.find?_eq_none.mp found x listed)
  | some y => rw [unique y (List.mem_of_find?_eq_some found) (List.find?_some found)]

/-- A table of the keys that have a value. -/
theorem getElem?_ofList_filterMap {K V : Type} [Ord K] [Std.TransOrd K] [Std.LawfulEqOrd K]
    [DecidableEq K] {keys : List K} (distinct : keys.Nodup) (value : K → Option V) (k : K) :
    (Std.ExtTreeMap.ofList (keys.filterMap (fun key => (value key).map (fun v => (key, v))))
      compare : HashMap K V)[k]? = if k ∈ keys then value k else none := by
  have mem_entries (key : K) (v : V) :
      (key, v) ∈ keys.filterMap (fun key => (value key).map (fun v => (key, v))) ↔
        key ∈ keys ∧ value key = some v := by
    simp only [List.mem_filterMap, Option.map_eq_some_iff, Prod.mk.injEq]
    grind
  have apart : (keys.filterMap (fun key => (value key).map (fun v => (key, v)))).Pairwise
      (fun entry other => ¬compare entry.1 other.1 = .eq) := by
    refine List.pairwise_filterMap.mpr (distinct.imp ?_)
    simp only [Option.map_eq_some_iff, Std.LawfulEqOrd.compare_eq_iff_eq]
    grind
  cases found : if k ∈ keys then value k else none with
  | some v =>
    refine Std.ExtTreeMap.getElem?_ofList_of_mem Std.ReflCmp.compare_self apart
      ((mem_entries k v).mpr ?_)
    grind
  | none =>
    rw [HashMap.getElem?_eq_none_iff, Std.ExtTreeMap.mem_ofList, List.contains_iff_mem,
      List.mem_map]
    rintro ⟨⟨key, v⟩, listed, rfl⟩
    have entry := (mem_entries key v).mp listed
    grind

end ArmchairAnalyst

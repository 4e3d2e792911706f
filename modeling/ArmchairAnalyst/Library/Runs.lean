import Mathlib.Data.List.SplitBy

/-!
# Maximal runs

A loop that appends each element to the last run when it continues it, and opens
a run otherwise, computes the maximal runs of its input.
-/

namespace ArmchairAnalyst

variable {α : Type}

/-- Appends an element to the last run when it continues it. -/
def extendRuns (r : α → α → Bool) (runs : List (List α)) (x : α) : List (List α) :=
  match runs.getLast? with
  | some run =>
    match run.getLast? with
    | some last => if r last x then runs.dropLast ++ [run ++ [x]] else runs ++ [[x]]
    | none => runs ++ [[x]]
  | none => [[x]]

theorem extendRuns_concat (r : α → α → Bool) (runs : List (List α)) (run : List α)
    (last x : α) :
    extendRuns r (runs ++ [run ++ [last]]) x =
      if r last x then runs ++ [run ++ [last] ++ [x]] else runs ++ [run ++ [last]] ++ [[x]] := by
  simp [extendRuns]

/-- A non-empty list of non-empty runs, with its last run and the end of it in sight. -/
theorem runs_cases {runs : List (List α)} (nonempty : [] ∉ runs) :
    runs = [] ∨ ∃ older run last, runs = older ++ [run ++ [last]] := by
  rcases List.eq_nil_or_concat runs with rfl | ⟨older, run, rfl⟩
  · exact .inl rfl
  · rcases List.eq_nil_or_concat run with rfl | ⟨init, last, rfl⟩
    · simp at nonempty
    · exact .inr ⟨older, init, last, by simp⟩

theorem extendRuns_splitBy (r : α → α → Bool) (xs : List α) (x : α) :
    extendRuns r (xs.splitBy r) x = (xs ++ [x]).splitBy r := by
  rcases runs_cases (List.nil_notMem_splitBy r xs) with empty | ⟨older, run, last, split⟩
  · rw [empty, List.splitBy_eq_nil.mp empty]
    rfl
  · obtain ⟨flat, nonempty, chains, apart⟩ := List.splitBy_eq_iff.mp split
    rw [split, extendRuns_concat]
    symm
    by_cases continues : r last x
    · rw [if_pos continues, List.splitBy_eq_iff]
      refine ⟨by rw [flat]; simp, by simpa using nonempty, ?_, ?_⟩
      · intro chain membership
        rcases List.mem_append.mp membership with earlier | final
        · exact chains chain (List.mem_append_left _ earlier)
        · obtain rfl := List.mem_singleton.mp final
          apply List.isChain_append.mpr
          refine ⟨chains _ (by simp), by simp, ?_⟩
          simpa using continues
      · rw [List.isChain_append] at apart ⊢
        obtain ⟨olderApart, -, between⟩ := apart
        refine ⟨olderApart, by simp, ?_⟩
        intro before listed after final
        obtain ⟨present, open_, separated⟩ := between before listed (run ++ [last]) (by simp)
        obtain rfl : run ++ [last] ++ [x] = after := by simpa using final
        refine ⟨present, by simp, ?_⟩
        rwa [List.head_append_of_ne_nil (by simp)]
    · rw [if_neg continues, List.splitBy_append_cons, split]
      · rfl
      · intro end_ final
        rw [flat] at final
        obtain rfl : last = end_ := by simpa using final
        simpa using continues

/-- A relation holds along a list as soon as it holds along each maximal run and
between elements that do not continue each other. -/
theorem isChain_iff_splitBy {r : α → α → Bool} {R : α → α → Prop}
    (apart : ∀ a b, r a b = false → R a b) (xs : List α) :
    xs.IsChain R ↔ ∀ run ∈ xs.splitBy r, run.IsChain R := by
  have flat := List.isChain_flatten (R := R) (List.nil_notMem_splitBy r xs)
  rw [List.flatten_splitBy] at flat
  rw [flat]
  apply and_iff_left
  apply (List.isChain_getLast_head_splitBy r xs).imp
  intro before after separated last final first initial
  obtain ⟨nonempty, nonempty', unrelated⟩ := separated
  apply apart
  rwa [List.getLast_of_mem_getLast? final, List.head_of_mem_head? initial] at unrelated

/-- Along a run of successors the elements count up from the first one. -/
theorem isChain_succ_iff (value : α → Nat) (first : α) (rest : List α) :
    (first :: rest).IsChain (fun a b => value b = value a + 1) ↔
      ∀ (i : Nat) (x : α), (first :: rest)[i]? = some x → value x = value first + i := by
  induction rest generalizing first with
  | nil =>
    refine iff_of_true (by simp) ?_
    intro i x found
    cases i with
    | zero => simp_all
    | succ i => simp at found
  | cons second rest inductionHypothesis =>
    rw [List.isChain_cons_cons, inductionHypothesis]
    constructor
    · intro chain i x found
      cases i with
      | zero => simp_all
      | succ i =>
        have later := chain.2 i x (by simpa using found)
        omega
    · intro counts
      have next := counts 1 second rfl
      refine ⟨next, ?_⟩
      intro i x found
      have later := counts (i + 1) x (by simpa using found)
      omega

end ArmchairAnalyst

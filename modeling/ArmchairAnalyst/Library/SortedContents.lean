import Mathlib.Data.List.Nodup
import Mathlib.Data.List.Perm.Basic
import Mathlib.Order.Defs.Unbundled

/-!
# Sorted listings

A list that is strictly sorted is determined by what is on it. Listings of contents of
which one comes before the other are listed one after the other.
-/

namespace ArmchairAnalyst

variable {B : Type} {lt : B → B → Prop} {contents contents' : B → Prop} {list list' : List B}

/-- The list holds just these elements, each once and in strict order. -/
structure Lists (lt : B → B → Prop) (contents : B → Prop) (list : List B) : Prop where
  sorted : list.Pairwise lt
  mem_iff : ∀ b, b ∈ list ↔ contents b

namespace Lists

theorem nil (empty : ∀ b, ¬ contents b) : Lists lt contents [] where
  sorted := .nil
  mem_iff b := iff_of_false List.not_mem_nil (empty b)

theorem congr (lists : Lists lt contents list) (same : ∀ b, contents b ↔ contents' b) :
    Lists lt contents' list where
  sorted := lists.sorted
  mem_iff b := (lists.mem_iff b).trans (same b)

theorem nodup [Std.Asymm lt] (lists : Lists lt contents list) : list.Nodup := by
  apply lists.sorted.imp
  rintro a b before rfl
  exact Std.Asymm.asymm a a before before

/-- There is one listing of the same contents. -/
theorem unique [Std.Asymm lt] (lists : Lists lt contents list)
    (lists' : Lists lt contents list') : list = list' := by
  have perm : list.Perm list' :=
    (List.perm_ext_iff_of_nodup lists.nodup lists'.nodup).mpr
      (fun b => (lists.mem_iff b).trans (lists'.mem_iff b).symm)
  apply perm.eq_of_pairwise _ lists.sorted lists'.sorted
  exact fun a b _ _ before after => absurd after (Std.Asymm.asymm _ _ before)

theorem append (lists : Lists lt contents list) (lists' : Lists lt contents' list')
    (before : ∀ a b, contents a → contents' b → lt a b) :
    Lists lt (fun b => contents b ∨ contents' b) (list ++ list') where
  sorted := by
    rw [List.pairwise_append]
    refine ⟨lists.sorted, lists'.sorted, fun a membership b membership' => ?_⟩
    exact before a b ((lists.mem_iff a).mp membership) ((lists'.mem_iff b).mp membership')
  mem_iff b := by rw [List.mem_append, lists.mem_iff, lists'.mem_iff]

/-- Sorting a list of different elements lists them. -/
theorem mergeSort {le : B → B → Bool} (trans : ∀ a b c, le a b → le b c → le a c)
    (total : ∀ a b, le a b || le b a) (list : List B)
    (strict : list.Pairwise (fun a b => (le a b → lt a b) ∧ (le b a → lt b a))) :
    Lists lt (· ∈ list) (list.mergeSort le) where
  sorted := by
    have ordered := List.pairwise_mergeSort trans total list
    have strict' : (list.mergeSort le).Pairwise
        (fun a b => (le a b → lt a b) ∧ (le b a → lt b a)) :=
      (List.mergeSort_perm list le).symm.pairwise strict (fun both => both.symm)
    exact ordered.imp₂ (fun a b before both => both.1 before) strict'
  mem_iff b := (List.mergeSort_perm list le).mem_iff

end Lists

end ArmchairAnalyst

import Mathlib

/-!
# Folding items into groups

A list of entries with distinct keys, into which items are folded one after the other:
each updates the entry of its key, or opens it from a default. Every entry is then the
fold of the items of its key, in their order.
-/

namespace ArmchairAnalyst

variable {K A X : Type} [DecidableEq K]

/-- Updates the entry of a key, or opens it at the end. -/
def upsert (initial : A) (update : A → A) (key : K) : List (K × A) → List (K × A)
  | [] => [(key, update initial)]
  | (k, a) :: entries =>
    if k = key then (k, update a) :: entries
    else (k, a) :: upsert initial update key entries

def groupedFold (initial : A) (add : A → X → A) (items : List (K × X)) : List (K × A) :=
  items.foldl (fun entries item => upsert initial (add · item.2) item.1 entries) []

/-- The items of one key, in their order. -/
def itemsOf (items : List (K × X)) (key : K) : List X :=
  (items.filter (fun item => item.1 = key)).map Prod.snd

theorem itemsOf_concat (items : List (K × X)) (item : K × X) (key : K) :
    itemsOf (items ++ [item]) key =
      itemsOf items key ++ if item.1 = key then [item.2] else [] := by
  by_cases same : item.1 = key <;> simp [itemsOf, same]

theorem mem_itemsOf {items : List (K × X)} {key : K} {x : X} :
    x ∈ itemsOf items key ↔ (key, x) ∈ items := by
  constructor
  · intro membership
    obtain ⟨item, listed, rfl⟩ := List.mem_map.mp membership
    obtain ⟨member, same⟩ := List.mem_filter.mp listed
    obtain rfl := of_decide_eq_true same
    exact member
  · intro membership
    exact List.mem_map.mpr ⟨(key, x), List.mem_filter.mpr ⟨membership, by simp⟩, rfl⟩

section Upsert

variable {initial : A} {update : A → A} {key : K} {entries : List (K × A)}

theorem mem_keys_upsert {k : K} :
    k ∈ (upsert initial update key entries).map Prod.fst ↔
      k = key ∨ k ∈ entries.map Prod.fst := by
  induction entries with
  | nil => simp [upsert]
  | cons entry entries inductionHypothesis =>
    obtain ⟨first, a⟩ := entry
    unfold upsert
    split
    case isTrue same => simp [same]
    case isFalse different =>
      simp only [List.map_cons, List.mem_cons, inductionHypothesis]
      tauto

theorem nodup_keys_upsert (distinct : (entries.map Prod.fst).Nodup) :
    ((upsert initial update key entries).map Prod.fst).Nodup := by
  induction entries with
  | nil => simp [upsert]
  | cons entry entries inductionHypothesis =>
    obtain ⟨first, a⟩ := entry
    obtain ⟨fresh, rest⟩ := List.nodup_cons.mp distinct
    unfold upsert
    split
    case isTrue same => exact distinct
    case isFalse different =>
      refine List.nodup_cons.mpr ⟨?_, inductionHypothesis rest⟩
      intro repeated
      exact (mem_keys_upsert.mp repeated).elim different fresh

theorem mem_upsert_of_ne {k : K} {a : A} (different : k ≠ key) :
    (k, a) ∈ upsert initial update key entries ↔ (k, a) ∈ entries := by
  induction entries with
  | nil => simp [upsert, different]
  | cons entry entries inductionHypothesis =>
    obtain ⟨first, b⟩ := entry
    unfold upsert
    split
    case isTrue same =>
      subst same
      simp [different]
    case isFalse => simp [inductionHypothesis]

theorem mem_upsert_self {a : A} (distinct : (entries.map Prod.fst).Nodup) :
    (key, a) ∈ upsert initial update key entries ↔
      (∃ b, (key, b) ∈ entries ∧ a = update b) ∨
        key ∉ entries.map Prod.fst ∧ a = update initial := by
  induction entries with
  | nil => simp [upsert]
  | cons entry entries inductionHypothesis =>
    obtain ⟨first, b⟩ := entry
    obtain ⟨fresh, rest⟩ := List.nodup_cons.mp distinct
    unfold upsert
    split
    case isTrue same =>
      subst same
      have absent : ∀ c, (first, c) ∉ entries := by
        intro c listed
        exact fresh (List.mem_map.mpr ⟨_, listed, rfl⟩)
      simp [absent]
    case isFalse different =>
      have apart : key ≠ first := Ne.symm different
      simp only [List.mem_cons, Prod.mk.injEq, apart, false_and, false_or,
        inductionHypothesis rest, List.map_cons]

end Upsert

/-- Every entry is the fold of the items of its key. -/
theorem groupedFold_spec (initial : A) (add : A → X → A) (items : List (K × X)) :
    ((groupedFold initial add items).map Prod.fst).Nodup ∧
      ∀ key a, (key, a) ∈ groupedFold initial add items ↔
        itemsOf items key ≠ [] ∧ a = (itemsOf items key).foldl add initial := by
  induction items using List.reverseRecOn with
  | nil => simp [groupedFold, itemsOf]
  | append_singleton items item inductionHypothesis =>
    obtain ⟨distinct, folded⟩ := inductionHypothesis
    have last : groupedFold initial add (items ++ [item]) =
        upsert initial (add · item.2) item.1 (groupedFold initial add items) := by
      simp [groupedFold, List.foldl_append]
    rw [last]
    refine ⟨nodup_keys_upsert distinct, ?_⟩
    intro key a
    rw [itemsOf_concat]
    by_cases same : item.1 = key
    · subst same
      have present : item.1 ∈ (groupedFold initial add items).map Prod.fst ↔
          itemsOf items item.1 ≠ [] := by
        constructor
        · intro listed
          obtain ⟨entry, member, sameKey⟩ := List.mem_map.mp listed
          exact ((folded item.1 entry.2).mp (sameKey ▸ member)).1
        · intro nonempty
          exact List.mem_map.mpr ⟨_, (folded item.1 _).mpr ⟨nonempty, rfl⟩, rfl⟩
      rw [mem_upsert_self distinct, present]
      simp only [folded, if_true]
      by_cases empty : itemsOf items item.1 = []
      · simp [empty]
      · simp [empty, List.foldl_append]
    · rw [mem_upsert_of_ne (Ne.symm same), folded]
      simp [same]

theorem groupedFold_nodup (initial : A) (add : A → X → A) (items : List (K × X)) :
    ((groupedFold initial add items).map Prod.fst).Nodup :=
  (groupedFold_spec initial add items).1

theorem mem_groupedFold {initial : A} {add : A → X → A} {items : List (K × X)} {key : K} {a : A} :
    (key, a) ∈ groupedFold initial add items ↔
      itemsOf items key ≠ [] ∧ a = (itemsOf items key).foldl add initial :=
  (groupedFold_spec initial add items).2 key a

/-- Looking a key up falls back on the default when no item has it. -/
theorem lookup_groupedFold [BEq K] [LawfulBEq K] (initial : A) (add : A → X → A)
    (items : List (K × X)) (key : K) :
    ((groupedFold initial add items).lookup key).getD initial =
      (itemsOf items key).foldl add initial := by
  cases found : (groupedFold initial add items).lookup key with
  | some a =>
    have listed : (key, a) ∈ groupedFold initial add items := by
      obtain ⟨before, after, split, -⟩ := List.lookup_eq_some_iff.mp found
      rw [split]
      simp
    exact (mem_groupedFold.mp listed).2
  | none =>
    have absent := List.lookup_eq_none_iff.mp found
    have empty : itemsOf items key = [] := by
      by_contra nonempty
      have listed := (@mem_groupedFold _ _ _ _ initial add items key _).mpr ⟨nonempty, rfl⟩
      simpa using absent _ listed
    simp [empty]

end ArmchairAnalyst

import Mathlib

/-!
# Ordered maps and sets

Finite maps and sets over linearly ordered keys. Two maps are equal when their
lookups are, so the order in which entries were inserted leaves no trace.
-/

namespace ArmchairAnalyst

open Std (TransOrd LawfulEqOrd)

abbrev HashMap (K V : Type) [Ord K] := Std.ExtTreeMap K V compare

abbrev BTreeMap (K V : Type) [Ord K] := Std.ExtTreeMap K V compare

abbrev HashSet (K : Type) [Ord K] := Std.ExtTreeSet K compare

section

variable {K V : Type} [Ord K] [TransOrd K] [LawfulEqOrd K]

namespace HashSet

/-- Collect the elements of a list, as an iterator does into a set. -/
def collect (xs : List K) : HashSet K := Std.ExtTreeSet.ofList xs compare

@[simp, grind =] theorem mem_collect [DecidableEq K] (xs : List K) (k : K) :
    k ∈ collect xs ↔ k ∈ xs := by
  simp [collect, Std.ExtTreeSet.mem_ofList]

theorem nodup_toList [DecidableEq K] (s : HashSet K) : s.toList.Nodup := by
  have distinct := Std.ExtTreeSet.distinct_toList (t := s)
  exact distinct.imp (fun different same => different (by simp [same]))

theorem length_toList_collect_le [DecidableEq K] (xs : List K) :
    (collect xs).toList.length ≤ xs.length :=
  ((nodup_toList (collect xs)).subperm (fun k membership => by simpa using membership)).length_le

theorem toList_eq_nil_iff [DecidableEq K] (s : HashSet K) : s.toList = [] ↔ ∀ k, k ∉ s := by
  rw [List.eq_nil_iff_forall_not_mem]
  simp

end HashSet

namespace HashMap

/-- The key set of a map. -/
def keySet (m : HashMap K V) : HashSet K := HashSet.collect m.keys

@[simp, grind =] theorem mem_keySet [DecidableEq K] (m : HashMap K V) (k : K) :
    k ∈ keySet m ↔ k ∈ m := by
  simp [keySet]

omit [LawfulEqOrd K] in
theorem mem_iff_exists (m : HashMap K V) (k : K) : k ∈ m ↔ ∃ v, m[k]? = some v := by
  rw [Std.ExtTreeMap.mem_iff_isSome_getElem?, Option.isSome_iff_exists]

omit [LawfulEqOrd K] in
theorem getElem?_eq_none_iff (m : HashMap K V) (k : K) : m[k]? = none ↔ k ∉ m := by
  rw [Std.ExtTreeMap.mem_iff_isSome_getElem?, Bool.not_eq_true, Option.isSome_eq_false_iff,
    Option.isNone_iff_eq_none]

theorem getElem?_insert [DecidableEq K] (m : HashMap K V) (k other : K) (v : V) :
    (m.insert k v)[other]? = if other = k then some v else m[other]? := by
  rw [Std.ExtTreeMap.getElem?_insert]
  simp only [LawfulEqOrd.compare_eq_iff_eq, eq_comm (a := k)]

theorem getElem?_erase [DecidableEq K] (m : HashMap K V) (k other : K) :
    (m.erase k)[other]? = if other = k then none else m[other]? := by
  rw [Std.ExtTreeMap.getElem?_erase]
  simp only [LawfulEqOrd.compare_eq_iff_eq, eq_comm (a := k)]

theorem mem_toList_iff (m : HashMap K V) (entry : K × V) :
    entry ∈ m.toList ↔ m[entry.1]? = some entry.2 :=
  Std.ExtTreeMap.mem_toList_iff_getElem?_eq_some

/-- The values of a map, in key order. -/
def values (m : HashMap K V) : List V := m.toList.map Prod.snd

@[simp] theorem mem_values (m : HashMap K V) (v : V) :
    v ∈ values m ↔ ∃ k : K, m[k]? = some v := by
  constructor
  · intro membership
    obtain ⟨entry, listed, rfl⟩ := List.mem_map.mp membership
    exact ⟨entry.1, (mem_toList_iff m entry).mp listed⟩
  · rintro ⟨k, found⟩
    exact List.mem_map.mpr ⟨(k, v), (mem_toList_iff m (k, v)).mpr found, rfl⟩

theorem ext_getElem? {m m' : HashMap K V} (same : ∀ k : K, m[k]? = m'[k]?) : m = m' :=
  Std.ExtTreeMap.ext_getElem? (fun k => same k)

@[simp] theorem empty_union (m : HashMap K V) : (∅ : HashMap K V) ∪ m = m :=
  ext_getElem? (fun k => by simp [Std.ExtTreeMap.getElem?_union])

@[simp] theorem union_empty (m : HashMap K V) : m ∪ (∅ : HashMap K V) = m :=
  ext_getElem? (fun k => by simp [Std.ExtTreeMap.getElem?_union])

theorem union_assoc (m m' m'' : HashMap K V) : m ∪ m' ∪ m'' = m ∪ (m' ∪ m'') :=
  ext_getElem? (fun k => by simp [Std.ExtTreeMap.getElem?_union, Option.or_assoc])

theorem keys_nodup [DecidableEq K] (m : HashMap K V) : m.keys.Nodup := by
  have distinct := Std.ExtTreeMap.distinct_keys (t := m)
  exact distinct.imp (fun different same => different (by simp [same]))

theorem keys_erase_perm [DecidableEq K] {m : HashMap K V} {k : K} (present : k ∈ m) :
    m.keys.Perm (k :: (m.erase k).keys) := by
  have distinct : (k :: (m.erase k).keys).Nodup :=
    List.nodup_cons.mpr ⟨by simp [Std.ExtTreeMap.mem_keys], keys_nodup _⟩
  rw [List.perm_ext_iff_of_nodup (keys_nodup m) distinct]
  intro other
  rw [List.mem_cons, Std.ExtTreeMap.mem_keys, Std.ExtTreeMap.mem_keys, Std.ExtTreeMap.mem_erase]
  simp only [ne_eq, LawfulEqOrd.compare_eq_iff_eq]
  grind

theorem keys_insert_perm [DecidableEq K] {m : HashMap K V} {k : K} (absent : k ∉ m) (v : V) :
    (m.insert k v).keys.Perm (k :: m.keys) := by
  have distinct : (k :: m.keys).Nodup :=
    List.nodup_cons.mpr ⟨by simpa [Std.ExtTreeMap.mem_keys] using absent, keys_nodup m⟩
  rw [List.perm_ext_iff_of_nodup (keys_nodup _) distinct]
  intro other
  rw [List.mem_cons, Std.ExtTreeMap.mem_keys, Std.ExtTreeMap.mem_keys, Std.ExtTreeMap.mem_insert]
  simp only [LawfulEqOrd.compare_eq_iff_eq]
  grind

/-- A restriction of a map to the keys and values that pass a test. -/
@[simp, grind =] theorem getElem?_retain (m : HashMap K V) (keep : K → V → Bool) (k : K) :
    (m.filter keep)[k]? = m[k]?.filter (keep k) := by
  grind

end HashMap

end

/-- A list in strict key order is what sorting any of its permutations by key gives. -/
theorem insertionSort_of_perm {A K : Type} [Ord K] [TransOrd K] (key : A → K)
    {xs sorted : List A} (perm : xs.Perm sorted)
    (strict : sorted.Pairwise (fun a b => compare (key a) (key b) = .lt)) :
    xs.insertionSort (fun a b => (compare (key a) (key b)).isLE) = sorted := by
  have total : Std.Total (fun a b : A => (compare (key a) (key b)).isLE = true) := by
    refine ⟨fun a b => ?_⟩
    rw [(Std.OrientedCmp.eq_swap : compare (key b) (key a) = (compare (key a) (key b)).swap)]
    cases compare (key a) (key b) <;> simp
  have transitive : IsTrans A (fun a b => (compare (key a) (key b)).isLE = true) :=
    ⟨fun _ _ _ earlier later => TransOrd.isLE_trans earlier later⟩
  have symmetric : Std.Symm (fun a b : A =>
      compare (key a) (key b) = .lt ∨ compare (key b) (key a) = .lt) := ⟨fun _ _ => Or.symm⟩
  have apart := (strict.imp Or.inl : sorted.Pairwise (fun a b =>
    compare (key a) (key b) = .lt ∨ compare (key b) (key a) = .lt)).forall
  have permuted := (List.perm_insertionSort
    (fun a b : A => (compare (key a) (key b)).isLE = true) xs).trans perm
  refine permuted.eq_of_pairwise (fun a b listed listed' before after => ?_)
    (List.pairwise_insertionSort _ _) (strict.imp (fun lower => by rw [lower]; rfl))
  by_contra different
  rcases apart (permuted.mem_iff.mp listed) listed' different with lower | lower
  · exact Std.OrientedCmp.not_isLE_of_lt lower after
  · exact Std.OrientedCmp.not_isLE_of_lt lower before

/-- The longest prefix that passes a test only depends on the test's values there. -/
theorem takeWhile_congr {A : Type} {test test' : A → Bool} {xs : List A}
    (agree : ∀ x ∈ xs, test x = test' x) : xs.takeWhile test = xs.takeWhile test' := by
  induction xs with
  | nil => rfl
  | cons x xs inductionHypothesis =>
    rw [List.takeWhile_cons, List.takeWhile_cons, agree x List.mem_cons_self,
      inductionHypothesis (fun y membership => agree y (List.mem_cons_of_mem _ membership))]

end ArmchairAnalyst

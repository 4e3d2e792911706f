import ArmchairAnalyst.Library.Collections

/-!
# Maps keyed by their own values

Values filed under a key they carry. Merging batches of such values is filing them
all at once, and when values of one key agree the order of the batches is lost.
-/

namespace ArmchairAnalyst

variable {K V : Type} [Ord K] [Std.TransOrd K]

/-- Files each value under its key; of two values with one key the later one stays. -/
def keyedBy (key : V → K) (values : List V) : BTreeMap K V :=
  Std.ExtTreeMap.ofList (values.map (fun value => (key value, value))) compare

/-- Every value is filed under its own key. -/
def Keyed (key : V → K) (map : BTreeMap K V) : Prop :=
  ∀ (k : K) (value : V), map[k]? = some value → key value = k

/-- Values with one key are the same value. -/
def AgreeOn (key : V → K) (values : List V) : Prop :=
  ∀ value ∈ values, ∀ value' ∈ values, key value = key value' → value = value'

/-- An entry that is only inserted where its key is new keeps what was there. -/
theorem HashMap.getElem?_insertIfNew [Std.LawfulEqOrd K] [DecidableEq K] (m : HashMap K V)
    (k other : K) (v : V) :
    (m.insertIfNew k v)[other]? = if other = k then m[k]?.or (some v) else m[other]? := by
  rw [Std.ExtTreeMap.getElem?_insertIfNew]
  simp only [Std.LawfulEqOrd.compare_eq_iff_eq, ← HashMap.getElem?_eq_none_iff]
  by_cases same : other = k
  · subst same
    cases m[other]? <;> simp
  · simp [same, Ne.symm same]

section Files

variable (key : V → K)

omit [Std.TransOrd K] in
@[simp] theorem keyedBy_nil : keyedBy key [] = ∅ := rfl

theorem keyedBy_eq_foldl (values : List V) :
    keyedBy key values =
      values.foldl (fun map value => map.insert (key value) value) ∅ := by
  rw [keyedBy, Std.ExtTreeMap.ofList_eq_insertMany_empty,
    Std.ExtTreeMap.insertMany_list_eq_foldl, List.foldl_map]

theorem keyedBy_concat (values : List V) (last : V) :
    keyedBy key (values ++ [last]) = (keyedBy key values).insert (key last) last := by
  rw [keyedBy_eq_foldl, keyedBy_eq_foldl, List.foldl_append]
  rfl

variable [Std.LawfulEqOrd K]

theorem getElem?_keyedBy_concat [DecidableEq K] (values : List V) (last : V) (k : K) :
    (keyedBy key (values ++ [last]))[k]? =
      if k = key last then some last else (keyedBy key values)[k]? := by
  rw [keyedBy_concat, HashMap.getElem?_insert]

/-- Of the values with one key the last one is filed. -/
theorem getElem?_keyedBy_eq_find? [DecidableEq K] (values : List V) (k : K) :
    (keyedBy key values)[k]? = values.reverse.find? (fun value => decide (key value = k)) := by
  induction values using List.reverseRecOn with
  | nil => simp
  | append_singleton values last inductionHypothesis =>
    rw [getElem?_keyedBy_concat, inductionHypothesis, List.reverse_concat, List.find?_cons]
    by_cases same : k = key last
    · simp [same]
    · simp [same, Ne.symm same]

theorem keyed_keyedBy (values : List V) : Keyed key (keyedBy key values) := by
  classical
  induction values using List.reverseRecOn with
  | nil =>
    intro k value found
    simp at found
  | append_singleton values last inductionHypothesis =>
    intro k value found
    rw [getElem?_keyedBy_concat] at found
    split at found
    · rename_i same
      rw [← Option.some.inj found, same]
    · exact inductionHypothesis k value found

/-- What is filed is among the values. -/
theorem mem_of_keyedBy {values : List V} {k : K} {value : V}
    (found : (keyedBy key values)[k]? = some value) : value ∈ values := by
  classical
  induction values using List.reverseRecOn with
  | nil => simp at found
  | append_singleton values last inductionHypothesis =>
    rw [getElem?_keyedBy_concat] at found
    split at found
    · rw [← Option.some.inj found]
      exact List.mem_append_right _ (List.mem_singleton_self _)
    · exact List.mem_append_left _ (inductionHypothesis found)

/-- Every value leaves some value under its key. -/
theorem isSome_keyedBy {values : List V} {value : V} (membership : value ∈ values) :
    (keyedBy key values)[key value]?.isSome := by
  classical
  induction values using List.reverseRecOn with
  | nil => exact absurd membership List.not_mem_nil
  | append_singleton values last inductionHypothesis =>
    rw [getElem?_keyedBy_concat]
    split
    · rfl
    · rename_i distinct
      rcases List.mem_append.mp membership with earlier | same
      · exact inductionHypothesis earlier
      · rw [List.mem_singleton.mp same] at distinct
        exact absurd rfl distinct

theorem keyedBy_append (first second : List V) :
    keyedBy key (first ++ second) = keyedBy key first ∪ keyedBy key second := by
  classical
  apply HashMap.ext_getElem?
  intro k
  induction second using List.reverseRecOn with
  | nil => simp
  | append_singleton second last inductionHypothesis =>
    rw [← List.append_assoc, getElem?_keyedBy_concat, inductionHypothesis,
      Std.ExtTreeMap.getElem?_union, Std.ExtTreeMap.getElem?_union, getElem?_keyedBy_concat]
    split <;> simp

end Files

variable {key : V → K} [Std.LawfulEqOrd K]

/-- Where values agree, the filed values are exactly the given ones. -/
theorem getElem?_keyedBy {values : List V} (agree : AgreeOn key values) (k : K) (value : V) :
    (keyedBy key values)[k]? = some value ↔ value ∈ values ∧ key value = k := by
  constructor
  · intro found
    exact ⟨mem_of_keyedBy key found, keyed_keyedBy key values k value found⟩
  · rintro ⟨membership, rfl⟩
    obtain ⟨filed, found⟩ := Option.isSome_iff_exists.mp (isSome_keyedBy key membership)
    have same := keyed_keyedBy key values _ _ found
    rw [found, agree filed (mem_of_keyedBy key found) value membership same]

/-- Where values agree, the order in which they are filed does not matter. -/
theorem keyedBy_congr {values values' : List V} (agree : AgreeOn key values)
    (same : ∀ value, value ∈ values ↔ value ∈ values') :
    keyedBy key values = keyedBy key values' := by
  have agree' : AgreeOn key values' := by
    intro value membership value' membership'
    exact agree value ((same value).mpr membership) value' ((same value').mpr membership')
  apply HashMap.ext_getElem?
  intro k
  apply Option.ext
  intro value
  rw [getElem?_keyedBy agree, getElem?_keyedBy agree', same]

omit [Std.LawfulEqOrd K] in
theorem Keyed.empty : Keyed key (∅ : BTreeMap K V) := by
  intro k value found
  simp at found

omit [Std.LawfulEqOrd K] in
theorem Keyed.union {map map' : BTreeMap K V} (keyed : Keyed key map) (keyed' : Keyed key map') :
    Keyed key (map ∪ map') := by
  intro k value found
  rw [Std.ExtTreeMap.getElem?_union] at found
  rcases Option.or_eq_some_iff.mp found with right | ⟨-, left⟩
  · exact keyed' k value right
  · exact keyed k value left

/-- Filing the values of a keyed map again gives the map. -/
theorem Keyed.keyedBy_values {map : BTreeMap K V} (keyed : Keyed key map) :
    keyedBy key (HashMap.values map) = map := by
  have agree : AgreeOn key (HashMap.values map) := by
    intro value membership value' membership' same
    obtain ⟨k, found⟩ := (HashMap.mem_values map value).mp membership
    obtain ⟨k', found'⟩ := (HashMap.mem_values map value').mp membership'
    have keys : k = k' := by rw [← keyed k value found, ← keyed k' value' found', same]
    rw [keys, found'] at found
    exact (Option.some.inj found).symm
  apply HashMap.ext_getElem?
  intro k
  apply Option.ext
  intro value
  rw [getElem?_keyedBy agree, HashMap.mem_values]
  constructor
  · rintro ⟨⟨k', found⟩, rfl⟩
    rw [keyed k' value found]
    exact found
  · intro found
    exact ⟨⟨k, found⟩, keyed k value found⟩

/-- The values of a keyed map come in the order of their keys. -/
theorem Keyed.pairwise_values {map : BTreeMap K V} (keyed : Keyed key map) :
    (HashMap.values map).Pairwise (fun value value' => compare (key value) (key value') = .lt) := by
  have ordered := Std.ExtTreeMap.ordered_keys_toList (t := map)
  have own : ∀ entry ∈ map.toList, key entry.2 = entry.1 := by
    intro entry listed
    exact keyed entry.1 entry.2 ((HashMap.mem_toList_iff map entry).mp listed)
  unfold HashMap.values
  rw [List.pairwise_map]
  apply ordered.imp_of_mem
  intro entry entry' listed listed' before
  rwa [own entry listed, own entry' listed']

/-! ### Groups -/

/-- The values of each group, in the order in which they come. -/
def groupedBy (key : V → K) (values : List V) : BTreeMap K (List V) :=
  values.foldl (fun groups value =>
    groups.insert (key value) ((groups[key value]?).getD [] ++ [value])) ∅

omit [Std.LawfulEqOrd K] in
theorem groupedBy_concat (key : V → K) (values : List V) (last : V) :
    groupedBy key (values ++ [last]) = (groupedBy key values).insert (key last)
      (((groupedBy key values)[key last]?).getD [] ++ [last]) := by
  rw [groupedBy, List.foldl_append]
  rfl

theorem mem_groupedBy [DecidableEq K] {key : V → K} {values : List V} {k : K}
    {value : V} :
    (∃ group, (groupedBy key values)[k]? = some group ∧ value ∈ group) ↔
      value ∈ values ∧ key value = k := by
  induction values using List.reverseRecOn with
  | nil => simp [groupedBy]
  | append_singleton values last inductionHypothesis =>
    rw [groupedBy_concat, HashMap.getElem?_insert]
    by_cases same : k = key last
    · subst same
      rw [if_pos rfl]
      simp only [Option.some.injEq, exists_eq_left', List.mem_append, List.mem_singleton,
        or_and_right]
      refine or_congr ?_ ?_
      · rw [← inductionHypothesis]
        cases (groupedBy key values)[key last]? <;> simp
      · constructor
        · rintro rfl
          exact ⟨rfl, rfl⟩
        · exact And.left
    · rw [if_neg same, inductionHypothesis, List.mem_append, List.mem_singleton, or_and_right]
      constructor
      · exact .inl
      · rintro (earlier | ⟨rfl, own⟩)
        · exact earlier
        · exact absurd own.symm same

/-- Files what each key is resolved to. -/
def resolveInto (resolve : K → Option V) (map : HashMap K V) (keys : List K) : HashMap K V :=
  keys.foldl (fun map key =>
    match resolve key with
    | some value => map.insert key value
    | none => map) map

theorem getElem?_resolveInto [DecidableEq K] (resolve : K → Option V)
    (map : HashMap K V) (keys : List K) (k : K) :
    (resolveInto resolve map keys)[k]? =
      if k ∈ keys then (resolve k).or map[k]? else map[k]? := by
  induction keys generalizing map with
  | nil => rfl
  | cons key keys inductionHypothesis =>
    rw [resolveInto, List.foldl_cons, ← resolveInto, inductionHypothesis]
    cases resolved : resolve key with
    | none =>
      by_cases same : k = key
      · subst same
        simp [resolved]
      · simp [same]
    | some value =>
      rw [HashMap.getElem?_insert]
      by_cases same : k = key
      · subst same
        simp [resolved]
      · simp [same]

end ArmchairAnalyst

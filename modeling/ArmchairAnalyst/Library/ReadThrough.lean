import ArmchairAnalyst.Library.Batches

/-!
# Reading through a cache

What is asked for is answered from a cache where it holds an answer and from an oracle
otherwise. A cache that holds answers of the oracle leaves no trace in what is returned.
-/

namespace ArmchairAnalyst

open Std (TransOrd LawfulEqOrd)

variable {K V Failure : Type} [Ord K] [TransOrd K] [LawfulEqOrd K]

/-- The answers of an oracle to some keys. -/
def answersTo {A : Type} (oracle : K → Option A) (keys : HashSet K) : HashMap K A :=
  Std.ExtTreeMap.ofList (keys.toList.filterMap (fun key =>
    (oracle key).map (fun answer => (key, answer)))) compare

theorem getElem?_answersTo {A : Type} [DecidableEq K] (oracle : K → Option A) (keys : HashSet K)
    (key : K) : (answersTo oracle keys)[key]? = if key ∈ keys then oracle key else none := by
  rw [answersTo, getElem?_ofList_filterMap (HashSet.nodup_toList keys)]
  simp only [Std.ExtTreeSet.mem_toList]

/-- What is held, an oracle has answered. -/
def Sound (oracle : K → Option (Except Failure V)) (held : HashMap K V) : Prop :=
  ∀ key value, held[key]? = some value → oracle key = some (.ok value)

omit [LawfulEqOrd K] in
theorem Sound.empty (oracle : K → Option (Except Failure V)) :
    Sound oracle (∅ : HashMap K V) := by
  intro key value found
  simp at found

theorem Sound.answersTo [DecidableEq K] {oracle : K → Option (Except Failure V)}
    {held : K → Option V}
    (answered : ∀ key value, held key = some value → oracle key = some (.ok value))
    (keys : HashSet K) : Sound oracle (answersTo held keys) := by
  intro key value found
  rw [getElem?_answersTo] at found
  split at found
  · exact answered key value found
  · cases found

theorem mem_of_mem_answersTo {A : Type} [DecidableEq K] {oracle : K → Option A} {keys : HashSet K}
    {key : K} (answered : key ∈ answersTo oracle keys) : key ∈ keys := by
  obtain ⟨answer, found⟩ := (HashMap.mem_iff_exists _ _).mp answered
  rw [getElem?_answersTo] at found
  split at found
  · assumption
  · cases found

/-- Answers to what the cache does not hold, joined with what it holds. -/
theorem getElem?_readThrough {oracle : K → Option (Except Failure V)} {keys : HashSet K}
    {cached : HashMap K V} (sound : Sound oracle cached) (requested : ∀ key ∈ cached, key ∈ keys)
    {answers : HashMap K (Except Failure V)}
    (fetched : ∀ key, answers[key]? = if key ∈ keys ∧ key ∉ cached then oracle key else none)
    (key : K) :
    (answers ∪ cached.map (fun _ value => .ok value))[key]? =
      if key ∈ keys then oracle key else none := by
  rw [Std.ExtTreeMap.getElem?_union, Std.ExtTreeMap.getElem?_map, fetched key]
  cases found : cached[key]? with
  | some value =>
    have listed := requested key ((HashMap.mem_iff_exists cached key).mpr ⟨value, found⟩)
    rw [if_pos listed, sound key value found]
    rfl
  | none =>
    have missing := (HashMap.getElem?_eq_none_iff cached key).mp found
    simp [missing]

end ArmchairAnalyst

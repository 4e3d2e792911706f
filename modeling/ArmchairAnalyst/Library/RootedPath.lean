import ArmchairAnalyst.Library.Collections

/-!
# Paths to the root of a parent map

`up k` says where the member `k` hangs: `none` when there is no such member,
`some none` under the root and `some (some p)` under the member `p`. A rooted
path lists a member and its ancestors, the member first.
-/

namespace ArmchairAnalyst

variable {K : Type}

inductive RootedPath (up : K → Option (Option K)) : K → List K → Prop
  | root {k} : up k = some none → RootedPath up k [k]
  | child {k p path} : up k = some (some p) → RootedPath up p path → RootedPath up k (k :: path)

/-- The ancestors of a member, the member first, cut off after `fuel` steps. -/
def walkUp (up : K → Option (Option K)) : Nat → K → List K
  | 0, _ => []
  | fuel + 1, k =>
    match up k with
    | none => []
    | some none => [k]
    | some (some p) => k :: walkUp up fuel p

namespace RootedPath

variable {up : K → Option (Option K)}

theorem eq_cons {k : K} {path : List K} (rooted : RootedPath up k path) :
    ∃ above, path = k :: above := by
  cases rooted with
  | root _ => exact ⟨[], rfl⟩
  | child _ _ => exact ⟨_, rfl⟩

theorem self_mem {k : K} {path : List K} (rooted : RootedPath up k path) : k ∈ path := by
  obtain ⟨above, rfl⟩ := rooted.eq_cons
  exact List.mem_cons_self

theorem isSome {k : K} {path : List K} (rooted : RootedPath up k path) : (up k).isSome := by
  cases rooted with
  | root attached => simp [attached]
  | child attached _ => simp [attached]

/-- Above a member that is not the last one hangs the rest of its path. -/
theorem tail {k y : K} {path : List K} (rooted : RootedPath up k (y :: path)) (more : path ≠ []) :
    ∃ p, RootedPath up p path := by
  generalize whole : y :: path = entire at rooted
  cases rooted with
  | root _ => simp_all
  | child _ higher =>
    obtain ⟨-, rfl⟩ := List.cons.inj whole
    exact ⟨_, higher⟩

/-- The parent map is a function, so a member has at most one path. -/
theorem unique {k : K} {path other : List K} (rooted : RootedPath up k path)
    (rooted' : RootedPath up k other) : path = other := by
  induction rooted generalizing other with
  | root attached =>
    cases rooted' with
    | root _ => rfl
    | child attached' _ => simp [attached] at attached'
  | child attached _ inductionHypothesis =>
    cases rooted' with
    | root attached' => simp [attached] at attached'
    | child attached' above =>
      obtain rfl : _ = _ := by simpa [attached] using attached'
      rw [inductionHypothesis above]

/-- Every member of a path has its own path, the rest of the list from there on. -/
theorem suffix {k x : K} {below above : List K} (rooted : RootedPath up k (below ++ x :: above)) :
    RootedPath up x (x :: above) := by
  induction below generalizing k with
  | nil =>
    obtain ⟨rest, same⟩ := rooted.eq_cons
    obtain ⟨rfl, -⟩ : x = k ∧ above = rest := by simpa using same
    exact rooted
  | cons y below inductionHypothesis =>
    obtain ⟨p, higher⟩ := rooted.tail (by simp)
    exact inductionHypothesis higher

theorem of_mem {k x : K} {path : List K} (rooted : RootedPath up k path) (membership : x ∈ path) :
    ∃ below above, path = below ++ x :: above ∧ RootedPath up x (x :: above) := by
  obtain ⟨below, above, rfl⟩ := List.append_of_mem membership
  exact ⟨below, above, rfl, rooted.suffix⟩

theorem isSome_of_mem {k x : K} {path : List K} (rooted : RootedPath up k path)
    (membership : x ∈ path) : (up x).isSome := by
  obtain ⟨_, _, _, higher⟩ := rooted.of_mem membership
  exact higher.isSome

/-- A path cannot return to a member: the member's own path would be longer than itself. -/
theorem nodup {k : K} {path : List K} (rooted : RootedPath up k path) : path.Nodup := by
  induction rooted with
  | root _ => simp
  | @child k p path attached higher inductionHypothesis =>
    refine List.nodup_cons.mpr ⟨?_, inductionHypothesis⟩
    intro returns
    obtain ⟨below, above, split, own⟩ := higher.of_mem returns
    have same := own.unique (RootedPath.child attached higher)
    have lengths := congrArg List.length split
    have lengths' := congrArg List.length same
    simp only [List.length_append, List.length_cons] at lengths lengths'
    omega

/-- Adding members below or beside a path leaves it as it is. -/
theorem mono {up' : K → Option (Option K)} {k : K} {path : List K} (rooted : RootedPath up k path)
    (extends_ : ∀ x parent, up x = some parent → up' x = some parent) :
    RootedPath up' k path := by
  induction rooted with
  | root attached => exact .root (extends_ _ _ attached)
  | child attached _ inductionHypothesis => exact .child (extends_ _ _ attached) inductionHypothesis

/-- Cutting a path at one of its members and hanging the lower part under the root. -/
theorem reroot {up' : K → Option (Option K)} {k a : K} {below above : List K}
    (rooted : RootedPath up k (below ++ a :: above)) (proper : k ≠ a)
    (attach : ∀ x ∈ below, up x = some (some a) → up' x = some none)
    (keep : ∀ x ∈ below, ∀ p ≠ a, up x = some (some p) → up' x = some (some p)) :
    RootedPath up' k below := by
  generalize whole : below ++ a :: above = path at rooted
  induction rooted generalizing below with
  | root _ =>
    cases below with
    | nil => simp_all
    | cons y below => simp_all
  | @child k p path attached higher inductionHypothesis =>
    cases below with
    | nil => simp_all
    | cons y below =>
      obtain ⟨rfl, rfl⟩ : y = k ∧ below ++ a :: above = path := by simpa using whole
      by_cases cut : p = a
      · subst cut
        have empty : below = [] := by
          have distinct := higher.nodup
          obtain ⟨rest, same⟩ := higher.eq_cons
          cases below with
          | nil => rfl
          | cons z below =>
            obtain ⟨rfl, -⟩ : z = p ∧ below ++ p :: above = rest := by simpa using same
            simp at distinct
        subst empty
        exact .root (attach _ (by simp) attached)
      · refine .child (keep _ (by simp) p cut attached) (inductionHypothesis cut ?_ ?_ rfl)
        · exact fun x membership => attach x (by simp [membership])
        · exact fun x membership => keep x (by simp [membership])

/-- Enough fuel makes the walk return the whole path. -/
theorem walkUp_eq {k : K} {path : List K} (rooted : RootedPath up k path) {fuel : Nat}
    (enough : path.length ≤ fuel) : walkUp up fuel k = path := by
  induction rooted generalizing fuel with
  | root attached =>
    obtain ⟨fuel, rfl⟩ : ∃ n, fuel = n + 1 := ⟨fuel - 1, by simp at enough; omega⟩
    simp [walkUp, attached]
  | child attached _ inductionHypothesis =>
    obtain ⟨fuel, rfl⟩ : ∃ n, fuel = n + 1 := ⟨fuel - 1, by simp at enough; omega⟩
    simp only [walkUp, attached]
    rw [inductionHypothesis (by simpa using enough)]

/-- The members of a path are distinct, so it is no longer than a list of all members. -/
theorem length_le {k : K} {path members : List K} (rooted : RootedPath up k path)
    (complete : ∀ x, (up x).isSome → x ∈ members) : path.length ≤ members.length :=
  (rooted.nodup.subperm (fun _ membership =>
    complete _ (rooted.isSome_of_mem membership))).length_le

end RootedPath

/-- A walk from a member that hangs nowhere is empty. -/
theorem walkUp_eq_nil {up : K → Option (Option K)} {k : K} (absent : up k = none) (fuel : Nat) :
    walkUp up fuel k = [] := by
  cases fuel with
  | zero => rfl
  | succ fuel => simp [walkUp, absent]

end ArmchairAnalyst

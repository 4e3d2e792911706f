import ArmchairAnalyst.Library.Multigraph
import ArmchairAnalyst.Optimization.RoutingFilter

/-!
# Stripping and growing

Stripping ends with an empty stack and has removed exactly the tokens outside every
set of tokens of degree two, in whichever order the first tokens are stacked. Growing
ends with an empty frontier and has kept what is reached.
-/

namespace ArmchairAnalyst.Optimization

open Std (TransOrd LawfulEqOrd)

section

variable {T : Type} [Ord T] [TransOrd T] [LawfulEqOrd T] [DecidableEq T]

/-- Every edge is listed at both of its ends. -/
structure Adjacency.Symmetric (adjacency : Adjacency T) : Prop where
  count : ∀ u v, (adjacency.neighbors u).count v = (adjacency.neighbors v).count u
  listed : ∀ v, v ∈ adjacency ↔ adjacency.neighbors v ≠ []

omit [LawfulEqOrd T] in
theorem Adjacency.Symmetric.mem {adjacency : Adjacency T} (symmetric : adjacency.Symmetric)
    {u v : T} (adjacent : v ∈ adjacency.neighbors u) : u ∈ adjacency.neighbors v := by
  rw [← List.count_pos_iff] at adjacent ⊢
  rw [symmetric.count v u]
  exact adjacent

omit [LawfulEqOrd T] in
theorem Adjacency.Symmetric.known {adjacency : Adjacency T} (symmetric : adjacency.Symmetric)
    {u v : T} (adjacent : v ∈ adjacency.neighbors u) : v ∈ adjacency :=
  (symmetric.listed v).mpr (List.ne_nil_of_mem (symmetric.mem adjacent))

/-- The number of neighbours that are not removed. -/
def Adjacency.alive (adjacency : Adjacency T) (removed : HashSet T) (v : T) : Nat :=
  (adjacency.neighbors v).countP (fun u => decide (u ∉ removed))

/-- Every token of a set has two neighbours in it, as often as edges join them. -/
def Adjacency.MinDegreeTwo (adjacency : Adjacency T) (s : T → Bool) : Prop :=
  ∀ v, s v = true → 2 ≤ (adjacency.neighbors v).countP s

theorem Adjacency.alive_insert {adjacency : Adjacency T} {removed : HashSet T} {token : T}
    (present : token ∉ removed) (v : T) :
    adjacency.alive (removed.insert token) v =
      adjacency.alive removed v - (adjacency.neighbors v).count token := by
  unfold alive
  induction adjacency.neighbors v with
  | nil => rfl
  | cons u us inductionHypothesis =>
    have few : us.count token ≤ us.countP (fun u => decide (u ∉ removed)) := by
      apply List.countP_mono_left
      intro x _ same
      rw [beq_iff_eq] at same
      subst same
      simpa using present
    rw [List.countP_cons, List.countP_cons, List.count_cons, inductionHypothesis]
    by_cases same : u = token
    · subst same
      simp only [Std.ExtTreeSet.mem_insert_self, not_true_eq_false, decide_false, present,
        not_false_eq_true, decide_true, if_true, beq_self_eq_true]
      simp
    · have other : u ∈ removed.insert token ↔ u ∈ removed := by
        rw [Std.ExtTreeSet.mem_insert, LawfulEqOrd.compare_eq_iff_eq]
        exact or_iff_right (Ne.symm same)
      simp only [other, beq_eq_false_iff_ne.mpr same, Bool.false_eq_true, if_false, Nat.add_zero]
      omega

/-! ### Lowering degrees -/

/-- What lowering the neighbours of a removed token changes. -/
structure Lowered (stripping : Stripping T) (neighbors : List T) (lowered : Stripping T) :
    Prop where
  removed : lowered.removed = stripping.removed
  degree : ∀ v, v ∉ stripping.removed →
    lowered.degree[v]? = stripping.degree[v]?.map (· - neighbors.count v)
  keeps : ∀ v ∈ stripping.stack, v ∈ lowered.stack
  pushed : ∀ v ∈ neighbors, v ∉ stripping.removed → ∀ degree, lowered.degree[v]? = some degree →
    degree < 2 → v ∈ lowered.stack
  length : lowered.stack.length ≤ stripping.stack.length + neighbors.length

theorem lowered_foldl (stripping : Stripping T) (neighbors : List T) :
    Lowered stripping neighbors (neighbors.foldl Stripping.lower stripping) := by
  induction neighbors generalizing stripping with
  | nil => exact ⟨rfl, by simp, fun _ listed => listed, by simp, by simp⟩
  | cons neighbor neighbors inductionHypothesis =>
    rw [List.foldl_cons]
    have rest := inductionHypothesis (stripping.lower neighbor)
    by_cases gone : neighbor ∈ stripping.removed
    · have step : stripping.lower neighbor = stripping := if_pos gone
      rw [step] at rest ⊢
      refine ⟨rest.removed, ?_, rest.keeps, ?_, ?_⟩
      · intro v present
        have other : neighbor ≠ v := by
          rintro rfl
          exact present gone
        rw [rest.degree v present, List.count_cons_of_ne other]
      · intro v membership present
        rcases List.mem_cons.mp membership with rfl | later
        · exact absurd gone present
        · exact rest.pushed v later present
      · exact rest.length.trans (by simp)
    · cases found : stripping.degree[neighbor]? with
      | none =>
        have step : stripping.lower neighbor = stripping := by
          simp [Stripping.lower, gone, found]
        rw [step] at rest ⊢
        refine ⟨rest.removed, ?_, rest.keeps, ?_, ?_⟩
        · intro v present
          rw [rest.degree v present]
          by_cases same : neighbor = v
          · subst same
            simp [found]
          · rw [List.count_cons_of_ne same]
        · intro v membership present degree degree' low
          rcases List.mem_cons.mp membership with rfl | later
          · rw [rest.degree _ present, found] at degree'
            cases degree'
          · exact rest.pushed v later present degree degree' low
        · exact rest.length.trans (by simp)
      | some before =>
        have step : stripping.lower neighbor =
            { stripping with
              degree := stripping.degree.insert neighbor (before - 1)
              stack := if before - 1 < 2 then neighbor :: stripping.stack
                else stripping.stack } := by
          simp [Stripping.lower, gone, found]
        have degree (v : T) : (stripping.lower neighbor).degree[v]? =
            if v = neighbor then some (before - 1) else stripping.degree[v]? := by
          rw [step]
          exact HashMap.getElem?_insert _ _ _ _
        have removed : (stripping.lower neighbor).removed = stripping.removed := by rw [step]
        have stacked : before - 1 < 2 → neighbor ∈ (stripping.lower neighbor).stack := by
          intro low
          simp [step, low]
        have kept : ∀ v ∈ stripping.stack, v ∈ (stripping.lower neighbor).stack := by
          intro v listed
          rw [step]
          split
          · exact List.mem_cons_of_mem _ listed
          · exact listed
        have length : (stripping.lower neighbor).stack.length ≤ stripping.stack.length + 1 := by
          rw [step]
          split <;> simp
        have degree' (v : T) (present : v ∉ stripping.removed) :
            (neighbors.foldl Stripping.lower (stripping.lower neighbor)).degree[v]? =
              stripping.degree[v]?.map (· - (neighbor :: neighbors).count v) := by
          rw [rest.degree v (removed ▸ present), degree]
          by_cases same : v = neighbor
          · subst same
            rw [if_pos rfl, found, Option.map_some, Option.map_some, List.count_cons_self]
            congr 1
            omega
          · rw [if_neg same, List.count_cons_of_ne (Ne.symm same)]
        refine ⟨rest.removed.trans removed, degree', fun v listed => rest.keeps v (kept v listed),
          ?_, ?_⟩
        · intro v membership present final final' low
          by_cases later : v ∈ neighbors
          · exact rest.pushed v later (removed ▸ present) final final' low
          · -- Nothing lowers this token again, so it was stacked now.
            obtain rfl : v = neighbor := (List.mem_cons.mp membership).resolve_right later
            rw [degree' v present, found, Option.map_some, List.count_cons_self,
              List.count_eq_zero_of_not_mem later, Option.some.injEq] at final'
            exact rest.keeps v (stacked (by omega))
        · have bound := rest.length
          simp only [List.length_cons]
          omega

/-! ### Stripping -/

/-- No removed token is in a set of degree two, the degrees count the edges that are left,
and every token with fewer than two of them is on the stack. -/
structure Stripping.Sound (adjacency : Adjacency T) (stripping : Stripping T) : Prop where
  outside : ∀ s, adjacency.MinDegreeTwo s → ∀ v ∈ stripping.removed, s v = false
  degree : ∀ v, v ∉ stripping.removed → stripping.degree[v]? =
    adjacency[v]?.map (fun _ => adjacency.alive stripping.removed v)
  stacked : ∀ v ∈ adjacency, v ∉ stripping.removed →
    adjacency.alive stripping.removed v < 2 → v ∈ stripping.stack

/-- The edges of the tokens that are left, at both of their ends. -/
def Adjacency.weight (adjacency : Adjacency T) (removed : HashSet T) : Nat :=
  ∑ v ∈ adjacency.keys.toFinset with v ∉ removed, (adjacency.neighbors v).length

theorem Adjacency.weight_insert {adjacency : Adjacency T} {removed : HashSet T} {token : T}
    (present : token ∉ removed) :
    (adjacency.neighbors token).length + adjacency.weight (removed.insert token) =
      adjacency.weight removed := by
  unfold weight
  have left : adjacency.keys.toFinset.filter (· ∉ removed.insert token) =
      (adjacency.keys.toFinset.filter (· ∉ removed)).erase token := by
    ext v
    simp only [Finset.mem_filter, Finset.mem_erase, Std.ExtTreeSet.mem_insert,
      LawfulEqOrd.compare_eq_iff_eq]
    grind
  rw [left]
  by_cases known : token ∈ adjacency
  · have member : token ∈ adjacency.keys.toFinset.filter (· ∉ removed) := by
      simp [known, present]
    exact Finset.add_sum_erase _ (fun v => (adjacency.neighbors v).length) member
  · have unknown : adjacency.neighbors token = [] := by
      simp [Adjacency.neighbors, Std.ExtTreeMap.getElem?_eq_none known]
    rw [Finset.erase_eq_of_notMem (by simp [known]), unknown]
    exact Nat.zero_add _

theorem Stripping.Sound.strip {adjacency : Adjacency T} (symmetric : adjacency.Symmetric)
    {stripping : Stripping T} (sound : stripping.Sound adjacency) {token : T} {stack : List T}
    (popped : stripping.stack = token :: stack) :
    Stripping.Sound adjacency ({ stripping with stack }.strip adjacency token) ∧
      ({ stripping with stack }.strip adjacency token).stack.length +
          adjacency.weight ({ stripping with stack }.strip adjacency token).removed <
        stripping.stack.length + adjacency.weight stripping.removed := by
  unfold Stripping.strip
  simp only
  split
  · rename_i skipped
    refine ⟨⟨sound.outside, sound.degree, ?_⟩, by simp [popped]⟩
    intro v known present low
    have stacked := sound.stacked v known present low
    rw [popped] at stacked
    refine (List.mem_cons.mp stacked).resolve_left ?_
    rintro rfl
    have degree := sound.degree v present
    rw [Std.ExtTreeMap.getElem?_eq_some_getElem known, Option.map_some] at degree
    rcases skipped with gone | high
    · exact present gone
    · rw [degree, Option.getD_some] at high
      exact absurd high (Nat.not_le.mpr low)
  · rename_i stripped
    obtain ⟨present, low⟩ := not_or.mp stripped
    have lowered := lowered_foldl { stripping with stack, removed := stripping.removed.insert token }
      (adjacency.neighbors token)
    generalize (adjacency.neighbors token).foldl Stripping.lower
      { stripping with stack, removed := stripping.removed.insert token } = stripping' at lowered ⊢
    obtain ⟨removed, degree, keeps, pushed, length⟩ := lowered
    simp only at removed degree keeps pushed length
    have few : adjacency.alive stripping.removed token < 2 := by
      by_cases known : token ∈ adjacency
      · have counted := sound.degree token present
        rw [Std.ExtTreeMap.getElem?_eq_some_getElem known, Option.map_some] at counted
        rw [counted, Option.getD_some] at low
        exact Nat.not_le.mp low
      · simp [Adjacency.alive, Adjacency.neighbors, Std.ExtTreeMap.getElem?_eq_none known]
    refine ⟨⟨?_, ?_, ?_⟩, ?_⟩
    · intro s minDegree v gone
      rw [removed, Std.ExtTreeSet.mem_insert, LawfulEqOrd.compare_eq_iff_eq] at gone
      rcases gone with rfl | earlier
      · by_contra inside
        rw [Bool.not_eq_false] at inside
        have two := minDegree token inside
        -- its neighbours in the set are all left
        have left : (adjacency.neighbors token).countP s ≤
            adjacency.alive stripping.removed token := by
          apply List.countP_mono_left
          intro u _ inside'
          rw [decide_eq_true_eq]
          intro gone
          rw [sound.outside s minDegree u gone] at inside'
          cases inside'
        omega
      · exact sound.outside s minDegree v earlier
    · intro v left
      rw [removed] at left
      have before : v ∉ stripping.removed := by
        intro gone
        exact left (Std.ExtTreeSet.mem_insert.mpr (.inr gone))
      rw [degree v left, sound.degree v before, Option.map_map, removed]
      congr 1
      funext _
      rw [Function.comp_apply, Adjacency.alive_insert present, symmetric.count]
    · intro v known left few'
      rw [removed] at left few'
      have before : v ∉ stripping.removed := by
        intro gone
        exact left (Std.ExtTreeSet.mem_insert.mpr (.inr gone))
      rw [Adjacency.alive_insert present] at few'
      by_cases neighbor : v ∈ adjacency.neighbors token
      · refine pushed v neighbor left (adjacency.alive stripping.removed v -
          (adjacency.neighbors token).count v) ?_ ?_
        · rw [degree v left, sound.degree v before, Std.ExtTreeMap.getElem?_eq_some_getElem known]
          rfl
        · rw [symmetric.count]
          exact few'
      · rw [symmetric.count, List.count_eq_zero_of_not_mem neighbor] at few'
        have stacked := sound.stacked v known before few'
        rw [popped] at stacked
        refine keeps v ((List.mem_cons.mp stacked).resolve_left ?_)
        rintro rfl
        exact left (Std.ExtTreeSet.mem_insert_self)
    · have weight := adjacency.weight_insert present
      rw [removed, popped, List.length_cons]
      omega

theorem stripLoop_sound {adjacency : Adjacency T} (symmetric : adjacency.Symmetric) (fuel : Nat)
    {stripping : Stripping T} (sound : stripping.Sound adjacency)
    (enough : stripping.stack.length + adjacency.weight stripping.removed ≤ fuel) :
    (stripLoop adjacency fuel stripping).Sound adjacency ∧
      (stripLoop adjacency fuel stripping).stack = [] := by
  induction fuel generalizing stripping with
  | zero =>
    refine ⟨sound, List.eq_nil_of_length_eq_zero ?_⟩
    show stripping.stack.length = 0
    omega
  | succ fuel inductionHypothesis =>
    unfold stripLoop
    split
    · exact ⟨sound, ‹_›⟩
    · rename_i token stack popped
      obtain ⟨sound', less⟩ := sound.strip symmetric popped
      exact inductionHypothesis sound' (by omega)

theorem Adjacency.weight_empty (adjacency : Adjacency T) :
    adjacency.weight ∅ = (adjacency.toList.map (fun entry => entry.2.length)).sum := by
  have whole : adjacency.keys.toFinset.filter (· ∉ (∅ : HashSet T)) = adjacency.keys.toFinset := by
    simp
  rw [weight, whole, List.sum_toFinset _ (HashMap.keys_nodup adjacency),
    ← Std.ExtTreeMap.map_fst_toList_eq_keys, List.map_map]
  congr 1
  apply List.map_congr_left
  intro entry listed
  simp [neighbors, (HashMap.mem_toList_iff adjacency entry).mp listed]

/-- What is left is the largest set of degree two. -/
theorem strippedTokensFrom_exact {adjacency : Adjacency T} (symmetric : adjacency.Symmetric)
    {stack : List T}
    (low : stack.Perm ((adjacency.toList.filter (fun entry => entry.2.length < 2)).map Prod.fst)) :
    (∀ s, adjacency.MinDegreeTwo s → ∀ v ∈ strippedTokensFrom adjacency stack, s v = false) ∧
      adjacency.MinDegreeTwo (fun v =>
        decide (v ∈ adjacency ∧ v ∉ strippedTokensFrom adjacency stack)) := by
  have whole (v : T) : adjacency.alive ∅ v = (adjacency.neighbors v).length := by
    simp [Adjacency.alive]
  have initial : Stripping.Sound adjacency
      { degree := adjacency.map (fun _ neighbors => neighbors.length), removed := ∅, stack } := by
    refine ⟨by simp, ?_, ?_⟩
    · intro v _
      rw [whole, Std.ExtTreeMap.getElem?_map, Adjacency.neighbors]
      cases adjacency[v]? <;> rfl
    · intro v known _ few
      obtain ⟨neighbors, found⟩ := (HashMap.mem_iff_exists adjacency v).mp known
      rw [whole, Adjacency.neighbors, found] at few
      rw [low.mem_iff, List.mem_map]
      refine ⟨(v, neighbors), ?_, rfl⟩
      rw [List.mem_filter, HashMap.mem_toList_iff, decide_eq_true_eq]
      exact ⟨found, few⟩
  have enough : stack.length + adjacency.weight ∅ ≤ stripFuel adjacency := by
    have short := low.length_eq
    have fewer : (adjacency.toList.filter (fun entry => entry.2.length < 2)).length ≤
        adjacency.size := by
      rw [← Std.ExtTreeMap.length_toList]
      exact List.length_filter_le _ _
    rw [List.length_map] at short
    rw [Adjacency.weight_empty, stripFuel]
    omega
  obtain ⟨⟨outside, -, stacked⟩, empty⟩ := stripLoop_sound symmetric (stripFuel adjacency) initial
    enough
  refine ⟨outside, fun v left => ?_⟩
  rw [decide_eq_true_eq] at left
  have high : 2 ≤ adjacency.alive (strippedTokensFrom adjacency stack) v := by
    by_contra few
    have listed := stacked v left.1 left.2 (Nat.not_le.mp few)
    rw [empty] at listed
    exact absurd listed List.not_mem_nil
  refine high.trans (List.countP_mono_left (fun u adjacent present => ?_))
  rw [decide_eq_true_eq] at present ⊢
  exact ⟨symmetric.known adjacent, present⟩

/-! ### Growing -/

/-- A step to a neighbour that is left. -/
def Adjacency.Step (adjacency : Adjacency T) (removed : HashSet T) (u v : T) : Prop :=
  v ∈ adjacency.neighbors u ∧ v ∉ removed

/-- The number of tokens that are not kept. -/
def Adjacency.unseen (adjacency : Adjacency T) (keep : HashSet T) : Nat :=
  (adjacency.keys.toFinset.filter (· ∉ keep)).card

theorem Adjacency.unseen_insert {adjacency : Adjacency T} {keep : HashSet T} {token : T}
    (known : token ∈ adjacency) (new : token ∉ keep) :
    adjacency.unseen (keep.insert token) + 1 = adjacency.unseen keep := by
  have member : token ∈ adjacency.keys.toFinset.filter (· ∉ keep) := by
    simp [known, new]
  have left : adjacency.keys.toFinset.filter (· ∉ keep.insert token) =
      (adjacency.keys.toFinset.filter (· ∉ keep)).erase token := by
    ext v
    simp only [Finset.mem_filter, Finset.mem_erase, Std.ExtTreeSet.mem_insert,
      LawfulEqOrd.compare_eq_iff_eq]
    grind
  unfold unseen
  rw [left, Finset.card_erase_of_mem member]
  have := Finset.card_pos.mpr ⟨token, member⟩
  omega

/-- What visiting some neighbours changes. -/
structure Visited (adjacency : Adjacency T) (removed : HashSet T) (growing : Growing T)
    (neighbors : List T) (visited : Growing T) : Prop where
  keep : ∀ v, v ∈ visited.keep ↔ v ∈ growing.keep ∨ v ∈ neighbors ∧ v ∉ removed
  frontier : ∀ v, v ∈ visited.frontier ↔
    v ∈ growing.frontier ∨ (v ∈ neighbors ∧ v ∉ removed) ∧ v ∉ growing.keep
  length : visited.frontier.length + adjacency.unseen visited.keep =
    growing.frontier.length + adjacency.unseen growing.keep

theorem visited_foldl {adjacency : Adjacency T} (removed : HashSet T) (growing : Growing T)
    {neighbors : List T} (known : ∀ v ∈ neighbors, v ∈ adjacency) :
    Visited adjacency removed growing neighbors
      (neighbors.foldl (Growing.visit removed) growing) := by
  induction neighbors generalizing growing with
  | nil => exact ⟨by simp, by simp, rfl⟩
  | cons neighbor neighbors inductionHypothesis =>
    rw [List.foldl_cons]
    have rest := inductionHypothesis (growing.visit removed neighbor)
      (fun v membership => known v (List.mem_cons_of_mem _ membership))
    by_cases skipped : neighbor ∈ removed ∨ neighbor ∈ growing.keep
    · have step : growing.visit removed neighbor = growing := if_pos skipped
      rw [step] at rest ⊢
      refine ⟨fun v => ?_, fun v => ?_, rest.length⟩
      · rw [rest.keep, List.mem_cons]
        grind
      · rw [rest.frontier, List.mem_cons]
        grind
    · have step : growing.visit removed neighbor =
          { keep := growing.keep.insert neighbor, frontier := neighbor :: growing.frontier } :=
        if_neg skipped
      obtain ⟨present, new⟩ := not_or.mp skipped
      have keep (v : T) : v ∈ (growing.visit removed neighbor).keep ↔
          v = neighbor ∨ v ∈ growing.keep := by
        rw [step, Std.ExtTreeSet.mem_insert, LawfulEqOrd.compare_eq_iff_eq, eq_comm]
      have frontier (v : T) : v ∈ (growing.visit removed neighbor).frontier ↔
          v = neighbor ∨ v ∈ growing.frontier := by
        rw [step, List.mem_cons]
      refine ⟨fun v => ?_, fun v => ?_, ?_⟩
      · rw [rest.keep, keep, List.mem_cons]
        grind
      · rw [rest.frontier, frontier, keep, List.mem_cons]
        grind
      · have fewer := Adjacency.unseen_insert (known neighbor List.mem_cons_self) new
        rw [rest.length, step, List.length_cons]
        simp only
        omega

structure Growing.Sound (adjacency : Adjacency T) (removed : HashSet T) (source : T)
    (growing : Growing T) : Prop where
  start : source ∈ growing.keep
  reached : ∀ v ∈ growing.keep, Relation.ReflTransGen (adjacency.Step removed) source v
  frontier : ∀ v ∈ growing.frontier, v ∈ growing.keep
  closed : ∀ u ∈ growing.keep, u ∉ growing.frontier → ∀ v, adjacency.Step removed u v →
    v ∈ growing.keep

theorem growLoop_sound {adjacency : Adjacency T} (symmetric : adjacency.Symmetric)
    (removed : HashSet T) (source : T) (fuel : Nat) {growing : Growing T}
    (sound : growing.Sound adjacency removed source)
    (enough : growing.frontier.length + adjacency.unseen growing.keep ≤ fuel) :
    (growLoop adjacency removed fuel growing).Sound adjacency removed source ∧
      (growLoop adjacency removed fuel growing).frontier = [] := by
  induction fuel generalizing growing with
  | zero =>
    refine ⟨sound, List.eq_nil_of_length_eq_zero ?_⟩
    show growing.frontier.length = 0
    omega
  | succ fuel inductionHypothesis =>
    unfold growLoop
    split
    · exact ⟨sound, ‹_›⟩
    · rename_i token frontier popped
      have visited := visited_foldl removed { growing with frontier }
        (fun v adjacent => symmetric.known (u := token) adjacent)
      apply inductionHypothesis
      · have kept : token ∈ growing.keep := sound.frontier token (by simp [popped])
        refine ⟨?_, ?_, ?_, ?_⟩
        · exact (visited.keep source).mpr (.inl sound.start)
        · intro v membership
          rcases (visited.keep v).mp membership with before | step
          · exact sound.reached v before
          · exact (sound.reached token kept).tail step
        · intro v membership
          rw [visited.keep]
          rcases (visited.frontier v).mp membership with before | ⟨step, -⟩
          · exact .inl (sound.frontier v (by simp [popped, before]))
          · exact .inr step
        · intro u membership done v step
          rw [visited.keep]
          rw [visited.frontier, not_or] at done
          by_cases same : u = token
          · exact .inr (same ▸ step)
          · have before : u ∈ growing.keep := by
              rcases (visited.keep u).mp membership with before | new
              · exact before
              · exact not_not.mp (fun absent => done.2 ⟨new, absent⟩)
            refine .inl (sound.closed u before ?_ v step)
            rw [popped, List.mem_cons]
            exact not_or.mpr ⟨same, done.1⟩
      · have length := visited.length
        rw [popped, List.length_cons] at enough
        simp only at length
        omega

/-- What is kept is what can be reached from the source asset. -/
theorem growLoop_exact {adjacency : Adjacency T} (symmetric : adjacency.Symmetric)
    (removed : HashSet T) (source v : T) :
    v ∈ (growLoop adjacency removed (adjacency.size + 1)
        { keep := (∅ : HashSet T).insert source, frontier := [source] }).keep ↔
      Relation.ReflTransGen (adjacency.Step removed) source v := by
  have only (u : T) : u ∈ (∅ : HashSet T).insert source ↔ u = source := by
    simp only [Std.ExtTreeSet.mem_insert, LawfulEqOrd.compare_eq_iff_eq, Std.ExtTreeSet.not_mem_empty,
      or_false]
    exact eq_comm
  have initial : Growing.Sound adjacency removed source
      { keep := (∅ : HashSet T).insert source, frontier := [source] } := by
    refine ⟨(only source).mpr rfl, fun u kept => ?_, fun u listed => ?_, fun u kept done => ?_⟩
    · rw [(only u).mp kept]
    · exact (only u).mpr (List.mem_singleton.mp listed)
    · exact absurd (List.mem_singleton.mpr ((only u).mp kept)) done
  have enough : ([source] : List T).length + adjacency.unseen ((∅ : HashSet T).insert source) ≤
      adjacency.size + 1 := by
    have few : adjacency.unseen ((∅ : HashSet T).insert source) ≤ adjacency.size := by
      rw [← Std.ExtTreeMap.length_keys]
      exact (Finset.card_filter_le _ _).trans (List.toFinset_card_le _)
    rw [List.length_singleton]
    omega
  obtain ⟨sound, empty⟩ := growLoop_sound symmetric removed source _ initial enough
  constructor
  · exact sound.reached v
  · intro reached
    induction reached with
    | refl => exact sound.start
    | tail _ step inductionHypothesis =>
      exact sound.closed _ inductionHypothesis (by rw [empty]; exact List.not_mem_nil) _ step

end

end ArmchairAnalyst.Optimization

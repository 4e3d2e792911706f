import Mathlib

/-!
# The 2-core of a multigraph

A multigraph without loops, its largest subgraph of minimum degree two, and the
component of a vertex in it. A closed walk that repeats no edge lies in the core.
-/

namespace ArmchairAnalyst

/-- Edges join two different vertices; several edges may join the same two. -/
structure Multigraph (V E : Type*) where
  joins : E → V → V → Prop
  symm : ∀ {e u v}, joins e u v → joins e v u
  loopless : ∀ {e u v}, joins e u v → u ≠ v

/-- A sum of zeros and ones is at least two when two of them are ones. -/
theorem two_le_sum_map_iff {A : Type*} {xs : List A} (distinct : xs.Nodup) {f : A → Nat}
    (small : ∀ x ∈ xs, f x ≤ 1) :
    2 ≤ (xs.map f).sum ↔ ∃ x ∈ xs, ∃ y ∈ xs, x ≠ y ∧ 0 < f x ∧ 0 < f y := by
  induction xs with
  | nil => simp
  | cons x xs inductionHypothesis =>
    obtain ⟨absent, distinct⟩ := List.nodup_cons.mp distinct
    have rest := inductionHypothesis distinct (fun y membership =>
      small y (List.mem_cons_of_mem _ membership))
    have here := small x List.mem_cons_self
    have positive : 0 < (xs.map f).sum ↔ ∃ y ∈ xs, 0 < f y := by
      rw [List.sum_pos_iff_exists_pos_nat]
      simp
    rw [List.map_cons, List.sum_cons]
    constructor
    · intro two
      rcases Nat.eq_zero_or_pos (f x) with zero | one
      · obtain ⟨y, listed, z, listed', different, ones⟩ := rest.mp (by omega)
        exact ⟨y, List.mem_cons_of_mem _ listed, z, List.mem_cons_of_mem _ listed', different, ones⟩
      · obtain ⟨y, listed, one'⟩ := positive.mp (by omega)
        exact ⟨x, List.mem_cons_self, y, List.mem_cons_of_mem _ listed,
          fun same => absent (same ▸ listed), one, one'⟩
    · rintro ⟨y, listed, z, listed', different, one, one'⟩
      rcases List.mem_cons.mp listed with rfl | later
      · have later' := (List.mem_cons.mp listed').resolve_left (Ne.symm different)
        have := positive.mpr ⟨z, later', one'⟩
        omega
      · rcases List.mem_cons.mp listed' with rfl | later'
        · have := positive.mpr ⟨y, later, one⟩
          omega
        · have := rest.mpr ⟨y, later, z, later', different, one, one'⟩
          omega

namespace Multigraph

variable {V E : Type*} (graph : Multigraph V E)

/-- The subgraph on some vertices has minimum degree two: every vertex has two
different edges to vertices of the subgraph. -/
def MinDegreeTwo (s : Set V) : Prop :=
  ∀ v ∈ s, ∃ e e', e ≠ e' ∧ (∃ u ∈ s, graph.joins e v u) ∧ ∃ u ∈ s, graph.joins e' v u

/-- The vertices of the largest subgraph of minimum degree two. -/
def core : Set V := {v | ∃ s, graph.MinDegreeTwo s ∧ v ∈ s}

variable {graph}

theorem subset_core {s : Set V} (minDegree : graph.MinDegreeTwo s) : s ⊆ graph.core :=
  fun _ membership => ⟨s, minDegree, membership⟩

theorem MinDegreeTwo.mono {graph' : Multigraph V E} {s t : Set V}
    (minDegree : graph.MinDegreeTwo s) (larger : s ⊆ t)
    (kept : ∀ e, ∀ v ∈ s, ∀ u ∈ s, graph.joins e v u → graph'.joins e v u) :
    ∀ v ∈ s, ∃ e e', e ≠ e' ∧ (∃ u ∈ t, graph'.joins e v u) ∧ ∃ u ∈ t, graph'.joins e' v u := by
  intro v membership
  obtain ⟨e, e', different, ⟨u, inside, joined⟩, u', inside', joined'⟩ := minDegree v membership
  exact ⟨e, e', different, ⟨u, larger inside, kept e v membership u inside joined⟩,
    u', larger inside', kept e' v membership u' inside' joined'⟩

theorem minDegreeTwo_core : graph.MinDegreeTwo graph.core := by
  rintro v ⟨s, minDegree, membership⟩
  exact minDegree.mono (subset_core minDegree) (fun _ _ _ _ _ joined => joined) v membership

/-! ### Lists of edges -/

/-- A list has every edge once, with its ends in some order. -/
structure ListedBy (graph : Multigraph V E) (links : List (E × V × V)) : Prop where
  distinct : (links.map Prod.fst).Nodup
  joins_iff : ∀ e u v, graph.joins e u v ↔ (e, u, v) ∈ links ∨ (e, v, u) ∈ links

section Lists

variable [DecidableEq V]

/-- The vertices that an edge joins to a vertex. -/
def oppositeEnds (v : V) (edge : V × V) : List V :=
  (if v = edge.1 then [edge.2] else []) ++ if v = edge.2 then [edge.1] else []

theorem mem_oppositeEnds {u v : V} {edge : V × V} :
    u ∈ oppositeEnds v edge ↔ edge = (v, u) ∨ edge = (u, v) := by
  obtain ⟨a, b⟩ := edge
  unfold oppositeEnds
  grind

omit [DecidableEq V] in
theorem ListedBy.exists_mem {links : List (E × V × V)} (listed : graph.ListedBy links) {e : E}
    {u v : V} (joined : graph.joins e u v) : ∃ ends, (e, ends) ∈ links := by
  rcases (listed.joins_iff e u v).mp joined with membership | membership
  · exact ⟨_, membership⟩
  · exact ⟨_, membership⟩

theorem ListedBy.mem_flatMap {links : List (E × V × V)} (listed : graph.ListedBy links) {u v : V} :
    u ∈ (links.map Prod.snd).flatMap (oppositeEnds v) ↔ ∃ e, graph.joins e v u := by
  simp only [listed.joins_iff, List.mem_flatMap, List.mem_map, Prod.exists, mem_oppositeEnds]
  grind

/-- Nothing is joined to itself, so an edge has at most one vertex opposite to another. -/
theorem ListedBy.countP_oppositeEnds {links : List (E × V × V)} (listed : graph.ListedBy links)
    {link : E × V × V} (membership : link ∈ links) (s : V → Bool) (v : V) :
    (oppositeEnds v link.2).countP s ≤ 1 ∧
      (0 < (oppositeEnds v link.2).countP s ↔ ∃ u, s u = true ∧ graph.joins link.1 v u) := by
  obtain ⟨e, a, b⟩ := link
  have joined : graph.joins e a b := (listed.joins_iff e a b).mpr (.inl membership)
  have apart := graph.loopless joined
  constructor
  · refine List.countP_le_length.trans ?_
    unfold oppositeEnds
    grind
  · rw [List.countP_pos_iff]
    constructor
    · rintro ⟨u, opposite, kept⟩
      refine ⟨u, kept, ?_⟩
      rcases mem_oppositeEnds.mp opposite with same | same
      · obtain ⟨rfl, rfl⟩ := Prod.mk.inj same
        exact joined
      · obtain ⟨rfl, rfl⟩ := Prod.mk.inj same
        exact graph.symm joined
    · rintro ⟨u, kept, joins⟩
      refine ⟨u, ?_, kept⟩
      rw [mem_oppositeEnds]
      rcases (listed.joins_iff e v u).mp joins with listed' | listed'
      · exact .inl (congrArg Prod.snd (List.inj_on_of_nodup_map listed.distinct membership listed'
          rfl))
      · exact .inr (congrArg Prod.snd (List.inj_on_of_nodup_map listed.distinct membership listed'
          rfl))

/-- Minimum degree two, counted on a list of the edges. -/
theorem ListedBy.minDegreeTwo_iff {links : List (E × V × V)} (listed : graph.ListedBy links)
    (s : V → Bool) :
    graph.MinDegreeTwo {v | s v = true} ↔
      ∀ v, s v = true → 2 ≤ ((links.map Prod.snd).flatMap (oppositeEnds v)).countP s := by
  apply forall_congr'
  intro v
  apply imp_congr Iff.rfl
  have two := two_le_sum_map_iff listed.distinct.of_map
    (fun link membership => (listed.countP_oppositeEnds membership s v).1)
  rw [List.countP_flatMap, List.map_map]
  refine Iff.trans ?_ two.symm
  constructor
  · rintro ⟨e, e', different, ⟨u, inside, joined⟩, u', inside', joined'⟩
    obtain ⟨ends, membership⟩ := listed.exists_mem joined
    obtain ⟨ends', membership'⟩ := listed.exists_mem joined'
    exact ⟨_, membership, _, membership', fun same => different (congrArg Prod.fst same),
      (listed.countP_oppositeEnds membership s v).2.mpr ⟨u, inside, joined⟩,
      (listed.countP_oppositeEnds membership' s v).2.mpr ⟨u', inside', joined'⟩⟩
  · rintro ⟨link, membership, link', membership', different, some, some'⟩
    exact ⟨link.1, link'.1,
      fun same => different (List.inj_on_of_nodup_map listed.distinct membership membership' same),
      (listed.countP_oppositeEnds membership s v).2.mp some,
      (listed.countP_oppositeEnds membership' s v).2.mp some'⟩

end Lists

/-! ### Components of the core -/

variable (graph) in
/-- A step along an edge that stays in the core. -/
def CoreStep (u v : V) : Prop := v ∈ graph.core ∧ ∃ e, graph.joins e u v

variable (graph) in
/-- The connected component of a vertex in the core, empty when it is outside. -/
def coreComponent (source : V) : Set V :=
  {v | source ∈ graph.core ∧ Relation.ReflTransGen graph.CoreStep source v}

theorem source_mem_coreComponent {source : V} :
    source ∈ graph.coreComponent source ↔ source ∈ graph.core :=
  ⟨fun membership => membership.1, fun membership => ⟨membership, .refl⟩⟩

theorem coreComponent_subset_core {source : V} :
    graph.coreComponent source ⊆ graph.core := by
  rintro v ⟨inside, reached⟩
  cases reached with
  | refl => exact inside
  | tail _ last => exact last.1

theorem coreComponent_step {source u v : V} (membership : u ∈ graph.coreComponent source)
    (step : graph.CoreStep u v) : v ∈ graph.coreComponent source :=
  ⟨membership.1, membership.2.tail step⟩

theorem minDegreeTwo_coreComponent {source : V} :
    graph.MinDegreeTwo (graph.coreComponent source) := by
  intro v membership
  obtain ⟨e, e', different, ⟨u, inside, joined⟩, u', inside', joined'⟩ :=
    minDegreeTwo_core v (coreComponent_subset_core membership)
  exact ⟨e, e', different, ⟨u, coreComponent_step membership ⟨inside, e, joined⟩, joined⟩,
    u', coreComponent_step membership ⟨inside', e', joined'⟩, joined'⟩

/-- A component of the core only depends on the edges inside it. -/
theorem coreComponent_eq_of_subgraph {graph' : Multigraph V E} {source : V}
    (fewer : ∀ e u v, graph'.joins e u v → graph.joins e u v)
    (kept : ∀ e, ∀ u ∈ graph.coreComponent source, ∀ v ∈ graph.coreComponent source,
      graph.joins e u v → graph'.joins e u v) :
    graph'.coreComponent source = graph.coreComponent source := by
  have core : graph'.core ⊆ graph.core := by
    apply subset_core
    have minDegree : graph'.MinDegreeTwo graph'.core := minDegreeTwo_core
    exact minDegree.mono subset_rfl (fun e v _ u _ joined => fewer e v u joined)
  have core' : graph.coreComponent source ⊆ graph'.core := by
    apply subset_core
    exact minDegreeTwo_coreComponent.mono subset_rfl
      (fun e v inside u inside' joined => kept e v inside u inside' joined)
  apply Set.Subset.antisymm
  · rintro v ⟨inside, reached⟩
    refine ⟨core inside, ?_⟩
    have steps : ∀ u w, graph'.CoreStep u w → graph.CoreStep u w :=
      fun u w step => ⟨core step.1, step.2.imp (fun e joined => fewer e u w joined)⟩
    exact Relation.ReflTransGen.mono steps _ _ reached
  · rintro v ⟨inside, reached⟩
    have start : source ∈ graph.coreComponent source := source_mem_coreComponent.mpr inside
    refine ⟨core' start, ?_⟩
    induction reached with
    | refl => exact .refl
    | tail before last inductionHypothesis =>
      have here : _ ∈ graph.coreComponent source := coreComponent_step ⟨inside, before⟩ last
      obtain ⟨e, joined⟩ := last.2
      exact inductionHypothesis.tail ⟨core' here, e, kept e _ ⟨inside, before⟩ _ here joined⟩

/-! ### Walks -/

/-- A walk from a vertex, as its edges with the vertices they lead to. -/
inductive Walk (graph : Multigraph V E) : V → List (E × V) → Prop
  | nil (u : V) : Walk graph u []
  | cons {u v : V} {e : E} {steps : List (E × V)} :
      graph.joins e u v → Walk graph v steps → Walk graph u ((e, v) :: steps)

/-- Where a walk ends. -/
def walkEnd (u : V) : List (E × V) → V
  | [] => u
  | (_, v) :: steps => walkEnd v steps

/-- The vertices of a walk. -/
def walkVertices (u : V) (steps : List (E × V)) : Set V := {v | v = u ∨ v ∈ steps.map Prod.snd}

theorem walkEnd_append (u : V) (before after : List (E × V)) :
    walkEnd u (before ++ after) = walkEnd (walkEnd u before) after := by
  induction before generalizing u with
  | nil => rfl
  | cons step before inductionHypothesis => exact inductionHypothesis step.2

theorem walkEnd_mem (u : V) (steps : List (E × V)) : walkEnd u steps ∈ walkVertices u steps := by
  induction steps generalizing u with
  | nil => exact .inl rfl
  | cons step steps inductionHypothesis =>
    rcases inductionHypothesis step.2 with same | later
    · exact .inr (List.mem_cons.mpr (.inl same))
    · exact .inr (List.mem_cons_of_mem _ later)

theorem walkEnd_mem_append (u : V) (before after : List (E × V)) :
    walkEnd u before ∈ walkVertices u (before ++ after) := by
  rcases walkEnd_mem u before with same | later
  · exact .inl same
  · refine .inr ?_
    rw [List.map_append]
    exact List.mem_append_left _ later

theorem Walk.append {u : V} {before after : List (E × V)} (walk : graph.Walk u before)
    (walk' : graph.Walk (walkEnd u before) after) : graph.Walk u (before ++ after) := by
  induction walk with
  | nil u => exact walk'
  | cons joined _ inductionHypothesis => exact .cons joined (inductionHypothesis walk')

theorem Walk.split {u v : V} {e : E} {before after : List (E × V)}
    (walk : graph.Walk u (before ++ (e, v) :: after)) :
    graph.Walk u before ∧ graph.joins e (walkEnd u before) v ∧ graph.Walk v after := by
  induction before generalizing u with
  | nil =>
    cases walk with
    | cons joined rest => exact ⟨.nil u, joined, rest⟩
  | cons step before inductionHypothesis =>
    cases walk with
    | cons joined rest =>
      obtain ⟨first, middle, last⟩ := inductionHypothesis rest
      exact ⟨.cons joined first, middle, last⟩

/-- Both ends of an edge of a walk are vertices of it. -/
theorem Walk.exists_joins {u v : V} {e : E} {steps : List (E × V)} (walk : graph.Walk u steps)
    (listed : (e, v) ∈ steps) :
    ∃ w ∈ walkVertices u steps, v ∈ walkVertices u steps ∧ graph.joins e w v := by
  obtain ⟨before, after, rfl⟩ := List.append_of_mem listed
  exact ⟨walkEnd u before, walkEnd_mem_append u before _, .inr (by simp), walk.split.2.1⟩

/-- Every vertex of a closed walk is where one of its edges leads to. -/
theorem mem_snd_of_closed {u v : V} {steps : List (E × V)} (closed : walkEnd u steps = u)
    (moves : steps ≠ []) (membership : v ∈ walkVertices u steps) :
    v ∈ steps.map Prod.snd := by
  rcases membership with rfl | later
  · obtain ⟨before, last, rfl⟩ := List.eq_nil_or_concat steps |>.resolve_left moves
    rw [List.concat_eq_append, walkEnd_append] at closed
    rw [List.concat_eq_append, List.map_append]
    exact List.mem_append_right _ (List.mem_singleton.mpr closed.symm)
  · exact later

/-- The vertices of a closed walk that repeats no edge span minimum degree two. -/
theorem Walk.minDegreeTwo {u : V} {steps : List (E × V)} (walk : graph.Walk u steps)
    (closed : walkEnd u steps = u) (moves : steps ≠ [])
    (distinct : (steps.map Prod.fst).Nodup) : graph.MinDegreeTwo (walkVertices u steps) := by
  intro v membership
  obtain ⟨⟨e, v⟩, listed, rfl⟩ := List.mem_map.mp (mem_snd_of_closed closed moves membership)
  obtain ⟨before, after, rfl⟩ := List.append_of_mem listed
  obtain ⟨-, arrives, onward⟩ := walk.split
  have from_ := walkEnd_mem_append u before ((e, v) :: after)
  rw [List.map_append, List.map_cons, List.nodup_append] at distinct
  obtain ⟨-, distinct', apart⟩ := distinct
  cases after with
  | cons next after =>
    obtain ⟨e', w⟩ := next
    cases onward with
    | cons leaves _ =>
      refine ⟨e, e', ?_, ⟨_, from_, graph.symm arrives⟩, w, .inr (by simp), leaves⟩
      rintro rfl
      exact (List.nodup_cons.mp distinct').1 List.mem_cons_self
  | nil =>
    -- The last edge arrives at the start, so the first edge leaves from here.
    obtain rfl : v = u := by simpa [walkEnd_append, walkEnd] using closed
    cases before with
    | nil => exact absurd rfl (graph.loopless arrives)
    | cons first before =>
      obtain ⟨e', w⟩ := first
      cases walk with
      | cons leaves _ =>
        refine ⟨e, e', ?_, ⟨_, from_, graph.symm arrives⟩, w, .inr (by simp), leaves⟩
        rintro rfl
        exact apart e List.mem_cons_self e List.mem_cons_self rfl

/-- A walk inside the core stays in the component it starts in. -/
theorem Walk.subset_coreComponent {u source : V} {steps : List (E × V)}
    (walk : graph.Walk u steps) (start : u ∈ graph.coreComponent source)
    (inside : walkVertices u steps ⊆ graph.core) :
    walkVertices u steps ⊆ graph.coreComponent source := by
  induction walk with
  | nil u =>
    rintro v (rfl | later)
    · exact start
    · exact absurd later List.not_mem_nil
  | @cons u v e steps joined _ inductionHypothesis =>
    have next : v ∈ graph.coreComponent source :=
      coreComponent_step start ⟨inside (.inr List.mem_cons_self), e, joined⟩
    have rest := inductionHypothesis next (fun w membership => by
      rcases membership with rfl | later
      · exact inside (.inr List.mem_cons_self)
      · exact inside (.inr (List.mem_cons_of_mem _ later)))
    rintro w (rfl | later)
    · exact start
    · rcases List.mem_cons.mp later with rfl | later
      · exact next
      · exact rest (.inr later)

/-- A closed walk that repeats no edge lies in the component of its start. -/
theorem Walk.mem_coreComponent {u : V} {steps : List (E × V)} (walk : graph.Walk u steps)
    (closed : walkEnd u steps = u) (moves : steps ≠ [])
    (distinct : (steps.map Prod.fst).Nodup) :
    walkVertices u steps ⊆ graph.coreComponent u := by
  have inside := subset_core (walk.minDegreeTwo closed moves distinct)
  exact walk.subset_coreComponent (source_mem_coreComponent.mpr (inside (.inl rfl))) inside

end Multigraph

end ArmchairAnalyst

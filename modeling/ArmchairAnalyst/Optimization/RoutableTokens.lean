import ArmchairAnalyst.Optimization.CoreStripping

/-!
# The tokens on a route

Pools, bridges and the demand edge form a multigraph of tokens. In whatever order the
hash maps are drained, the filter keeps the component of the source asset in the 2-core of
this multigraph, so that no pool of a route without repeated pools or bridges is dropped.
-/

namespace ArmchairAnalyst.Optimization

open Std (TransOrd LawfulEqOrd)

/-- The edges of the multigraph. Both directions of a bridge are one edge. -/
inductive Link (T I : Type)
  | pool (poolId : I)
  | bridge (ends : Sym2 T)
  | demand

/-- All reserves of a pool are between the same two tokens. -/
def PoolPairs {T I F : Type} (reserves : List (PoolReserves T I F)) : Prop :=
  ∀ reserve ∈ reserves, ∀ reserve' ∈ reserves, reserve.poolId = reserve'.poolId →
    s(reserve.token0, reserve.token1) = s(reserve'.token0, reserve'.token1)

section

variable {T I F : Type} [Ord T] [TransOrd T]

/-- Pools and bridges join their two tokens, and the demand edge joins the assets of a route. -/
def routeMultigraph (reserves : List (PoolReserves T I F)) (sourceAsset outputAsset : T)
    (bridges : HashSet (T × T)) : Multigraph T (Link T I) where
  joins
    | .pool poolId, u, v => u ≠ v ∧
        ∃ reserve ∈ reserves, reserve.poolId = poolId ∧ s(reserve.token0, reserve.token1) = s(u, v)
    | .bridge ends, u, v => u ≠ v ∧ ends = s(u, v) ∧ ((u, v) ∈ bridges ∨ (v, u) ∈ bridges)
    | .demand, u, v => u ≠ v ∧ s(sourceAsset, outputAsset) = s(u, v)
  symm {e u v} joined := by
    cases e with
    | pool poolId => exact ⟨joined.1.symm, Sym2.eq_swap ▸ joined.2⟩
    | bridge ends => exact ⟨joined.1.symm, Sym2.eq_swap ▸ joined.2.1, joined.2.2.symm⟩
    | demand => exact ⟨joined.1.symm, joined.2.trans Sym2.eq_swap⟩
  loopless {e u v} joined := by
    cases e with
    | pool poolId => exact joined.1
    | bridge ends => exact joined.1
    | demand => exact joined.1

end

/-! ### The edges in a list -/

section

variable {T I F : Type} [DecidableEq T] [Ord I] [TransOrd I]

/-- The edges of the pools with their names. -/
def poolLinks : HashSet I → List (PoolReserves T I F) → List (Link T I × T × T)
  | _, [] => []
  | seen, reserve :: reserves =>
    if reserve.token0 = reserve.token1 then poolLinks seen reserves
    else if reserve.poolId ∈ seen then poolLinks seen reserves
    else (.pool reserve.poolId, reserve.token0, reserve.token1) ::
      poolLinks (seen.insert reserve.poolId) reserves

theorem poolLinks_edges (seen : HashSet I) (reserves : List (PoolReserves T I F)) :
    (poolLinks seen reserves).map Prod.snd = poolEdges seen reserves := by
  fun_induction poolLinks seen reserves <;> simp_all [poolEdges]

theorem mem_poolLinks {seen : HashSet I} {reserves : List (PoolReserves T I F)}
    {link : Link T I × T × T} (listed : link ∈ poolLinks seen reserves) :
    ∃ reserve ∈ reserves, link = (.pool reserve.poolId, reserve.token0, reserve.token1) ∧
      reserve.token0 ≠ reserve.token1 ∧ reserve.poolId ∉ seen := by
  fun_induction poolLinks seen reserves with
  | case1 => exact absurd listed List.not_mem_nil
  | case2 seen reserve reserves loop inductionHypothesis =>
    obtain ⟨other, membership, rest⟩ := inductionHypothesis listed
    exact ⟨other, List.mem_cons_of_mem _ membership, rest⟩
  | case3 seen reserve reserves apart old inductionHypothesis =>
    obtain ⟨other, membership, rest⟩ := inductionHypothesis listed
    exact ⟨other, List.mem_cons_of_mem _ membership, rest⟩
  | case4 seen reserve reserves apart new inductionHypothesis =>
    rcases List.mem_cons.mp listed with rfl | later
    · exact ⟨reserve, List.mem_cons_self, rfl, apart, new⟩
    · obtain ⟨other, membership, same, apart', new'⟩ := inductionHypothesis later
      exact ⟨other, List.mem_cons_of_mem _ membership, same, apart',
        fun old => new' (Std.ExtTreeSet.mem_insert.mpr (.inr old))⟩

theorem exists_poolLinks [LawfulEqOrd I] {seen : HashSet I} {reserves : List (PoolReserves T I F)}
    {reserve : PoolReserves T I F} (listed : reserve ∈ reserves)
    (apart : reserve.token0 ≠ reserve.token1) (new : reserve.poolId ∉ seen) :
    ∃ first ∈ reserves, first.poolId = reserve.poolId ∧
      (.pool reserve.poolId, first.token0, first.token1) ∈ poolLinks seen reserves := by
  fun_induction poolLinks seen reserves with
  | case1 => exact absurd listed List.not_mem_nil
  | case2 seen other reserves loop inductionHypothesis =>
    rcases List.mem_cons.mp listed with rfl | later
    · exact absurd loop apart
    · obtain ⟨first, membership, rest⟩ := inductionHypothesis later new
      exact ⟨first, List.mem_cons_of_mem _ membership, rest⟩
  | case3 seen other reserves apart' old inductionHypothesis =>
    rcases List.mem_cons.mp listed with rfl | later
    · exact absurd old new
    · obtain ⟨first, membership, rest⟩ := inductionHypothesis later new
      exact ⟨first, List.mem_cons_of_mem _ membership, rest⟩
  | case4 seen other reserves apart' new' inductionHypothesis =>
    by_cases same : other.poolId = reserve.poolId
    · exact ⟨other, List.mem_cons_self, same, by simp [same]⟩
    · have later : reserve ∈ reserves := by
        refine (List.mem_cons.mp listed).resolve_left ?_
        rintro rfl
        exact same rfl
      obtain ⟨first, membership, rest, found⟩ := inductionHypothesis later (by
        rw [Std.ExtTreeSet.mem_insert, LawfulEqOrd.compare_eq_iff_eq]
        exact not_or.mpr ⟨same, new⟩)
      exact ⟨first, List.mem_cons_of_mem _ membership, rest, List.mem_cons_of_mem _ found⟩

theorem poolLinks_nodup (seen : HashSet I) (reserves : List (PoolReserves T I F)) :
    ((poolLinks seen reserves).map Prod.fst).Nodup := by
  fun_induction poolLinks seen reserves with
  | case1 => exact List.nodup_nil
  | case2 seen reserve reserves loop inductionHypothesis => exact inductionHypothesis
  | case3 seen reserve reserves apart old inductionHypothesis => exact inductionHypothesis
  | case4 seen reserve reserves apart new inductionHypothesis =>
    rw [List.map_cons, List.nodup_cons]
    refine ⟨fun again => ?_, inductionHypothesis⟩
    obtain ⟨link, listed, same⟩ := List.mem_map.mp again
    obtain ⟨other, -, rfl, -, fresh⟩ := mem_poolLinks listed
    rw [Link.pool.inj same] at fresh
    exact fresh Std.ExtTreeSet.mem_insert_self

end

section

variable {T I : Type} [Ord T] [TransOrd T] [DecidableEq T]

def bridgeLinks : HashSet (T × T) → List (T × T) → List (Link T I × T × T)
  | _, [] => []
  | seen, (a, b) :: bridges =>
    if a = b ∨ (b, a) ∈ seen ∨ (a, b) ∈ seen then bridgeLinks seen bridges
    else (.bridge s(a, b), a, b) :: bridgeLinks (seen.insert (a, b)) bridges

theorem bridgeLinks_edges (seen : HashSet (T × T)) (bridges : List (T × T)) :
    ((bridgeLinks seen bridges : List (Link T I × T × T)).map Prod.snd) =
      bridgeEdges seen bridges := by
  fun_induction bridgeLinks seen bridges <;> simp_all [bridgeEdges]

theorem mem_bridgeLinks {seen : HashSet (T × T)} {bridges : List (T × T)}
    {link : Link T I × T × T} (listed : link ∈ bridgeLinks seen bridges) :
    ∃ a b, (a, b) ∈ bridges ∧ link = (.bridge s(a, b), a, b) ∧ a ≠ b ∧
      (a, b) ∉ seen ∧ (b, a) ∉ seen := by
  fun_induction bridgeLinks seen bridges with
  | case1 => exact absurd listed List.not_mem_nil
  | case2 seen a b bridges skipped inductionHypothesis =>
    obtain ⟨a', b', membership, rest⟩ := inductionHypothesis listed
    exact ⟨a', b', List.mem_cons_of_mem _ membership, rest⟩
  | case3 seen a b bridges new inductionHypothesis =>
    rcases List.mem_cons.mp listed with rfl | later
    · exact ⟨a, b, List.mem_cons_self, rfl, by grind⟩
    · obtain ⟨a', b', membership, same, apart, fresh, fresh'⟩ := inductionHypothesis later
      exact ⟨a', b', List.mem_cons_of_mem _ membership, same, apart,
        fun old => fresh (Std.ExtTreeSet.mem_insert.mpr (.inr old)),
        fun old => fresh' (Std.ExtTreeSet.mem_insert.mpr (.inr old))⟩

theorem exists_bridgeLinks [LawfulEqOrd T] {seen : HashSet (T × T)} {bridges : List (T × T)} {a b : T}
    (listed : (a, b) ∈ bridges) (apart : a ≠ b) (new : (a, b) ∉ seen) (new' : (b, a) ∉ seen) :
    (.bridge s(a, b), a, b) ∈ (bridgeLinks seen bridges : List (Link T I × T × T)) ∨
      (.bridge s(a, b), b, a) ∈ (bridgeLinks seen bridges : List (Link T I × T × T)) := by
  fun_induction bridgeLinks seen bridges with
  | case1 => exact absurd listed List.not_mem_nil
  | case2 seen a' b' bridges skipped inductionHypothesis =>
    rcases List.mem_cons.mp listed with same | later
    · obtain ⟨rfl, rfl⟩ := Prod.mk.inj same
      grind
    · exact inductionHypothesis later new new'
  | case3 seen a' b' bridges fresh inductionHypothesis =>
    by_cases same : (a, b) = (a', b')
    · obtain ⟨rfl, rfl⟩ := Prod.mk.inj same
      exact .inl List.mem_cons_self
    · by_cases mirrored : (b, a) = (a', b')
      · obtain ⟨rfl, rfl⟩ := Prod.mk.inj mirrored
        exact .inr (by rw [Sym2.eq_swap]; exact List.mem_cons_self)
      · have later := (List.mem_cons.mp listed).resolve_left same
        rcases inductionHypothesis later
          (by
            rw [Std.ExtTreeSet.mem_insert, LawfulEqOrd.compare_eq_iff_eq]
            exact not_or.mpr ⟨Ne.symm same, new⟩)
          (by
            rw [Std.ExtTreeSet.mem_insert, LawfulEqOrd.compare_eq_iff_eq]
            exact not_or.mpr ⟨Ne.symm mirrored, new'⟩) with found | found
        · exact .inl (List.mem_cons_of_mem _ found)
        · exact .inr (List.mem_cons_of_mem _ found)

theorem bridgeLinks_nodup (seen : HashSet (T × T)) (bridges : List (T × T)) :
    ((bridgeLinks seen bridges : List (Link T I × T × T)).map Prod.fst).Nodup := by
  fun_induction bridgeLinks seen bridges with
  | case1 => exact List.nodup_nil
  | case2 seen a b bridges skipped inductionHypothesis => exact inductionHypothesis
  | case3 seen a b bridges new inductionHypothesis =>
    rw [List.map_cons, List.nodup_cons]
    refine ⟨fun again => ?_, inductionHypothesis⟩
    obtain ⟨link, listed, same⟩ := List.mem_map.mp again
    obtain ⟨a', b', -, rfl, -, fresh, fresh'⟩ := mem_bridgeLinks listed
    rcases Sym2.eq_iff.mp (Link.bridge.inj same) with ⟨rfl, rfl⟩ | ⟨rfl, rfl⟩
    · exact fresh Std.ExtTreeSet.mem_insert_self
    · exact fresh' Std.ExtTreeSet.mem_insert_self

end

section

variable {T I F : Type} [Ord T] [TransOrd T] [LawfulEqOrd T] [DecidableEq T]
  [Ord I] [TransOrd I] [LawfulEqOrd I]

def demandLinks (sourceAsset outputAsset : T) : List (Link T I × T × T) :=
  if sourceAsset = outputAsset then [] else [(.demand, sourceAsset, outputAsset)]

def routeLinks (reserves : List (PoolReserves T I F)) (sourceAsset outputAsset : T)
    (bridges : List (T × T)) : List (Link T I × T × T) :=
  poolLinks ∅ reserves ++ bridgeLinks ∅ bridges ++ demandLinks sourceAsset outputAsset

omit [Ord T] [TransOrd T] [LawfulEqOrd T] [Ord I] [TransOrd I] [LawfulEqOrd I] in
theorem mem_demandLinks {sourceAsset outputAsset : T} {link : Link T I × T × T}
    (listed : link ∈ demandLinks sourceAsset outputAsset) :
    sourceAsset ≠ outputAsset ∧ link = (.demand, sourceAsset, outputAsset) := by
  unfold demandLinks at listed
  split at listed
  · exact absurd listed List.not_mem_nil
  · exact ⟨‹_›, List.mem_singleton.mp listed⟩

omit [LawfulEqOrd I] in
theorem joins_of_mem_routeLinks {reserves : List (PoolReserves T I F)} {sourceAsset outputAsset : T}
    {bridges : HashSet (T × T)} {drained : List (T × T)} (perm : drained.Perm bridges.toList)
    {e : Link T I} {u v : T}
    (listed : (e, u, v) ∈ routeLinks reserves sourceAsset outputAsset drained) :
    (routeMultigraph reserves sourceAsset outputAsset bridges).joins e u v := by
  rcases List.mem_append.mp listed with earlier | demand
  · rcases List.mem_append.mp earlier with pool | bridge
    · obtain ⟨reserve, member, same, apart, -⟩ := mem_poolLinks pool
      obtain ⟨rfl, rfl, rfl⟩ := by simpa using same
      exact ⟨apart, reserve, member, rfl, rfl⟩
    · obtain ⟨a, b, member, same, apart, -⟩ := mem_bridgeLinks bridge
      obtain ⟨rfl, rfl, rfl⟩ := by simpa using same
      rw [perm.mem_iff, Std.ExtTreeSet.mem_toList] at member
      exact ⟨apart, rfl, .inl member⟩
  · obtain ⟨apart, same⟩ := mem_demandLinks demand
    obtain ⟨rfl, rfl, rfl⟩ := by simpa using same
    exact ⟨apart, rfl⟩

omit [LawfulEqOrd T] [LawfulEqOrd I] in
theorem routeLinks_nodup (reserves : List (PoolReserves T I F)) (sourceAsset outputAsset : T)
    (drained : List (T × T)) :
    ((routeLinks reserves sourceAsset outputAsset drained).map Prod.fst).Nodup := by
  have demand : ((demandLinks sourceAsset outputAsset : List (Link T I × T × T)).map
      Prod.fst).Nodup := by
    unfold demandLinks
    split <;> simp
  unfold routeLinks
  rw [List.map_append, List.map_append, List.nodup_append', List.nodup_append']
  refine ⟨⟨poolLinks_nodup ∅ reserves, bridgeLinks_nodup ∅ drained, ?_⟩, demand, ?_⟩
  · rw [List.disjoint_left]
    intro e pool bridge
    obtain ⟨link, listed, rfl⟩ := List.mem_map.mp pool
    obtain ⟨link', listed', same⟩ := List.mem_map.mp bridge
    obtain ⟨_, _, named, -⟩ := mem_poolLinks listed
    obtain ⟨_, _, _, named', -⟩ := mem_bridgeLinks listed'
    simp [named, named'] at same
  · rw [List.disjoint_left]
    intro e earlier demand
    obtain ⟨link', listed', rfl⟩ := List.mem_map.mp demand
    obtain ⟨-, named'⟩ := mem_demandLinks listed'
    rcases List.mem_append.mp earlier with pool | bridge
    · obtain ⟨link, listed, same⟩ := List.mem_map.mp pool
      obtain ⟨_, _, named, -⟩ := mem_poolLinks listed
      simp [named, named'] at same
    · obtain ⟨link, listed, same⟩ := List.mem_map.mp bridge
      obtain ⟨_, _, _, named, -⟩ := mem_bridgeLinks listed
      simp [named, named'] at same

/-- The filter's edges are those of the multigraph. -/
theorem routeLinks_listed {reserves : List (PoolReserves T I F)} (pairs : PoolPairs reserves)
    (sourceAsset outputAsset : T) {bridges : HashSet (T × T)} {drained : List (T × T)}
    (perm : drained.Perm bridges.toList) :
    (routeMultigraph reserves sourceAsset outputAsset bridges).ListedBy
      (routeLinks reserves sourceAsset outputAsset drained) := by
  refine ⟨routeLinks_nodup reserves sourceAsset outputAsset drained, fun e u v => ⟨?_, ?_⟩⟩
  · intro joined
    simp only [routeLinks, List.mem_append]
    cases e with
    | pool poolId =>
      obtain ⟨apart, reserve, listed, rfl, ends⟩ := joined
      have apart' : reserve.token0 ≠ reserve.token1 := by
        intro same
        rw [same] at ends
        rcases Sym2.eq_iff.mp ends with ⟨rfl, same⟩ | ⟨rfl, same⟩
        · exact apart same
        · exact apart same.symm
      obtain ⟨first, member, same, found⟩ := exists_poolLinks listed apart'
        Std.ExtTreeSet.not_mem_empty
      rw [← pairs first member reserve listed same] at ends
      rcases Sym2.eq_iff.mp ends with ⟨rfl, rfl⟩ | ⟨rfl, rfl⟩
      · exact .inl (.inl (.inl found))
      · exact .inr (.inl (.inl found))
    | bridge ends =>
      obtain ⟨apart, rfl, listed | listed⟩ := joined
      · rcases exists_bridgeLinks
          (perm.mem_iff.mpr (Std.ExtTreeSet.mem_toList.mpr listed)) apart
          Std.ExtTreeSet.not_mem_empty Std.ExtTreeSet.not_mem_empty with found | found
        · exact .inl (.inl (.inr found))
        · exact .inr (.inl (.inr found))
      · rw [Sym2.eq_swap]
        rcases exists_bridgeLinks
          (perm.mem_iff.mpr (Std.ExtTreeSet.mem_toList.mpr listed)) apart.symm
          Std.ExtTreeSet.not_mem_empty Std.ExtTreeSet.not_mem_empty with found | found
        · exact .inr (.inl (.inr found))
        · exact .inl (.inl (.inr found))
    | demand =>
      obtain ⟨apart, ends⟩ := joined
      rcases Sym2.eq_iff.mp ends with ⟨rfl, rfl⟩ | ⟨rfl, rfl⟩
      · exact .inl (.inr (by simp [demandLinks, apart]))
      · exact .inr (.inr (by simp [demandLinks, apart.symm]))
  · rintro (listed | listed)
    · exact joins_of_mem_routeLinks perm listed
    · exact (routeMultigraph reserves sourceAsset outputAsset bridges).symm
        (joins_of_mem_routeLinks perm listed)

/-! ### The adjacency of a list of edges -/

theorem neighbors_addEdge (adjacency : Adjacency T) (edge : T × T) (v : T) :
    (adjacency.addEdge edge).neighbors v =
      adjacency.neighbors v ++ Multigraph.oppositeEnds v edge := by
  have push (adjacency : Adjacency T) (token neighbor : T) :
      (adjacency.push token neighbor).neighbors v =
        adjacency.neighbors v ++ if v = token then [neighbor] else [] := by
    rw [Adjacency.push, Adjacency.neighbors, HashMap.getElem?_insert]
    split
    · rename_i same
      rw [same]
      rfl
    · rw [List.append_nil]
      rfl
  rw [Adjacency.addEdge, push, push, List.append_assoc]
  rfl

theorem neighbors_foldl (adjacency : Adjacency T) (edges : List (T × T)) (v : T) :
    (edges.foldl Adjacency.addEdge adjacency).neighbors v =
      adjacency.neighbors v ++ edges.flatMap (Multigraph.oppositeEnds v) := by
  induction edges generalizing adjacency with
  | nil => simp
  | cons edge edges inductionHypothesis =>
    rw [List.foldl_cons, inductionHypothesis, neighbors_addEdge, List.flatMap_cons,
      List.append_assoc]

theorem mem_foldl {edges : List (T × T)} {adjacency : Adjacency T}
    (listed : ∀ v, v ∈ adjacency ↔ adjacency.neighbors v ≠ []) (v : T) :
    v ∈ edges.foldl Adjacency.addEdge adjacency ↔
      (edges.foldl Adjacency.addEdge adjacency).neighbors v ≠ [] := by
  induction edges generalizing adjacency with
  | nil => exact listed v
  | cons edge edges inductionHypothesis =>
    apply inductionHypothesis
    intro u
    have grown : u ∈ adjacency.addEdge edge ↔ (edge.2 = u ∨ edge.1 = u) ∨ u ∈ adjacency := by
      simp only [Adjacency.addEdge, Adjacency.push, Std.ExtTreeMap.mem_insert,
        LawfulEqOrd.compare_eq_iff_eq, or_assoc]
    rw [grown, neighbors_addEdge, listed, Multigraph.oppositeEnds]
    simp only [ne_eq, List.append_eq_nil_iff]
    by_cases first : edge.1 = u <;> by_cases second : edge.2 = u <;> grind

omit [LawfulEqOrd T] [LawfulEqOrd I] in
theorem RouteOrder.routableReserves_eq_or (order : RouteOrder T)
    (reserves : List (PoolReserves T I F)) (sourceAsset outputAsset : T)
    (bridges : HashSet (T × T)) :
    order.routableReserves reserves sourceAsset outputAsset bridges = reserves ∨
      order.routableReserves reserves sourceAsset outputAsset bridges =
        reserves.filter (fun reserve =>
          reserve.token0 ∈ order.routableTokens reserves sourceAsset outputAsset bridges ∧
            reserve.token1 ∈ order.routableTokens reserves sourceAsset outputAsset bridges) := by
  simp only [RouteOrder.routableReserves]
  split
  · exact .inl rfl
  · split
    · exact .inl rfl
    · exact .inr rfl

section Filter

variable (order : RouteOrder T) {reserves : List (PoolReserves T I F)} (pairs : PoolPairs reserves)
  (sourceAsset outputAsset : T) (bridges : HashSet (T × T))

omit [LawfulEqOrd I] in
theorem RouteOrder.neighbors_routeGraph (v : T) :
    (order.routeGraph reserves sourceAsset outputAsset bridges).neighbors v =
      ((routeLinks reserves sourceAsset outputAsset (order.bridges bridges)).map Prod.snd).flatMap
        (Multigraph.oppositeEnds v) := by
  have demand : (demandLinks sourceAsset outputAsset : List (Link T I × T × T)).map Prod.snd =
      demandEdges sourceAsset outputAsset := by
    unfold demandLinks demandEdges
    split <;> rfl
  rw [RouteOrder.routeGraph, neighbors_foldl, routeLinks, List.map_append, List.map_append,
    poolLinks_edges, bridgeLinks_edges, demand]
  simp [Adjacency.neighbors]

omit [LawfulEqOrd I] in
theorem RouteOrder.routeGraph_symmetric :
    (order.routeGraph reserves sourceAsset outputAsset bridges).Symmetric := by
  constructor
  · intro u v
    rw [order.neighbors_routeGraph, order.neighbors_routeGraph, List.count_flatMap,
      List.count_flatMap]
    congr 1
    apply List.map_congr_left
    intro edge _
    simp only [Function.comp_apply, Multigraph.oppositeEnds, List.count_append]
    grind
  · exact mem_foldl (fun v => by simp [Adjacency.neighbors])

include pairs

theorem RouteOrder.mem_neighbors_iff {u v : T} :
    v ∈ (order.routeGraph reserves sourceAsset outputAsset bridges).neighbors u ↔
      ∃ e, (routeMultigraph reserves sourceAsset outputAsset bridges).joins e u v := by
  rw [order.neighbors_routeGraph]
  exact (routeLinks_listed pairs sourceAsset outputAsset (order.bridges_perm bridges)).mem_flatMap

theorem RouteOrder.minDegreeTwo_iff (s : T → Bool) :
    (order.routeGraph reserves sourceAsset outputAsset bridges).MinDegreeTwo s ↔
      (routeMultigraph reserves sourceAsset outputAsset bridges).MinDegreeTwo {v | s v = true} := by
  rw [(routeLinks_listed pairs sourceAsset outputAsset
    (order.bridges_perm bridges)).minDegreeTwo_iff]
  simp only [Adjacency.MinDegreeTwo, order.neighbors_routeGraph]

omit pairs [LawfulEqOrd T] [DecidableEq T] [Ord I] [TransOrd I] [LawfulEqOrd I] in
theorem RouteOrder.lowDegrees_perm (adjacency : Adjacency T) :
    (((order.degrees (adjacency.map (fun _ neighbors => neighbors.length))).filter
        (fun entry => entry.2 < 2)).map Prod.fst).Perm
      ((adjacency.toList.filter (fun entry => entry.2.length < 2)).map Prod.fst) := by
  have drained := (order.degrees_perm (adjacency.map (fun _ neighbors => neighbors.length))).filter
    (fun entry => decide (entry.2 < 2))
  rw [Std.ExtTreeMap.toList_map, List.filter_map] at drained
  have firsts := drained.map Prod.fst
  rw [List.map_map] at firsts
  exact firsts

/-- What is not stripped is the 2-core. -/
theorem RouteOrder.mem_core_iff (v : T) :
    let adjacency := order.routeGraph reserves sourceAsset outputAsset bridges
    v ∈ (routeMultigraph reserves sourceAsset outputAsset bridges).core ↔
      v ∈ adjacency ∧ v ∉ order.strippedTokens adjacency := by
  intro adjacency
  have symmetric : adjacency.Symmetric :=
    order.routeGraph_symmetric sourceAsset outputAsset bridges
  have counted (s : T → Bool) : adjacency.MinDegreeTwo s ↔
      (routeMultigraph reserves sourceAsset outputAsset bridges).MinDegreeTwo {v | s v = true} :=
    order.minDegreeTwo_iff pairs sourceAsset outputAsset bridges s
  obtain ⟨outside, left⟩ := strippedTokensFrom_exact symmetric (order.lowDegrees_perm adjacency)
  constructor
  · intro inside
    classical
    have core : adjacency.MinDegreeTwo (fun v =>
        decide (v ∈ (routeMultigraph reserves sourceAsset outputAsset bridges).core)) := by
      rw [counted]
      simpa using Multigraph.minDegreeTwo_core
    constructor
    · obtain ⟨e, -, -, ⟨u, -, joined⟩, -⟩ := Multigraph.minDegreeTwo_core v inside
      have adjacent : u ∈ adjacency.neighbors v :=
        (order.mem_neighbors_iff pairs sourceAsset outputAsset bridges).mpr ⟨e, joined⟩
      exact (symmetric.listed v).mpr (List.ne_nil_of_mem adjacent)
    · intro gone
      have absent := outside _ core v gone
      rw [decide_eq_false_iff_not] at absent
      exact absent inside
  · intro kept
    rw [counted] at left
    exact Multigraph.subset_core left (decide_eq_true kept)

theorem RouteOrder.mem_routableTokens_iff (v : T) :
    v ∈ order.routableTokens reserves sourceAsset outputAsset bridges ↔
      v ∈ (routeMultigraph reserves sourceAsset outputAsset bridges).coreComponent sourceAsset := by
  have symmetric : (order.routeGraph reserves sourceAsset outputAsset bridges).Symmetric :=
    order.routeGraph_symmetric sourceAsset outputAsset bridges
  have core := order.mem_core_iff pairs sourceAsset outputAsset bridges
  have adjacent {u v : T} := order.mem_neighbors_iff pairs sourceAsset outputAsset bridges
    (u := u) (v := v)
  unfold RouteOrder.routableTokens
  simp only at core ⊢
  generalize order.routeGraph reserves sourceAsset outputAsset bridges = adjacency at *
  generalize order.strippedTokens adjacency = removed at *
  split
  · rename_i unroutable
    refine iff_of_false Std.ExtTreeSet.not_mem_empty (fun inside => ?_)
    obtain ⟨known, present⟩ := (core sourceAsset).mp inside.1
    rcases unroutable with gone | unknown
    · exact present gone
    · exact unknown known
  · rename_i routable
    obtain ⟨present, known⟩ := not_or.mp routable
    have inside := (core sourceAsset).mpr ⟨not_not.mp known, present⟩
    have steps : adjacency.Step removed =
        (routeMultigraph reserves sourceAsset outputAsset bridges).CoreStep := by
      funext u w
      apply propext
      constructor
      · rintro ⟨neighbor, left⟩
        exact ⟨(core w).mpr ⟨symmetric.known neighbor, left⟩, adjacent.mp neighbor⟩
      · rintro ⟨inside', joined⟩
        exact ⟨adjacent.mpr joined, ((core w).mp inside').2⟩
    rw [growLoop_exact symmetric, steps]
    exact (and_iff_right inside).symm

/-- Which reserves are kept, when any are dropped. -/
theorem RouteOrder.mem_pruned_iff (reserve : PoolReserves T I F) :
    reserve ∈ reserves.filter (fun reserve =>
        reserve.token0 ∈ order.routableTokens reserves sourceAsset outputAsset bridges ∧
          reserve.token1 ∈ order.routableTokens reserves sourceAsset outputAsset bridges) ↔
      reserve ∈ reserves ∧
        reserve.token0 ∈ (routeMultigraph reserves sourceAsset outputAsset
          bridges).coreComponent sourceAsset ∧
        reserve.token1 ∈ (routeMultigraph reserves sourceAsset outputAsset
          bridges).coreComponent sourceAsset := by
  rw [List.mem_filter, decide_eq_true_eq,
    order.mem_routableTokens_iff pairs, order.mem_routableTokens_iff pairs]

/-- The order in which the hash maps are drained leaves no trace. -/
theorem RouteOrder.routableReserves_eq (order' : RouteOrder T) :
    order.routableReserves reserves sourceAsset outputAsset bridges =
      order'.routableReserves reserves sourceAsset outputAsset bridges := by
  have same (v : T) : v ∈ order.routableTokens reserves sourceAsset outputAsset bridges ↔
      v ∈ order'.routableTokens reserves sourceAsset outputAsset bridges :=
    (order.mem_routableTokens_iff pairs sourceAsset outputAsset bridges v).trans
      (order'.mem_routableTokens_iff pairs sourceAsset outputAsset bridges v).symm
  simp only [RouteOrder.routableReserves, same]

omit pairs [LawfulEqOrd T] [Ord I] [TransOrd I] [LawfulEqOrd I] in
/-- A route that uses no pool and no bridge twice lies in the component of the source asset. -/
theorem trail_subset_coreComponent {steps : List (Link T I × T)}
    (walk : (routeMultigraph reserves sourceAsset outputAsset bridges).Walk sourceAsset steps)
    (arrives : Multigraph.walkEnd sourceAsset steps = outputAsset) (moves : steps ≠ [])
    (distinct : (steps.map Prod.fst).Nodup) (real : .demand ∉ steps.map Prod.fst) :
    Multigraph.walkVertices sourceAsset steps ⊆
      (routeMultigraph reserves sourceAsset outputAsset bridges).coreComponent sourceAsset := by
  by_cases closed : sourceAsset = outputAsset
  · exact walk.mem_coreComponent (arrives.trans closed.symm) moves distinct
  · have back : (routeMultigraph reserves sourceAsset outputAsset bridges).Walk
        (Multigraph.walkEnd sourceAsset steps) [(.demand, sourceAsset)] := by
      rw [arrives]
      exact .cons ⟨Ne.symm closed, Sym2.eq_swap⟩ (.nil _)
    have around := (walk.append back).mem_coreComponent
      (by rw [Multigraph.walkEnd_append]; rfl) (by simp)
      (by
        rw [List.map_append, List.nodup_append']
        exact ⟨distinct, List.nodup_singleton _, by simpa using real⟩)
    refine Set.Subset.trans ?_ around
    rintro v (rfl | later)
    · exact .inl rfl
    · exact .inr (by rw [List.map_append]; exact List.mem_append_left _ later)

/-- Every reserve of every pool on such a route survives the filter. -/
theorem RouteOrder.trail_survives {steps : List (Link T I × T)}
    (walk : (routeMultigraph reserves sourceAsset outputAsset bridges).Walk sourceAsset steps)
    (arrives : Multigraph.walkEnd sourceAsset steps = outputAsset)
    (distinct : (steps.map Prod.fst).Nodup) (real : .demand ∉ steps.map Prod.fst)
    {reserve : PoolReserves T I F} (member : reserve ∈ reserves)
    (onTrail : .pool reserve.poolId ∈ steps.map Prod.fst) :
    reserve ∈ order.routableReserves reserves sourceAsset outputAsset bridges := by
  obtain ⟨⟨e, v⟩, listed, named⟩ := List.mem_map.mp onTrail
  obtain rfl : e = .pool reserve.poolId := named
  have kept := trail_subset_coreComponent sourceAsset outputAsset bridges walk arrives
    (List.ne_nil_of_mem listed) distinct real
  obtain ⟨u, visited, visited', -, other, member', same, ends⟩ := walk.exists_joins listed
  rw [pairs other member' reserve member same] at ends
  have survives : reserve ∈ reserves.filter (fun reserve =>
      reserve.token0 ∈ order.routableTokens reserves sourceAsset outputAsset bridges ∧
        reserve.token1 ∈ order.routableTokens reserves sourceAsset outputAsset bridges) := by
    rw [order.mem_pruned_iff pairs]
    rcases Sym2.eq_iff.mp ends with ⟨rfl, rfl⟩ | ⟨rfl, rfl⟩
    · exact ⟨member, kept visited, kept visited'⟩
    · exact ⟨member, kept visited', kept visited⟩
  have start : sourceAsset ∈ order.routableTokens reserves sourceAsset outputAsset bridges :=
    (order.mem_routableTokens_iff pairs sourceAsset outputAsset bridges sourceAsset).mpr
      (kept (.inl rfl))
  simp only [RouteOrder.routableReserves]
  rw [if_neg (not_not.mpr start), if_neg (by
    rw [List.isEmpty_iff]
    exact List.ne_nil_of_mem survives)]
  exact survives

/-- The component of the source asset is the same in the multigraph of the pruned reserves. -/
theorem coreComponent_pruned :
    (routeMultigraph (reserves.filter (fun reserve =>
        reserve.token0 ∈ order.routableTokens reserves sourceAsset outputAsset bridges ∧
          reserve.token1 ∈ order.routableTokens reserves sourceAsset outputAsset bridges))
        sourceAsset outputAsset bridges).coreComponent sourceAsset =
      (routeMultigraph reserves sourceAsset outputAsset bridges).coreComponent sourceAsset := by
  apply Multigraph.coreComponent_eq_of_subgraph
  · intro e u v joined
    cases e with
    | pool poolId =>
      obtain ⟨apart, reserve, member, rest⟩ := joined
      exact ⟨apart, reserve, (List.mem_filter.mp member).1, rest⟩
    | bridge ends => exact joined
    | demand => exact joined
  · intro e u inside v inside' joined
    cases e with
    | pool poolId =>
      obtain ⟨apart, reserve, member, named, ends⟩ := joined
      refine ⟨apart, reserve, (order.mem_pruned_iff pairs _ _ _ _).mpr ⟨member, ?_⟩, named, ends⟩
      rcases Sym2.eq_iff.mp ends with ⟨rfl, rfl⟩ | ⟨rfl, rfl⟩
      · exact ⟨inside, inside'⟩
      · exact ⟨inside', inside⟩
    | bridge ends => exact joined
    | demand => exact joined

/-- Filtering again, in whatever order, changes nothing. -/
theorem RouteOrder.routableReserves_idempotent (order' : RouteOrder T) :
    order'.routableReserves (order.routableReserves reserves sourceAsset outputAsset bridges)
        sourceAsset outputAsset bridges =
      order.routableReserves reserves sourceAsset outputAsset bridges := by
  have component := coreComponent_pruned order pairs sourceAsset outputAsset bridges
  have member := order.mem_pruned_iff pairs sourceAsset outputAsset bridges
  rcases order.routableReserves_eq_or reserves sourceAsset outputAsset bridges with
    whole | pruned
  · rw [whole, order'.routableReserves_eq pairs sourceAsset outputAsset bridges order, whole]
  · rw [← pruned] at component member
    have pairs' : PoolPairs (order.routableReserves reserves sourceAsset outputAsset bridges) :=
      fun reserve listed reserve' listed' =>
        pairs reserve ((member reserve).mp listed).1 reserve' ((member reserve').mp listed').1
    rcases order'.routableReserves_eq_or (order.routableReserves reserves sourceAsset outputAsset
      bridges) sourceAsset outputAsset bridges with whole | again
    · exact whole
    · rw [again, List.filter_eq_self]
      intro reserve listed
      rw [decide_eq_true_eq, order'.mem_routableTokens_iff pairs',
        order'.mem_routableTokens_iff pairs', component]
      exact ((member reserve).mp listed).2

/-- In whatever order the hash maps are drained, the tokens that are kept are the component
of the source asset in the 2-core. -/
theorem RouteOrder.routableTokens_exact :
    {v | v ∈ order.routableTokens reserves sourceAsset outputAsset bridges} =
      (routeMultigraph reserves sourceAsset outputAsset bridges).coreComponent sourceAsset :=
  Set.ext (order.mem_routableTokens_iff pairs sourceAsset outputAsset bridges)

end Filter

end

def unitValue : VirtualReserveValues Unit := ⟨(), (), (), (), ()⟩

/-- A triangle with a leaf. -/
def leafyTriangle : List (PoolReserves Nat Nat Unit) :=
  [⟨1, 2, 10, unitValue⟩, ⟨2, 1, 10, unitValue⟩, ⟨2, 3, 11, unitValue⟩, ⟨3, 1, 12, unitValue⟩,
    ⟨1, 4, 13, unitValue⟩]

theorem leafyTriangle_pairs : PoolPairs leafyTriangle := by
  simp [PoolPairs, leafyTriangle]

theorem routableTokens_exact_leafyTriangle :
    {v | v ∈ RouteOrder.byKey.routableTokens leafyTriangle 1 1 ∅} =
      (routeMultigraph leafyTriangle 1 1 ∅).coreComponent 1 :=
  RouteOrder.byKey.routableTokens_exact leafyTriangle_pairs 1 1 ∅

/-- The route over the second token. -/
theorem trail_survives_leafyTriangle :
    (⟨2, 1, 10, unitValue⟩ : PoolReserves Nat Nat Unit) ∈
      RouteOrder.byKey.routableReserves leafyTriangle 1 3 ∅ := by
  have first : (routeMultigraph leafyTriangle 1 3 ∅).joins (.pool 10) 1 2 :=
    ⟨by decide, _, List.mem_cons_self, rfl, rfl⟩
  have second : (routeMultigraph leafyTriangle 1 3 ∅).joins (.pool 11) 2 3 :=
    ⟨by decide, ⟨2, 3, 11, unitValue⟩, by simp [leafyTriangle], rfl, rfl⟩
  exact RouteOrder.byKey.trail_survives leafyTriangle_pairs 1 3 ∅
    (.cons first (.cons second (.nil 3))) rfl (by simp) (by simp)
    (by simp [leafyTriangle]) (by simp)

theorem routableReserves_idempotent_leafyTriangle :
    RouteOrder.byKey.routableReserves (RouteOrder.byKey.routableReserves leafyTriangle 1 3 ∅) 1 3 ∅ =
      RouteOrder.byKey.routableReserves leafyTriangle 1 3 ∅ :=
  RouteOrder.byKey.routableReserves_idempotent leafyTriangle_pairs 1 3 ∅ .byKey

end ArmchairAnalyst.Optimization

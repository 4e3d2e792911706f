import ArmchairAnalyst.Kernel.ReanchoringProofs

/-!
# Folds over the connected path

What a fold reads is a list of logs, and what it computes for one pool only
depends on that pool's events in the list.
-/

namespace ArmchairAnalyst

/-- The events of one pool in a list of logs, in order. -/
def eventsFor (key : ProtocolPoolKey) (logs : List PoolLog) : List PoolLogEvent :=
  (logs.filter (fun log => log.pool = key)).map (·.event)

@[simp] theorem eventsFor_nil (key : ProtocolPoolKey) : eventsFor key [] = [] := rfl

theorem eventsFor_append (key : ProtocolPoolKey) (first second : List PoolLog) :
    eventsFor key (first ++ second) = eventsFor key first ++ eventsFor key second := by
  simp [eventsFor]

theorem eventsFor_eq_nil {key : ProtocolPoolKey} {logs : List PoolLog}
    (apart : ∀ log ∈ logs, log.pool ≠ key) : eventsFor key logs = [] := by
  simp only [eventsFor, List.map_eq_nil_iff, List.filter_eq_nil_iff, decide_eq_true_eq]
  exact apart

/-- The state of a pool after a list of logs: its base folded forward, or its own
run when it is tracked without a base. An overflow leaves the base. -/
def mergedState (base : HashMap PoolRef PoolState) (verified : HashSet PoolRef)
    (logs : List PoolLog) (pool : PoolRef) : Option PoolState :=
  match base[pool]? with
  | some state => some ((derivePoolState (some state) (eventsFor pool.key logs)).getD state)
  | none =>
    if pool ∈ verified then derivePoolState none (eventsFor pool.key logs) else none

namespace BlocksGraph

/-! ### Buckets -/

theorem getElem?_buckets (logs : List PoolLog)
    (buckets : HashMap ProtocolPoolKey (List PoolLogEvent)) (key : ProtocolPoolKey) :
    (logs.foldl pushEvent buckets)[key]? =
      if eventsFor key logs = [] then buckets[key]?
      else some (buckets[key]?.getD [] ++ eventsFor key logs) := by
  induction logs generalizing buckets with
  | nil => simp
  | cons log logs inductionHypothesis =>
    rw [List.foldl_cons, inductionHypothesis]
    by_cases same : log.pool = key
    · subst same
      have first : eventsFor log.pool (log :: logs) = log.event :: eventsFor log.pool logs := by
        simp [eventsFor]
      rw [first]
      by_cases empty : eventsFor log.pool logs = []
      · simp [pushEvent, empty]
      · simp [pushEvent, empty]
    · have skip : eventsFor key (log :: logs) = eventsFor key logs := by simp [eventsFor, same]
      have lookup : (pushEvent buckets log)[key]? = buckets[key]? := by
        simp only [pushEvent]
        grind
      rw [skip, lookup]

/-! ### The overlay -/

/-- What the fold derives for a pool that its logs touch. -/
def bucketState (buckets : HashMap ProtocolPoolKey (List PoolLogEvent))
    (state : Option PoolState) (pool : PoolRef) : Option PoolState :=
  buckets[pool.key]?.bind (derivePoolState state)

theorem getElem?_foldBasePool (buckets : HashMap ProtocolPoolKey (List PoolLogEvent))
    (overlay : HashMap PoolRef PoolState) (entry : PoolRef × PoolState) (pool : PoolRef) :
    (foldBasePool buckets overlay entry)[pool]? =
      if entry.1 = pool then
        (bucketState buckets (some entry.2) pool).or overlay[pool]?
      else overlay[pool]? := by
  unfold foldBasePool bucketState
  by_cases same : entry.1 = pool
  · subst same
    cases found : buckets[entry.1.key]? with
    | none => simp
    | some run =>
      cases derived : derivePoolState (some entry.2) run with
      | none => simp [derived]
      | some folded => simp [derived]
  · split
    · split
      · grind
      · simp [same]
    · simp [same]

theorem getElem?_seedVerifiedPool (buckets : HashMap ProtocolPoolKey (List PoolLogEvent))
    (base overlay : HashMap PoolRef PoolState) (seed pool : PoolRef) :
    (seedVerifiedPool buckets base overlay seed)[pool]? =
      if seed = pool ∧ pool ∉ base then (bucketState buckets none pool).or overlay[pool]?
      else overlay[pool]? := by
  unfold seedVerifiedPool bucketState
  by_cases same : seed = pool
  · subst same
    by_cases covered : seed ∈ base
    · simp [covered]
    · cases found : buckets[seed.key]? with
      | none => simp [covered]
      | some run =>
        cases derived : derivePoolState none run with
        | none => simp [covered, derived]
        | some folded => simp [covered, derived]
  · split
    · simp [same]
    · split
      · split
        · grind
        · simp [same]
      · simp [same]

theorem getElem?_foldBase (buckets : HashMap ProtocolPoolKey (List PoolLogEvent))
    (entries : List (PoolRef × PoolState)) (distinct : (entries.map Prod.fst).Nodup)
    (overlay : HashMap PoolRef PoolState) (pool : PoolRef) :
    (entries.foldl (foldBasePool buckets) overlay)[pool]? =
      ((entries.find? (fun entry => entry.1 = pool)).bind (fun entry =>
        bucketState buckets (some entry.2) pool)).or overlay[pool]? := by
  induction entries generalizing overlay with
  | nil => simp
  | cons entry entries inductionHypothesis =>
    obtain ⟨fresh, distinct⟩ := List.nodup_cons.mp distinct
    rw [List.foldl_cons, inductionHypothesis distinct, getElem?_foldBasePool]
    by_cases same : entry.1 = pool
    · subst same
      have absent : entries.find? (fun other => other.1 = entry.1) = none := by
        rw [List.find?_eq_none]
        intro other membership
        simp only [decide_eq_true_eq]
        exact fun same => fresh (List.mem_map.mpr ⟨other, membership, same⟩)
      simp [absent]
    · simp [same]

theorem getElem?_seedVerified (buckets : HashMap ProtocolPoolKey (List PoolLogEvent))
    (base : HashMap PoolRef PoolState) (seeds : List PoolRef)
    (overlay : HashMap PoolRef PoolState) (pool : PoolRef) :
    (seeds.foldl (seedVerifiedPool buckets base) overlay)[pool]? =
      if pool ∈ seeds ∧ pool ∉ base then (bucketState buckets none pool).or overlay[pool]?
      else overlay[pool]? := by
  induction seeds generalizing overlay with
  | nil => simp
  | cons seed seeds inductionHypothesis =>
    rw [List.foldl_cons, inductionHypothesis, getElem?_seedVerifiedPool]
    by_cases same : seed = pool
    · subst same
      by_cases covered : seed ∈ base
      · simp [covered]
      · by_cases again : seed ∈ seeds
        · simp only [covered, again, List.mem_cons, true_or, not_false_eq_true, and_self, if_true]
          cases bucketState buckets none seed <;> simp
        · simp [covered, again]
    · simp [same, Ne.symm same]

theorem find?_toList (base : HashMap PoolRef PoolState) (pool : PoolRef) :
    base.toList.find? (fun entry => entry.1 = pool) = base[pool]?.map (pool, ·) := by
  cases found : base[pool]? with
  | none =>
    rw [Option.map_none, List.find?_eq_none]
    intro entry listed
    simp only [decide_eq_true_eq]
    rintro rfl
    simp [(HashMap.mem_toList_iff base entry).mp listed] at found
  | some state =>
    have listed := (HashMap.mem_toList_iff base (pool, state)).mpr found
    cases search : base.toList.find? (fun entry => entry.1 = pool) with
    | none =>
      rw [List.find?_eq_none] at search
      simpa using search _ listed
    | some entry =>
      have selected : entry.1 = pool := by simpa using List.find?_some search
      have lookup := (HashMap.mem_toList_iff base entry).mp (List.mem_of_find?_eq_some search)
      rw [selected, found] at lookup
      obtain ⟨pool', state'⟩ := entry
      simp_all

/-- The overlay holds exactly the touched pools whose run can be derived. -/
theorem getElem?_foldedOverlay (graph : BlocksGraph) (base : HashMap PoolRef PoolState)
    (verified : HashSet PoolRef) (target : ConnectedHash) (authority : Authority)
    (pool : PoolRef) :
    (graph.foldedOverlay base verified target authority)[pool]? =
      let events := eventsFor pool.key (graph.readablePathLogs target authority)
      if events = [] then none
      else
        match base[pool]? with
        | some state => derivePoolState (some state) events
        | none => if pool ∈ verified then derivePoolState none events else none := by
  unfold foldedOverlay
  simp only
  have keys : (base.toList.map Prod.fst).Nodup := by
    rw [Std.ExtTreeMap.map_fst_toList_eq_keys]
    exact HashMap.keys_nodup base
  rw [getElem?_seedVerified, getElem?_foldBase _ _ keys, find?_toList]
  simp only [bucketState, getElem?_buckets, Std.ExtTreeSet.mem_toList]
  have covered := HashMap.mem_iff_exists base pool
  cases found : base[pool]? with
  | none =>
    have uncovered : pool ∉ base := by simp [covered, found]
    by_cases empty : eventsFor pool.key (graph.readablePathLogs target authority) = []
    · simp [empty]
    · by_cases tracked : pool ∈ verified <;> simp [empty, tracked, uncovered]
  | some state =>
    have based : pool ∈ base := covered.mpr ⟨state, found⟩
    by_cases empty : eventsFor pool.key (graph.readablePathLogs target authority) = []
    · simp [empty]
    · simp [empty, based]

/-- Base and overlay together hold the merged state of every pool. -/
theorem getElem?_foldedPoolStates (graph : BlocksGraph) (base : HashMap PoolRef PoolState)
    (verified : HashSet PoolRef) (target : ConnectedHash) (authority : Authority)
    (pool : PoolRef) :
    (graph.foldedPoolStates base verified target authority)[pool]? =
      mergedState base verified (graph.readablePathLogs target authority) pool := by
  unfold foldedPoolStates mergedState
  rw [Std.ExtTreeMap.getElem?_union, getElem?_foldedOverlay]
  by_cases empty : eventsFor pool.key (graph.readablePathLogs target authority) = []
  · cases base[pool]? with
    | none => simp [empty, derivePoolState]
    | some state => simp [empty, derivePoolState]
  · cases base[pool]? with
    | none => simp [empty]
    | some state =>
      cases derived : derivePoolState (some state)
          (eventsFor pool.key (graph.readablePathLogs target authority)) <;>
        simp [empty, derived]

/-! ### Logs along a list of blocks -/

/-- The readable logs of one block. -/
def blockReads (graph : BlocksGraph) (authority : Authority) (hash : BlockHash) :
    List PoolLog :=
  match graph.connected hash with
  | some node => readLogs node.data.logs authority
  | none => []

/-- The path logs are those of the listed blocks in turn. -/
theorem readablePathLogs_eq (graph : BlocksGraph) (target : ConnectedHash)
    (authority : Authority) :
    graph.readablePathLogs target authority =
      (graph.connectedOldestToNewest target).flatMap (graph.blockReads authority) := by
  unfold readablePathLogs connectedPathData
  induction graph.connectedOldestToNewest target with
  | nil => rfl
  | cons hash hashes inductionHypothesis =>
    rw [List.flatMap_cons, ← inductionHypothesis]
    cases found : graph.connected hash with
    | none => simp [blockReads, found]
    | some node => simp [blockReads, found]

/-! ### The frontier -/

/-- Whether the fold stops before a block. -/
def stopsAt (graph : BlocksGraph) (watched : BloomPatterns) (authority : Authority)
    (hash : BlockHash) : Bool :=
  match graph.connected hash with
  | some node => blocksFold watched authority node.data
  | none => true

theorem foldableFrontierAlong_eq (graph : BlocksGraph) (watched : BloomPatterns)
    (authority : Authority) (start : ConnectedHash) (hashes : List ConnectedHash) :
    graph.foldableFrontierAlong watched authority start hashes =
      (hashes.takeWhile (fun hash => !graph.stopsAt watched authority hash)).getLastD start := by
  induction hashes generalizing start with
  | nil => rfl
  | cons hash hashes inductionHypothesis =>
    unfold foldableFrontierAlong
    cases found : graph.connected hash with
    | none =>
      rw [List.takeWhile_cons_of_neg (by simp [stopsAt, found])]
      rfl
    | some node =>
      by_cases blocked : blocksFold watched authority node.data
      · rw [List.takeWhile_cons_of_neg (by simp [stopsAt, found, blocked])]
        simp [blocked]
      · rw [List.takeWhile_cons_of_pos (by simp [stopsAt, found, blocked]),
          List.getLastD_cons, ← inductionHypothesis]
        simp [blocked]

/-- The path of a block listed on a connected path is the list up to it. -/
theorem connectedOldestToNewest_of_split {graph : BlocksGraph} {head x : BlockHash}
    {path older newer : List BlockHash} (rooted : RootedPath graph.connectedUp head path)
    (split : path.reverse = older ++ x :: newer) :
    graph.connectedOldestToNewest x = older ++ [x] := by
  have reversed : path = newer.reverse ++ x :: older.reverse := by
    rw [← List.reverse_reverse path, split]
    simp
  subst reversed
  rw [connectedOldestToNewest_eq rooted.suffix]
  simp

/-- The path to a foldable frontier is the longest prefix the fold can pass. -/
theorem connectedOldestToNewest_frontier {graph : BlocksGraph} (wellFormed : graph.WellFormed)
    {target : BlockHash} {path : List BlockHash}
    (rooted : RootedPath graph.connectedUp target path) (watched : BloomPatterns)
    (authority : Authority) :
    graph.connectedOldestToNewest (graph.foldableFrontier target watched authority) =
      path.reverse.takeWhile (fun hash => !graph.stopsAt watched authority hash) := by
  unfold foldableFrontier
  rw [foldableFrontierAlong_eq, connectedOldestToNewest_eq rooted]
  have split := (List.takeWhile_append_dropWhile
    (p := fun hash => !graph.stopsAt watched authority hash) (l := path.reverse)).symm
  rcases List.eq_nil_or_concat
    (path.reverse.takeWhile (fun hash => !graph.stopsAt watched authority hash)) with
    empty | ⟨older, x, whole⟩
  · rw [empty]
    apply connectedOldestToNewest_eq_nil
    by_contra isConnected
    exact wellFormed.anchorAbsent (connectedUp_mem (Option.isSome_iff_ne_none.mpr isConnected))
  · rw [whole] at split ⊢
    rw [List.concat_eq_append, List.append_assoc] at split
    rw [List.concat_eq_append, List.getLastD_concat]
    exact connectedOldestToNewest_of_split rooted split

end BlocksGraph

end ArmchairAnalyst

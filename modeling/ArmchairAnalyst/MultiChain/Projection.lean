import ArmchairAnalyst.MultiChainKernel

/-!
# The projection onto reserves

A chain's projection is ready when every pool of its merged view has verified
metadata, verified decimals and values that can be converted.
-/

namespace ArmchairAnalyst.MultiChain

variable [ReserveProjection]

/-- The values of a pool state under the pool's metadata. -/
def projectedValues (pool : PoolRef) (poolState : PoolState) (metadata : ProjectionMetadata) :
    Except ReserveProjection.PoolReserveProjectionError
      (VirtualReserveValues ReserveProjection.F32) :=
  ReserveProjection.poolReserveValues pool poolState metadata.fee metadata.token0 metadata.token1
    metadata.token0Decimals metadata.token1Decimals

/-- The reserves of a pool in the order of its own tokens. -/
def reserveOf (pool : PoolRef) (metadata : ProjectionMetadata)
    (value : VirtualReserveValues ReserveProjection.F32) : Reserves :=
  { token0 := metadata.token0, token1 := metadata.token1, poolId := pool, value }

/-- A pool has its metadata, and its state can be converted. -/
def Projects (state : Kernel.State) (chain : ChainKey) (entry : PoolRef × PoolState) : Prop :=
  ∃ metadata value, projectionMetadata state chain entry.1 = some metadata ∧
    projectedValues entry.1 entry.2 metadata = .ok value

theorem projectReserves_cons {state : Kernel.State} {chain : ChainKey} {pool : PoolRef}
    {metadata : ProjectionMetadata}
    (found : projectionMetadata state chain pool = some metadata) (poolState : PoolState)
    (rest : List (PoolRef × PoolState)) :
    projectReserves state chain ((pool, poolState) :: rest) =
      match projectedValues pool poolState metadata, projectReserves state chain rest with
      | .error failure, _ => .error failure
      | .ok _, .error failure => .error failure
      | .ok _, .ok none => .ok none
      | .ok value, .ok (some reserves) =>
        .ok (some (reserveOf pool metadata value :: (reserveOf pool metadata value).inverse ::
          reserves)) := by
  simp only [projectReserves, found, projectedValues]
  cases ReserveProjection.poolReserveValues pool poolState metadata.fee metadata.token0
      metadata.token1 metadata.token0Decimals metadata.token1Decimals with
  | error failure => rfl
  | ok value =>
    cases projectReserves state chain rest with
    | error failure => rfl
    | ok reserves => cases reserves <;> rfl

theorem projectReserves_blocked {state : Kernel.State} {chain : ChainKey} {pool : PoolRef}
    (missing : projectionMetadata state chain pool = none) (poolState : PoolState)
    (rest : List (PoolRef × PoolState)) :
    projectReserves state chain ((pool, poolState) :: rest) = .ok none := by
  simp only [projectReserves, missing]

theorem projectReserves_ready_iff (state : Kernel.State) (chain : ChainKey)
    (entries : List (PoolRef × PoolState)) :
    (∃ reserves, projectReserves state chain entries = .ok (some reserves)) ↔
      ∀ entry ∈ entries, Projects state chain entry := by
  induction entries with
  | nil => exact ⟨fun _ => by simp, fun _ => ⟨[], rfl⟩⟩
  | cons entry rest inductionHypothesis =>
    rw [List.forall_mem_cons, ← inductionHypothesis]
    obtain ⟨pool, poolState⟩ := entry
    unfold Projects
    cases found : projectionMetadata state chain pool with
    | none => simp [projectReserves_blocked found]
    | some metadata =>
      rw [projectReserves_cons found]
      cases values : projectedValues pool poolState metadata with
      | error failure => simp [values]
      | ok value =>
        cases projectReserves state chain rest with
        | error failure => simp
        | ok reserves => cases reserves <;> simp [values]

/-! ### The optimization update -/

variable [BloomHash]

omit [ReserveProjection] in
theorem projectedPoolStatesIfChanged_eq (graph : BlocksGraph) (base : HashMap PoolRef PoolState)
    (verified : HashSet PoolRef) (v4Manager : Option Address)
    (lastDispatched : Option BlockHash) :
    graph.projectedPoolStatesIfChanged base verified v4Manager lastDispatched =
      if lastDispatched = some (graph.projectedPoolStates base verified v4Manager).2 then none
      else some (graph.projectedPoolStates base verified v4Manager) := by
  unfold BlocksGraph.projectedPoolStatesIfChanged BlocksGraph.projectedPoolStates
  cases graph.projectedFoldFrontier verified v4Manager with
  | none => rfl
  | some frontier => rfl

omit [ReserveProjection] in
/-- The gated update is the current one unless its frontier was dispatched last. -/
theorem optimizationUpdateIfChanged_eq (state : Kernel.State) (chain : ChainKey)
    (lastDispatched : Option BlockHash) :
    optimizationUpdateIfChanged state chain lastDispatched =
      if lastDispatched = some (optimizationUpdate state chain).blockHash then none
      else some (optimizationUpdate state chain) := by
  unfold optimizationUpdateIfChanged
  rw [projectedPoolStatesIfChanged_eq]
  split
  · rename_i same
    exact (if_pos same).symm
  · rename_i moved
    exact (if_neg moved).symm

end ArmchairAnalyst.MultiChain

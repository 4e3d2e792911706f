import ArmchairAnalyst.Client.WeightedRotation

/-!
# Failover over a shared pool

A request picks its endpoints itself, by a cursor, cooldowns and what it has tried. The
cursor and the health of the endpoints are shared, so that other requests may move them
between any two of its steps.
-/

namespace ArmchairAnalyst.Client.Failover

structure EndpointSpec where
  url : String
  label : String
  weight : UInt32

/-- Base cooldown after a failure and its upper bound, in nanoseconds. -/
def cooldownBase : Nat := 2000000000

def cooldownCap : Nat := 60000000000

def maxBackoffShift : Nat := 5

def backoffDuration (consecutiveFailures : UInt32) : Nat :=
  min (cooldownBase * 2 ^ min (consecutiveFailures.toNat - 1) maxBackoffShift) cooldownCap

structure Health where
  consecutiveFailures : UInt32
  cooldownUntil : Option Nat
  deriving DecidableEq

namespace Health

def healthy : Health := ⟨0, none⟩

def failed (now : Nat) (health : Health) : Health :=
  let consecutiveFailures :=
    if health.consecutiveFailures.toNat + 1 < 2 ^ 32 then health.consecutiveFailures + 1
    else health.consecutiveFailures
  ⟨consecutiveFailures, some (now + backoffDuration consecutiveFailures)⟩

end Health

/-- The rotation names every endpoint of the pool and no other. -/
structure EndpointPool where
  endpoints : List Endpoint
  order : List Nat
  nonempty : endpoints ≠ []
  covers : ∀ idx, idx ∈ order ↔ idx < endpoints.length

/-- What the requests of a pool share: the cursor of the rotation and the health of each
endpoint. -/
structure Shared (poolSize : Nat) where
  cursor : UInt64
  health : List Health
  sized : health.length = poolSize

namespace Shared

variable {poolSize : Nat}

def new (poolSize : Nat) : Shared poolSize :=
  ⟨0, List.replicate poolSize .healthy, List.length_replicate⟩

/-- The cursor as a pick reads it, and moved on by one. It wraps around. -/
def advance (shared : Shared poolSize) : UInt64 × Shared poolSize :=
  (shared.cursor, { shared with cursor := shared.cursor + 1 })

def reportSuccess (shared : Shared poolSize) (idx : Nat) : Shared poolSize :=
  ⟨shared.cursor, shared.health.modify idx (fun _ => .healthy), by simp [shared.sized]⟩

def reportFailure (shared : Shared poolSize) (idx now : Nat) : Shared poolSize :=
  ⟨shared.cursor, shared.health.modify idx (.failed now), by simp [shared.sized]⟩

end Shared

/-! ### Construction -/

theorem rounds_within {total : Int} {weights : List UInt32} {rotation : Rotation}
    (within : ∀ idx ∈ rotation.order, idx < weights.length) (n : Nat) :
    ∀ idx ∈ (rotation.rounds total weights n).order, idx < weights.length := by
  induction n generalizing rotation with
  | zero => exact within
  | succ n inductionHypothesis =>
    unfold Rotation.rounds Rotation.round
    cases picked : maxByKey Prod.fst (rotation.raised weights).zipIdx with
    | none => exact within
    | some pick =>
      obtain ⟨member, -⟩ := maxByKey_spec picked
      have selected := List.snd_lt_of_mem_zipIdx member
      apply inductionHypothesis
      intro idx listed
      rcases List.mem_append.mp listed with earlier | last
      · exact within idx earlier
      · rw [List.mem_singleton.mp last]
        simp [Rotation.raised] at selected
        omega

/-- A cycle over positive weights names every index and no other. -/
theorem mem_smoothWeightedOrder {weights : List UInt32} (positive : ∀ weight ∈ weights, 0 < weight)
    (idx : Nat) : idx ∈ smoothWeightedOrder weights ↔ idx < weights.length := by
  constructor
  · exact rounds_within (by simp [Rotation.start]) _ idx
  · intro within
    obtain ⟨-, counts, -⟩ := smoothWeightedOrder_fair weights
    have weight := positive _ (List.getElem_mem within)
    rw [← List.count_pos_iff, counts idx within]
    exact weight

namespace EndpointPool

def weights (specs : List EndpointSpec) : List UInt32 := specs.map (fun spec => max spec.weight 1)

theorem covers_weights (specs : List EndpointSpec) (idx : Nat) :
    idx ∈ smoothWeightedOrder (weights specs) ↔ idx < specs.length := by
  rw [mem_smoothWeightedOrder, weights, List.length_map]
  intro weight listed
  obtain ⟨spec, -, rfl⟩ := List.mem_map.mp listed
  change 0 < if spec.weight ≤ 1 then 1 else spec.weight
  split
  case isTrue small => decide
  case isFalse large => exact UInt32.lt_trans (by decide) (UInt32.not_le.mp large)

def new (specs : List EndpointSpec) : Except ClientEvmError EndpointPool :=
  if empty : specs = [] then
    .error (.invalidConfig .http "at least one rpc endpoint is required")
  else
    .ok
      { endpoints := specs.map (fun spec => ⟨spec.url, spec.label⟩)
        order := smoothWeightedOrder (weights specs)
        nonempty := by simpa using empty
        covers := by simpa using covers_weights specs }

def single (label url : String) : EndpointPool where
  endpoints := [⟨url, label⟩]
  order := [0]
  nonempty := List.cons_ne_nil _ _
  covers := by simp

/-! ### Picks -/

/-- The endpoints a pick looks at, in order. The addition wraps around, as it does where
overflow is not checked. -/
def scanned (pool : EndpointPool) (start : UInt64) : List Nat :=
  (List.range pool.order.length).filterMap (fun offset =>
    pool.order[(start + UInt64.ofNat offset).toNat % pool.order.length]?)

/-- Of two cooldowns the one that ends first, the earlier look in doubt. -/
def soonest (idx expiry : Nat) : Option (Nat × Nat) → Nat × Nat
  | none => (idx, expiry)
  | some (kept, earliest) => if expiry < earliest then (idx, expiry) else (kept, earliest)

/-- The first endpoint that is neither tried nor cooling down, or else the untried one whose
cooldown ends first. -/
def scan (health : List Health) (tried : List Nat) (now : Nat) :
    List Nat → Option (Nat × Nat) → Option Nat
  | [], fallback => fallback.map Prod.fst
  | idx :: rest, fallback =>
    if idx ∈ tried then scan health tried now rest fallback
    else
      match health[idx]?.bind Health.cooldownUntil with
      | none => some idx
      | some expiry =>
        if expiry ≤ now then some idx
        else scan health tried now rest (some (soonest idx expiry fallback))

def pickExcluding (pool : EndpointPool) {poolSize : Nat} (shared : Shared poolSize)
    (tried : List Nat) (now : Nat) : Nat × Shared poolSize :=
  let (start, shared) := shared.advance
  let pick := scan shared.health tried now (pool.scanned start) none
  ((pick.or pool.order[start.toNat % pool.order.length]?).getD 0, shared)

end EndpointPool

/-! ### Requests -/

/-- A step of another request. -/
inductive Other
  | pick
  | success (idx : Nat)
  | failure (idx now : Nat)

/-- What other requests do to the shared state. -/
def interfere {poolSize : Nat} (shared : Shared poolSize) (others : List Other) :
    Shared poolSize :=
  others.foldl (fun shared other =>
    match other with
    | .pick => shared.advance.2
    | .success idx => shared.reportSuccess idx
    | .failure idx now => shared.reportFailure idx now) shared

/-- The clock readings of a request and the steps of others between its own, round by
round. -/
structure Surroundings where
  now : Nat → Nat
  beforePick : Nat → List Other
  beforeReport : Nat → List Other

/-- A call of `attempt`: the cursor its pick read, the clock, the endpoint, what came back
and the health of the endpoint after the report. -/
structure Call (T : Type) where
  reading : UInt64
  now : Nat
  round : Nat
  idx : Nat
  answer : Except ClientEvmError T
  health : Option Health

structure Outcome (poolSize : Nat) (T : Type) where
  result : Except ClientEvmError T
  shared : Shared poolSize
  calls : List (Call T)

section Rounds

variable {T : Type} (pool : EndpointPool) (around : Surroundings)
  (attempt : Nat → String → Except ClientEvmError T)

/-- The error of a request whose rounds are over. -/
def exhausted (poolSize : Nat) (trace : List FailoverAttempt) (lastError : Option ClientEvmError) :
    ClientEvmError :=
  if 1 < poolSize then failoverExhausted trace poolSize false
  else lastError.getD (failoverExhausted trace poolSize false)

/-- The remaining rounds of a request. The answer of a call may depend on its round. -/
def rounds : Nat → Nat → Shared pool.endpoints.length → List Nat → List FailoverAttempt →
    Option ClientEvmError → Outcome pool.endpoints.length T
  | 0, _, shared, _, trace, lastError =>
    ⟨.error (exhausted pool.endpoints.length trace lastError), shared, []⟩
  | left + 1, round, shared, tried, trace, lastError =>
    let met := interfere shared (around.beforePick round)
    let now := around.now round
    let (idx, picked) := pool.pickExcluding met tried now
    match pool.endpoints[idx]? with
    | none => ⟨.error (exhausted pool.endpoints.length trace lastError), picked, []⟩
    | some endpoint =>
      let answered := interfere picked (around.beforeReport round)
      match attempt round endpoint.url with
      | .ok value =>
        let cleared := answered.reportSuccess idx
        ⟨.ok value, cleared, [⟨met.cursor, now, round, idx, .ok value, cleared.health[idx]?⟩]⟩
      | .error error =>
        if isRetryable error then
          let benched := answered.reportFailure idx now
          let trace := if 1 < pool.endpoints.length then trace ++ [.record endpoint.label error]
            else trace
          let later := rounds left (round + 1) benched (tried ++ [idx]) trace (some error)
          { later with
            calls := ⟨met.cursor, now, round, idx, .error error, benched.health[idx]?⟩ ::
              later.calls }
        else
          let stopped := if 1 < pool.endpoints.length then
              failoverExhausted (trace ++ [.record endpoint.label error]) pool.endpoints.length true
            else error
          ⟨.error stopped, answered,
            [⟨met.cursor, now, round, idx, .error error, answered.health[idx]?⟩]⟩

def withFailover (shared : Shared pool.endpoints.length) : Outcome pool.endpoints.length T :=
  rounds pool around attempt pool.endpoints.length 0 shared [] [] none

end Rounds

/-! ### What a request is for -/

section Spec

variable {T : Type}

/-- The call failed in a way that another endpoint may mend. -/
def Call.Failed (call : Call T) : Prop :=
  ∃ error, call.answer = .error error ∧ isRetryable error

/-- The call failed in a way that no endpoint mends. -/
def Call.Stopped (call : Call T) : Prop :=
  ∃ error, call.answer = .error error ∧ isRetryable error = false

def Call.Asked (pool : EndpointPool) (attempt : Nat → String → Except ClientEvmError T)
    (call : Call T) : Prop :=
  ∃ endpoint, pool.endpoints[call.idx]? = some endpoint ∧
    call.answer = attempt call.round endpoint.url

def Call.Benched (call : Call T) : Prop :=
  ∃ health expiry, call.health = some health ∧ health.cooldownUntil = some expiry ∧
    call.now < expiry

/-- What a request promises of its result and its calls. -/
structure TriesEachOnce (pool : EndpointPool) (attempt : Nat → String → Except ClientEvmError T)
    (outcome : Outcome pool.endpoints.length T) : Prop where
  distinct : (outcome.calls.map Call.idx).Nodup
  inOrder : outcome.calls.map Call.round = List.range outcome.calls.length
  asked : ∀ call ∈ outcome.calls, call.Asked pool attempt
  answered : ∀ value, outcome.result = .ok value ↔
    ∃ before call, outcome.calls = before ++ [call] ∧ call.answer = .ok value ∧
      ∀ earlier ∈ before, earlier.Failed
  ended : ∀ error, outcome.result = .error error →
    (∃ before call, outcome.calls = before ++ [call] ∧ call.Stopped) ∨
      ∀ idx < pool.endpoints.length, idx ∈ outcome.calls.map Call.idx
  benched : ∀ call ∈ outcome.calls, call.Failed → call.Benched
  cleared : ∀ call ∈ outcome.calls, ∀ value, call.answer = .ok value →
    call.health = some .healthy

/-- Every pick looks at an endpoint that has not been tried. -/
def FindsUntried (pool : EndpointPool) (calls : List (Call T)) : Prop :=
  ∀ before call later, calls = before ++ call :: later →
    ∃ idx ∈ pool.scanned call.reading, idx ∉ before.map Call.idx

end Spec

/-! ### One pick -/

section Picks

variable {pool : EndpointPool}

theorem EndpointPool.order_pos (pool : EndpointPool) : 0 < pool.order.length := by
  have first : 0 ∈ pool.order := (pool.covers 0).mpr (List.length_pos_iff.mpr pool.nonempty)
  exact List.length_pos_of_mem first

theorem EndpointPool.mem_order_of_scanned {start : UInt64} {idx : Nat}
    (listed : idx ∈ pool.scanned start) : idx ∈ pool.order := by
  obtain ⟨offset, -, found⟩ := List.mem_filterMap.mp listed
  exact List.mem_of_getElem? found

/-- The first look is at the place of the cursor. -/
theorem EndpointPool.start_scanned (pool : EndpointPool) (start : UInt64) :
    ∃ idx, pool.order[start.toNat % pool.order.length]? = some idx ∧ idx ∈ pool.scanned start := by
  have within := Nat.mod_lt start.toNat pool.order_pos
  refine ⟨_, List.getElem?_eq_getElem within, List.mem_filterMap.mpr ⟨0, ?_, ?_⟩⟩
  · exact List.mem_range.mpr pool.order_pos
  · simp [within]

/-- Unless the cursor wraps around on the way, a pick looks at the whole rotation. -/
theorem EndpointPool.scanned_covers {start : UInt64}
    (noWrap : start.toNat + pool.order.length ≤ 2 ^ 64) {idx : Nat} (listed : idx ∈ pool.order) :
    idx ∈ pool.scanned start := by
  obtain ⟨place, found⟩ := List.getElem?_of_mem listed
  obtain ⟨within, -⟩ := List.getElem?_eq_some_iff.mp found
  have positive := pool.order_pos
  have first := Nat.mod_lt start.toNat positive
  have offsetLess := Nat.mod_lt (place + pool.order.length - start.toNat % pool.order.length) positive
  refine List.mem_filterMap.mpr
    ⟨(place + pool.order.length - start.toNat % pool.order.length) % pool.order.length,
      List.mem_range.mpr offsetLess, ?_⟩
  have reached : (start.toNat +
      (place + pool.order.length - start.toNat % pool.order.length) % pool.order.length) %
        pool.order.length = place := by
    rw [Nat.add_mod_mod, ← Nat.mod_add_mod, ← Nat.add_sub_assoc (by omega),
      Nat.add_sub_cancel_left, Nat.add_mod_right, Nat.mod_eq_of_lt within]
  rw [UInt64.toNat_add, UInt64.toNat_ofNat', Nat.mod_eq_of_lt (b := 2 ^ 64) (by omega),
    Nat.mod_eq_of_lt (b := 2 ^ 64) (by omega), reached]
  exact found

theorem EndpointPool.soonest_cases (idx expiry : Nat) (fallback : Option (Nat × Nat)) :
    (soonest idx expiry fallback).1 = idx ∨ fallback = some (soonest idx expiry fallback) := by
  cases fallback with
  | none => exact .inl rfl
  | some entry =>
    unfold soonest
    dsimp only
    split
    · exact .inl rfl
    · exact .inr rfl

theorem EndpointPool.scan_fresh {health : List Health} {tried : List Nat} {now : Nat}
    {looks : List Nat} {fallback : Option (Nat × Nat)}
    (kept : ∀ entry ∈ fallback, entry.1 ∉ tried)
    (untried : fallback.isSome ∨ ∃ idx ∈ looks, idx ∉ tried) :
    ∃ idx, scan health tried now looks fallback = some idx ∧ idx ∉ tried ∧
      (idx ∈ looks ∨ idx ∈ fallback.map Prod.fst) := by
  induction looks generalizing fallback with
  | nil =>
    obtain ⟨entry, rfl⟩ := Option.isSome_iff_exists.mp (untried.resolve_right (by simp))
    exact ⟨entry.1, rfl, kept entry rfl, .inr rfl⟩
  | cons idx looks inductionHypothesis =>
    unfold scan
    split
    case isTrue already =>
      have later : fallback.isSome ∨ ∃ idx ∈ looks, idx ∉ tried := by
        refine untried.imp_right ?_
        rintro ⟨other, listed, fresh⟩
        rcases List.mem_cons.mp listed with rfl | rest
        · exact absurd already fresh
        · exact ⟨other, rest, fresh⟩
      obtain ⟨pick, picked, fresh, source⟩ := inductionHypothesis kept later
      exact ⟨pick, picked, fresh, source.imp_left (List.mem_cons_of_mem idx)⟩
    case isFalse fresh =>
      cases (health[idx]?.bind Health.cooldownUntil) with
      | none => exact ⟨idx, rfl, fresh, .inl List.mem_cons_self⟩
      | some expiry =>
        dsimp only
        split
        case isTrue expired => exact ⟨idx, rfl, fresh, .inl List.mem_cons_self⟩
        case isFalse cooling =>
          have unused : ∀ entry ∈ some (soonest idx expiry fallback), entry.1 ∉ tried := by
            intro entry stored
            obtain rfl := Option.some.inj stored
            rcases soonest_cases idx expiry fallback with own | before
            · rwa [own]
            · exact kept _ before
          obtain ⟨pick, picked, untried, source⟩ := inductionHypothesis unused (.inl rfl)
          refine ⟨pick, picked, untried, ?_⟩
          rcases source with rest | stored
          · exact .inl (List.mem_cons_of_mem idx rest)
          have same : (soonest idx expiry fallback).1 = pick := by simpa using stored
          rcases soonest_cases idx expiry fallback with own | before
          · exact .inl (List.mem_cons.mpr (.inl (same.symm.trans own)))
          · exact .inr (Option.mem_map.mpr ⟨_, before, same⟩)

theorem EndpointPool.scan_stale {health : List Health} {tried : List Nat} {now : Nat}
    {looks : List Nat} (all : ∀ idx ∈ looks, idx ∈ tried) :
    scan health tried now looks none = none := by
  induction looks with
  | nil => rfl
  | cons idx looks inductionHypothesis =>
    unfold scan
    rw [if_pos (all idx List.mem_cons_self)]
    exact inductionHypothesis (fun other listed => all other (List.mem_cons_of_mem idx listed))

/-- A pick is an endpoint of the pool, and untried exactly when it looks at an untried one. -/
theorem EndpointPool.pickExcluding_spec (pool : EndpointPool) {poolSize : Nat}
    (shared : Shared poolSize) (tried : List Nat) (now : Nat) :
    (pool.pickExcluding shared tried now).1 < pool.endpoints.length ∧
      ((pool.pickExcluding shared tried now).1 ∉ tried ↔
        ∃ idx ∈ pool.scanned shared.cursor, idx ∉ tried) := by
  by_cases untried : ∃ idx ∈ pool.scanned shared.cursor, idx ∉ tried
  · obtain ⟨pick, picked, fresh, source⟩ :=
      @scan_fresh shared.health tried now (pool.scanned shared.cursor) none (by simp) (.inr untried)
    have looked : pick ∈ pool.scanned shared.cursor := source.resolve_right (by simp)
    have result : (pool.pickExcluding shared tried now).1 = pick := by
      simp [pickExcluding, Shared.advance, picked]
    rw [result]
    exact ⟨(pool.covers pick).mp (mem_order_of_scanned looked), iff_of_true fresh untried⟩
  · have all : ∀ idx ∈ pool.scanned shared.cursor, idx ∈ tried := by
      intro idx looked
      by_contra fresh
      exact untried ⟨idx, looked, fresh⟩
    obtain ⟨idx, found, looked⟩ := pool.start_scanned shared.cursor
    have result : (pool.pickExcluding shared tried now).1 = idx := by
      simp [pickExcluding, Shared.advance, scan_stale all, found]
    rw [result]
    exact ⟨(pool.covers idx).mp (mem_order_of_scanned looked),
      iff_of_false (not_not_intro (all idx looked)) untried⟩

end Picks

/-! ### Rounds one after the other -/

section Rounds

variable {T : Type} {pool : EndpointPool} {attempt : Nat → String → Except ClientEvmError T}

/-- A call of a round, and what its pick depends on. -/
structure Picked (pool : EndpointPool) (attempt : Nat → String → Except ClientEvmError T)
    (round : Nat) (tried : List Nat) (call : Call T) : Prop where
  inRound : call.round = round
  asked : call.Asked pool attempt
  fresh : call.idx ∉ tried ↔ ∃ idx ∈ pool.scanned call.reading, idx ∉ tried

/-- The result and the calls of rounds that come after some have been tried. -/
inductive Traced (pool : EndpointPool) (attempt : Nat → String → Except ClientEvmError T) :
    Nat → Nat → List Nat → Except ClientEvmError T → List (Call T) → Prop
  | exhausted {round tried error} : Traced pool attempt 0 round tried (.error error) []
  | answered {left round tried call value} : Picked pool attempt round tried call →
      call.answer = .ok value → call.health = some .healthy →
      Traced pool attempt (left + 1) round tried (.ok value) [call]
  | failed {left round tried call result calls} : Picked pool attempt round tried call →
      call.Failed → call.Benched →
      Traced pool attempt left (round + 1) (tried ++ [call.idx]) result calls →
      Traced pool attempt (left + 1) round tried result (call :: calls)
  | stopped {left round tried call error} : Picked pool attempt round tried call →
      call.Stopped → Traced pool attempt (left + 1) round tried (.error error) [call]

theorem Health.failed_benched (now : Nat) (health : Health) :
    ∃ expiry, (health.failed now).cooldownUntil = some expiry ∧ now < expiry := by
  refine ⟨_, rfl, ?_⟩
  have positive : 0 < backoffDuration (health.failed now).consecutiveFailures := by
    refine Nat.lt_min.mpr ⟨?_, by decide⟩
    exact Nat.mul_pos (by decide) (Nat.two_pow_pos _)
  exact Nat.lt_add_of_pos_right positive

theorem Shared.reportSuccess_health {poolSize : Nat} (shared : Shared poolSize) {idx : Nat}
    (within : idx < poolSize) : (shared.reportSuccess idx).health[idx]? = some .healthy := by
  have present : idx < shared.health.length := by rwa [shared.sized]
  simp [reportSuccess, present]

theorem Shared.reportFailure_health {poolSize : Nat} (shared : Shared poolSize) {idx : Nat}
    (within : idx < poolSize) (now : Nat) :
    ∃ health : Health, (shared.reportFailure idx now).health[idx]? = some (health.failed now) := by
  have present : idx < shared.health.length := by rwa [shared.sized]
  exact ⟨shared.health[idx], by simp [reportFailure, present]⟩

/-- What a round does is one of the four things a trace allows. -/
theorem rounds_traced (around : Surroundings) (left round : Nat)
    (shared : Shared pool.endpoints.length) (tried : List Nat) (trace : List FailoverAttempt)
    (lastError : Option ClientEvmError) :
    Traced pool attempt left round tried
      (rounds pool around attempt left round shared tried trace lastError).result
      (rounds pool around attempt left round shared tried trace lastError).calls := by
  induction left generalizing round shared tried trace lastError with
  | zero => exact .exhausted
  | succ left inductionHypothesis =>
    unfold rounds
    have spec := pool.pickExcluding_spec (interfere shared (around.beforePick round)) tried
      (around.now round)
    dsimp only
    generalize pool.pickExcluding (interfere shared (around.beforePick round)) tried
      (around.now round) = pick at spec ⊢
    obtain ⟨within, fresh⟩ := spec
    have found := List.getElem?_eq_getElem within
    rw [found]
    dsimp only
    cases answer : attempt round pool.endpoints[pick.1].url with
    | ok value =>
      exact .answered ⟨rfl, ⟨_, found, answer.symm⟩, fresh⟩ rfl
        (Shared.reportSuccess_health _ within)
    | error error =>
      dsimp only
      split
      case isTrue retryable =>
        refine .failed ⟨rfl, ⟨_, found, answer.symm⟩, fresh⟩ ⟨error, rfl, retryable⟩ ?_
          (inductionHypothesis _ _ _ _ _)
        obtain ⟨health, reported⟩ := Shared.reportFailure_health
          (interfere pick.2 (around.beforeReport round)) within (around.now round)
        obtain ⟨expiry, expires, later⟩ := health.failed_benched (around.now round)
        exact ⟨_, expiry, reported, expires, later⟩
      case isFalse final =>
        exact .stopped ⟨rfl, ⟨_, found, answer.symm⟩, fresh⟩
          ⟨error, rfl, Bool.eq_false_of_not_eq_true final⟩

namespace Traced

variable {left round : Nat} {tried : List Nat} {result : Except ClientEvmError T}
  {calls : List (Call T)}

theorem length_le (traced : Traced pool attempt left round tried result calls) :
    calls.length ≤ left := by
  induction traced with
  | exhausted => exact Nat.le_refl 0
  | answered => simp
  | failed _ _ _ _ inductionHypothesis => simpa using inductionHypothesis
  | stopped => simp

theorem inOrder (traced : Traced pool attempt left round tried result calls) :
    calls.map Call.round = List.range' round calls.length := by
  induction traced with
  | exhausted => rfl
  | answered picked => simp [picked.inRound]
  | failed picked _ _ _ inductionHypothesis =>
    rw [List.map_cons, inductionHypothesis, picked.inRound, List.length_cons, List.range'_succ]
  | stopped picked => simp [picked.inRound]

theorem asked (traced : Traced pool attempt left round tried result calls) :
    ∀ call ∈ calls, call.Asked pool attempt := by
  induction traced with
  | exhausted => simp
  | answered picked => simpa using picked.asked
  | failed picked _ _ _ inductionHypothesis =>
    exact List.forall_mem_cons.mpr ⟨picked.asked, inductionHypothesis⟩
  | stopped picked => simpa using picked.asked

theorem benched (traced : Traced pool attempt left round tried result calls) :
    ∀ call ∈ calls, call.Failed → call.Benched := by
  induction traced with
  | exhausted => simp
  | answered _ answer =>
    rintro call listed ⟨error, failed, -⟩
    rw [List.mem_singleton.mp listed, answer] at failed
    cases failed
  | failed _ _ benched _ inductionHypothesis =>
    exact List.forall_mem_cons.mpr ⟨fun _ => benched, inductionHypothesis⟩
  | stopped _ stopped =>
    obtain ⟨error, answer, final⟩ := stopped
    rintro call listed ⟨error', answer', retryable⟩
    rw [List.mem_singleton.mp listed, answer] at answer'
    rw [← Except.error.inj answer', final] at retryable
    cases retryable

theorem cleared (traced : Traced pool attempt left round tried result calls) :
    ∀ call ∈ calls, ∀ value, call.answer = .ok value → call.health = some .healthy := by
  induction traced with
  | exhausted => simp
  | answered _ _ cleared => simp [cleared]
  | failed _ failed _ _ inductionHypothesis =>
    obtain ⟨error, answer, -⟩ := failed
    refine List.forall_mem_cons.mpr ⟨?_, inductionHypothesis⟩
    intro value answered
    rw [answer] at answered
    cases answered
  | stopped _ stopped =>
    obtain ⟨error, answer, -⟩ := stopped
    intro call listed value answered
    rw [List.mem_singleton.mp listed, answer] at answered
    cases answered

/-- The value returned is that of the last call, after failures only. -/
theorem answered_iff (traced : Traced pool attempt left round tried result calls) (value : T) :
    result = .ok value ↔ ∃ before call, calls = before ++ [call] ∧ call.answer = .ok value ∧
      ∀ earlier ∈ before, earlier.Failed := by
  induction traced with
  | exhausted => simp
  | answered _ answer =>
    constructor
    · intro returned
      exact ⟨[], _, rfl, by rw [answer, Except.ok.inj returned], by simp⟩
    · rintro ⟨before, call, split, answered, -⟩
      obtain ⟨rfl, same⟩ := List.append_inj' (show [] ++ [_] = before ++ [call] from split) rfl
      obtain rfl := List.singleton_inj.mp same
      rw [← answered, answer]
  | failed _ failed _ _ inductionHypothesis =>
    rw [inductionHypothesis]
    constructor
    · rintro ⟨before, last, rfl, answered, earlier⟩
      exact ⟨_ :: before, last, rfl, answered, List.forall_mem_cons.mpr ⟨failed, earlier⟩⟩
    · rintro ⟨before, last, split, answered, earlier⟩
      rcases before with _ | ⟨first, before⟩
      · obtain ⟨rfl, -⟩ := List.cons.inj split
        obtain ⟨error, answer, -⟩ := failed
        rw [answer] at answered
        cases answered
      · obtain ⟨rfl, rest⟩ := List.cons.inj split
        exact ⟨before, last, rest, answered, fun other listed => earlier other (by simp [listed])⟩
  | stopped _ stopped =>
    obtain ⟨error, answer, -⟩ := stopped
    constructor
    · intro returned
      cases returned
    · rintro ⟨before, call, split, answered, -⟩
      obtain ⟨rfl, same⟩ := List.append_inj' (show [] ++ [_] = before ++ [call] from split) rfl
      obtain rfl := List.singleton_inj.mp same
      rw [answer] at answered
      cases answered

theorem forall_split_cons {A : Type} {first : A} {rest : List A} {P : List A → A → Prop} :
    (∀ before a later, first :: rest = before ++ a :: later → P before a) ↔
      P [] first ∧ ∀ before a later, rest = before ++ a :: later → P (first :: before) a := by
  constructor
  · intro every
    exact ⟨every [] first rest rfl, fun before a later split =>
      every (first :: before) a later (congrArg (first :: ·) split)⟩
  · rintro ⟨start, every⟩ before a later split
    rcases before with _ | ⟨head, before⟩
    · obtain ⟨rfl, -⟩ := List.cons.inj split
      exact start
    · obtain ⟨rfl, same⟩ := List.cons.inj split
      exact every before a later same

theorem nodup_concat_iff {A : Type} {elements : List A} {a : A} (distinct : elements.Nodup) :
    (elements ++ [a]).Nodup ↔ a ∉ elements := by
  rw [← List.concat_eq_append, List.nodup_concat, and_iff_left distinct]

/-- Calls go to endpoints that differ from each other and from those tried before exactly
when each pick looks at one that is none of these. -/
theorem nodup_iff (traced : Traced pool attempt left round tried result calls)
    (distinct : tried.Nodup) :
    (tried ++ calls.map Call.idx).Nodup ↔
      ∀ before call later, calls = before ++ call :: later →
        ∃ idx ∈ pool.scanned call.reading, idx ∉ tried ++ before.map Call.idx := by
  induction traced with
  | exhausted => simp [distinct]
  | answered picked =>
    rw [forall_split_cons]
    simp [nodup_concat_iff distinct, ← picked.fresh]
  | failed picked _ _ _ inductionHypothesis =>
    rename_i tried call result calls _ _ _
    rw [forall_split_cons, List.map_nil, List.append_nil, ← picked.fresh]
    by_cases fresh : call.idx ∈ tried
    · have repeats : ¬ (tried ++ (call :: calls).map Call.idx).Nodup := by
        intro nodup
        exact (List.nodup_append.mp nodup).2.2 _ fresh _ List.mem_cons_self rfl
      exact iff_of_false repeats (fun holds => holds.1 fresh)
    · have rest := inductionHypothesis ((nodup_concat_iff distinct).mpr fresh)
      simp only [List.append_assoc, List.singleton_append] at rest
      rw [and_iff_right fresh]
      exact rest
  | stopped picked =>
    rw [forall_split_cons]
    simp [nodup_concat_iff distinct, ← picked.fresh]

/-- Distinct endpoints that are as many as the pool has are all of them. -/
theorem all_tried {size : Nat} {tried : List Nat} (distinct : tried.Nodup)
    (within : ∀ idx ∈ tried, idx < size) (whole : tried.length = size) :
    ∀ idx < size, idx ∈ tried := by
  have subset : tried ⊆ List.range size := fun idx listed => List.mem_range.mpr (within idx listed)
  have perm : tried.Perm (List.range size) :=
    (List.subperm_of_subset distinct subset).perm_of_length_le (by simp [whole])
  intro idx less
  exact perm.mem_iff.mpr (List.mem_range.mpr less)

/-- An error comes after a failure that is final, or once everything is tried. -/
theorem ended (traced : Traced pool attempt left round tried result calls)
    (whole : tried.length + left = pool.endpoints.length)
    (distinct : (tried ++ calls.map Call.idx).Nodup)
    (within : ∀ idx ∈ tried, idx < pool.endpoints.length) {error : ClientEvmError}
    (failed : result = .error error) :
    (∃ before call, calls = before ++ [call] ∧ call.Stopped) ∨
      ∀ idx < pool.endpoints.length, idx ∈ tried ++ calls.map Call.idx := by
  induction traced with
  | exhausted =>
    rw [List.map_nil, List.append_nil] at distinct ⊢
    exact .inr (all_tried distinct within whole)
  | answered => cases failed
  | failed picked _ _ _ inductionHypothesis =>
    obtain ⟨endpoint, found, -⟩ := picked.asked
    obtain ⟨less, -⟩ := List.getElem?_eq_some_iff.mp found
    rw [List.map_cons, List.append_cons] at distinct ⊢
    rcases inductionHypothesis (by simp; omega) distinct
      (by simpa [or_imp, forall_and, less] using within) failed with final | all
    · obtain ⟨before, last, rfl, stopped⟩ := final
      exact .inl ⟨_ :: before, last, rfl, stopped⟩
    · exact .inr all
  | stopped _ stopped => exact .inl ⟨[], _, rfl, stopped⟩

end Traced

/-- Where no pick reads a cursor that wraps around within one rotation, each looks at an
endpoint that has not been tried. -/
theorem findsUntried_of_noWrap {around : Surroundings} (shared : Shared pool.endpoints.length)
    (noWrap : ∀ call ∈ (withFailover pool around attempt shared).calls,
      call.reading.toNat + pool.order.length ≤ 2 ^ 64) :
    FindsUntried pool (withFailover pool around attempt shared).calls := by
  intro before call later split
  have few : before.length < pool.endpoints.length := by
    have bound := (@rounds_traced T pool attempt around pool.endpoints.length 0 shared [] []
      none).length_le
    change (withFailover pool around attempt shared).calls.length ≤ _ at bound
    rw [split, List.length_append, List.length_cons] at bound
    omega
  obtain ⟨idx, less, fresh⟩ : ∃ idx < pool.endpoints.length, idx ∉ before.map Call.idx := by
    by_contra all
    have subset : List.range pool.endpoints.length ⊆ before.map Call.idx := by
      intro idx listed
      by_contra fresh
      exact all ⟨idx, List.mem_range.mp listed, fresh⟩
    have length := (List.subperm_of_subset List.nodup_range subset).length_le
    simp at length
    omega
  exact ⟨idx, pool.scanned_covers (noWrap call (by simp [split])) ((pool.covers idx).mpr less),
    fresh⟩

/-- A request tries each endpoint once exactly when each of its picks looks at one that has
not been tried, which is so unless the cursor wraps around during a look. -/
theorem withFailover_iff (pool : EndpointPool) (around : Surroundings)
    (attempt : Nat → String → Except ClientEvmError T) (shared : Shared pool.endpoints.length) :
    (TriesEachOnce pool attempt (withFailover pool around attempt shared) ↔
      FindsUntried pool (withFailover pool around attempt shared).calls) ∧
    ((∀ call ∈ (withFailover pool around attempt shared).calls,
        call.reading.toNat + pool.order.length ≤ 2 ^ 64) →
      TriesEachOnce pool attempt (withFailover pool around attempt shared)) := by
  have traced := @rounds_traced T pool attempt around pool.endpoints.length 0 shared [] [] none
  change Traced pool attempt pool.endpoints.length 0 [] (withFailover pool around attempt shared).result
    (withFailover pool around attempt shared).calls at traced
  have distinct := traced.nodup_iff List.nodup_nil
  have once : TriesEachOnce pool attempt (withFailover pool around attempt shared) ↔
      FindsUntried pool (withFailover pool around attempt shared).calls := by
    constructor
    · intro promised
      exact distinct.mp promised.distinct
    · intro untried
      exact
        { distinct := distinct.mpr untried
          inOrder := by rw [traced.inOrder, List.range_eq_range']
          asked := traced.asked
          answered := traced.answered_iff
          ended := fun error failed =>
            traced.ended (Nat.zero_add _) (distinct.mpr untried) (by simp) failed
          benched := traced.benched
          cleared := traced.cleared }
  exact ⟨once, fun noWrap => once.mpr (findsUntried_of_noWrap shared noWrap)⟩

/-- The endpoints of a list of indexes. -/
def EndpointPool.named (pool : EndpointPool) (indexes : List Nat) : List Endpoint :=
  indexes.filterMap (pool.endpoints[·]?)

theorem EndpointPool.named_cons {idx : Nat} {endpoint : Endpoint}
    (found : pool.endpoints[idx]? = some endpoint) (indexes : List Nat) :
    pool.named (idx :: indexes) = endpoint :: pool.named indexes :=
  List.filterMap_cons_some found

theorem filterMap_range_getElem? {A : Type} (elements : List A) :
    (List.range elements.length).filterMap (elements[·]?) = elements := by
  induction elements with
  | nil => rfl
  | cons first elements inductionHypothesis =>
    rw [List.length_cons, List.range_succ_eq_map, List.filterMap_cons, List.filterMap_map]
    exact congrArg (first :: ·) inductionHypothesis

/-- Where answers do not depend on the round, the rounds walk the endpoints they call and
then any that are left. -/
theorem rounds_eq_failoverRounds {around : Surroundings} {answer : String → Except ClientEvmError T}
    (left round : Nat) (shared : Shared pool.endpoints.length) (tried : List Nat)
    (trace : List FailoverAttempt) (lastError : Option ClientEvmError) {rest : List Nat}
    (whole : tried.length + left = pool.endpoints.length)
    (perm : (tried ++ (rounds pool around (fun _ => answer) left round shared tried trace
      lastError).calls.map Call.idx ++ rest).Perm (List.range pool.endpoints.length)) :
    (rounds pool around (fun _ => answer) left round shared tried trace lastError).result =
      failoverRounds answer pool.endpoints.length
        (pool.named ((rounds pool around (fun _ => answer) left round shared tried trace
          lastError).calls.map Call.idx ++ rest)) trace lastError := by
  induction left generalizing round shared tried trace lastError with
  | zero =>
    have length := perm.length_eq
    simp only [rounds, List.map_nil, List.append_nil, List.length_append, List.length_range]
      at length
    obtain rfl : rest = [] := List.eq_nil_of_length_eq_zero (by omega)
    simp only [rounds, List.map_nil, List.append_nil, EndpointPool.named, List.filterMap_nil,
      failoverRounds, exhausted]
    split
    · rfl
    · cases lastError <;> rfl
  | succ left inductionHypothesis =>
    unfold rounds at perm ⊢
    have within := (pool.pickExcluding_spec (interfere shared (around.beforePick round)) tried
      (around.now round)).1
    dsimp only at perm ⊢
    generalize pool.pickExcluding (interfere shared (around.beforePick round)) tried
      (around.now round) = pick at within perm ⊢
    have found := List.getElem?_eq_getElem within
    simp only [found] at perm ⊢
    cases answered : answer pool.endpoints[pick.1].url with
    | ok value =>
      simp only [List.map_cons, List.cons_append, pool.named_cons found]
      simp only [failoverRounds, answered]
    | error error =>
      simp only [answered] at perm ⊢
      split
      case isTrue retryable =>
        rw [if_pos retryable, List.map_cons, List.append_cons] at perm
        simp only [List.map_cons, List.cons_append, pool.named_cons found]
        simp only [failoverRounds, answered, retryable, if_true]
        exact inductionHypothesis _ _ _ _ _ (by simp; omega) perm
      case isFalse final =>
        simp only [List.map_cons, List.cons_append, pool.named_cons found]
        simp only [failoverRounds, answered, if_neg final]
        split <;> rfl

/-- A request is the walk over its pool in the order of its picks. -/
theorem withFailover_eq_walk {around : Surroundings} {answer : String → Except ClientEvmError T}
    {shared : Shared pool.endpoints.length}
    (untried : FindsUntried pool (withFailover pool around (fun _ => answer) shared).calls) :
    ∃ picks : Client.EndpointPool, picks.Perm pool.endpoints ∧
      (withFailover pool around (fun _ => answer) shared).result = picks.withFailover answer := by
  have promised := (withFailover_iff pool around (fun _ => answer) shared).1.mpr untried
  generalize called : (withFailover pool around (fun _ => answer) shared).calls.map Call.idx = calls
  have distinct : calls.Nodup := called ▸ promised.distinct
  have within : ∀ idx ∈ calls, idx < pool.endpoints.length := by
    intro idx listed
    rw [← called] at listed
    obtain ⟨call, member, rfl⟩ := List.mem_map.mp listed
    obtain ⟨endpoint, found, -⟩ := promised.asked call member
    exact (List.getElem?_eq_some_iff.mp found).1
  let rest := (List.range pool.endpoints.length).filter (fun idx => decide (idx ∉ calls))
  have perm : (calls ++ rest).Perm (List.range pool.endpoints.length) := by
    have apart : (calls ++ rest).Nodup := by
      refine List.nodup_append.mpr ⟨distinct, List.nodup_range.filter _, ?_⟩
      rintro idx listed _ filtered rfl
      exact of_decide_eq_true (List.mem_filter.mp filtered).2 listed
    rw [List.perm_ext_iff_of_nodup apart List.nodup_range]
    intro idx
    by_cases listed : idx ∈ calls
    · simp [listed, within idx listed]
    · simp [listed, rest]
  have picks : (pool.named (calls ++ rest)).Perm pool.endpoints := by
    have named : pool.named (List.range pool.endpoints.length) = pool.endpoints :=
      filterMap_range_getElem? pool.endpoints
    rw [← named]
    exact perm.filterMap _
  refine ⟨_, picks, ?_⟩
  have walk := @rounds_eq_failoverRounds T pool around answer pool.endpoints.length 0 shared [] []
    none rest (Nat.zero_add _) (by rw [List.nil_append]; exact called ▸ perm)
  rw [EndpointPool.withFailover, picks.length_eq, ← called]
  exact walk

end Rounds

/-! ### A cursor that wraps around -/

/-- Two endpoints of weights 2 and 1. -/
def unevenPool : EndpointPool where
  endpoints := [⟨"https://first", "first"⟩, ⟨"https://second", "second"⟩]
  order := smoothWeightedOrder [2, 1]
  nonempty := List.cons_ne_nil _ _
  covers := mem_smoothWeightedOrder (by simp)

/-- Another request picks once before the second round. -/
def crossing : Surroundings where
  now _ := 0
  beforePick round := if round = 1 then [.pick] else []
  beforeReport _ := []

/-- Three steps before the cursor wraps around. -/
def nearWrap : Shared unevenPool.endpoints.length :=
  ⟨0xFFFFFFFFFFFFFFFC, [.healthy, .healthy], rfl⟩

def unreachable (_round : Nat) (_url : String) : Except ClientEvmError Unit :=
  .error (.httpTransport "connection refused")

/-- The second pick looks at the first endpoint only, which has just failed. -/
theorem withFailover_wraps :
    ¬ TriesEachOnce unevenPool unreachable (withFailover unevenPool crossing unreachable nearWrap) := by
  intro promised
  have calls : (withFailover unevenPool crossing unreachable nearWrap).calls.map Call.idx =
      [0, 0] := by decide +kernel
  have distinct := promised.distinct
  rw [calls] at distinct
  exact absurd distinct (by decide)

end ArmchairAnalyst.Client.Failover

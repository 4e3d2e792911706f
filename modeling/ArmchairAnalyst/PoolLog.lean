import ArmchairAnalyst.PoolState

/-!
# Decoded pool logs and their fold

A swap or an initialization carries an absolute state. A mint or a burn is a
liquidity delta that applies while the running tick lies in its range.
-/

namespace ArmchairAnalyst

inductive PoolLogEvent
  | initializePool (sqrtPriceX96 : U160) (tick : I24)
  | swap (sqrtPriceX96 : U160) (tick : I24) (liquidity : U128)
  | mint (tickLower tickUpper : I24) (amount : U128)
  | burn (tickLower tickUpper : I24) (amount : U128)
  deriving DecidableEq, Repr

structure PoolLog where
  pool : ProtocolPoolKey
  logIndex : UInt64
  event : PoolLogEvent
  deriving DecidableEq, Repr

def checkedAdd (a b : U128) : Option U128 :=
  if a.toNat + b.toNat < 2 ^ 128 then some (a + b) else none

def checkedSub (a b : U128) : Option U128 :=
  if b.toNat ≤ a.toNat then some (a - b) else none

/-- Adjusts the liquidity only while the tick is active in the range. -/
def applyLiquidityDelta (current : PoolState) (tickLower tickUpper : I24)
    (delta : U128 → Option U128) : Option PoolState :=
  if tickLower ≤ current.tick ∧ current.tick < tickUpper then
    (delta current.liquidity).map (fun liquidity => { current with liquidity })
  else some current

/-- One iteration of the fold. The outer `none` is the early return on overflow,
the inner one a run that no absolute event has seeded yet. -/
def applyEvent (running : Option PoolState) : PoolLogEvent → Option (Option PoolState)
  | .swap sqrtPriceX96 tick liquidity => some (some { sqrtPriceX96, tick, liquidity })
  | .initializePool sqrtPriceX96 tick => some (some { sqrtPriceX96, tick, liquidity := 0 })
  | .mint tickLower tickUpper amount =>
    match running with
    | none => some none
    | some current =>
      (applyLiquidityDelta current tickLower tickUpper (checkedAdd · amount)).map some
  | .burn tickLower tickUpper amount =>
    match running with
    | none => some none
    | some current =>
      (applyLiquidityDelta current tickLower tickUpper (checkedSub · amount)).map some

/-- The running state after a list of events, `none` once an adjustment overflows. -/
def foldEvents (base : Option PoolState) (ordered : List PoolLogEvent) :
    Option (Option PoolState) :=
  ordered.foldlM applyEvent base

/-- Folds one pool's ordered events into its state after them. -/
def derivePoolState (base : Option PoolState) (ordered : List PoolLogEvent) : Option PoolState :=
  (foldEvents base ordered).join

@[simp] theorem foldEvents_nil (base : Option PoolState) : foldEvents base [] = some base := rfl

@[simp] theorem foldEvents_cons (base : Option PoolState) (event : PoolLogEvent)
    (events : List PoolLogEvent) :
    foldEvents base (event :: events) = (applyEvent base event).bind (foldEvents · events) := rfl

theorem foldEvents_append (base : Option PoolState) (first second : List PoolLogEvent) :
    foldEvents base (first ++ second) = (foldEvents base first).bind (foldEvents · second) := by
  induction first generalizing base with
  | nil => rfl
  | cons event first inductionHypothesis =>
    simp only [List.cons_append, foldEvents_cons, inductionHypothesis, Option.bind_assoc]

/-- A seeded run stays seeded. -/
theorem applyEvent_isSome {state : PoolState} {event : PoolLogEvent} {after : Option PoolState}
    (applied : applyEvent (some state) event = some after) : after.isSome := by
  cases event with
  | initializePool _ _ =>
    obtain rfl := Option.some.inj applied
    rfl
  | swap _ _ _ =>
    obtain rfl := Option.some.inj applied
    rfl
  | mint _ _ _ =>
    obtain ⟨adjusted, -, rfl⟩ := Option.map_eq_some_iff.mp applied
    rfl
  | burn _ _ _ =>
    obtain ⟨adjusted, -, rfl⟩ := Option.map_eq_some_iff.mp applied
    rfl

theorem foldEvents_isSome {state : PoolState} {events : List PoolLogEvent}
    {after : Option PoolState} (folded : foldEvents (some state) events = some after) :
    after.isSome := by
  induction events generalizing state with
  | nil =>
    obtain rfl : some state = after := by simpa using folded
    rfl
  | cons event events inductionHypothesis =>
    obtain ⟨middle, applied, rest⟩ := Option.bind_eq_some_iff.mp folded
    obtain ⟨next, rfl⟩ := Option.isSome_iff_exists.mp (applyEvent_isSome applied)
    exact inductionHypothesis rest

/-! ### A pool for evaluation -/

def sampleKey : ProtocolPoolKey := .uniswapV3 0x88e6a0c2ddd26feeb64f039a2c41296fcb3f5640

def sampleState : PoolState where
  sqrtPriceX96 := 79228162514264337593543950336
  tick := ⟨0, by decide, by decide⟩
  liquidity := 5

def sampleSwap : PoolLog where
  pool := sampleKey
  logIndex := 0
  event := .swap sampleState.sqrtPriceX96 sampleState.tick sampleState.liquidity

/-- Liquidity around the tick of the sample state. -/
def sampleMint : PoolLogEvent := .mint ⟨-60, by decide, by decide⟩ ⟨60, by decide, by decide⟩ 5

def samplePool : PoolRef := { key := sampleKey, chain := .ethereum }

end ArmchairAnalyst

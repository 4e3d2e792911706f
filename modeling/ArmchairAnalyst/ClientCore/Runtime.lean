import ArmchairAnalyst.ClientCore.State
import ArmchairAnalyst.Library.TransitionSystem

/-!
# The client's runtime

The reducer handles its inputs one by one. The effects of every transition are executed
by a thread of their own, in no order with those of other transitions. Pushed reserves
go through a slot that keeps the latest value sent to the optimizer's worker, and the
worker's results come back through a queue.
-/

namespace ArmchairAnalyst.ClientCore

open Wire Optimization

/-! ### The slot -/

structure LatestSlot (T : Type) where
  latest : Option T
  closed : Bool

namespace LatestSlot

variable {T : Type}

def new : LatestSlot T := { latest := none, closed := false }

/-- Overwrites a value that was not taken. A closed slot accepts nothing. -/
def send (slot : LatestSlot T) (value : T) : LatestSlot T :=
  if slot.closed then slot else { slot with latest := some value }

/-- Removes the pending value. -/
def take (slot : LatestSlot T) : LatestSlot T := { slot with latest := none }

def close (slot : LatestSlot T) : LatestSlot T := { slot with closed := true }

end LatestSlot

variable [ReserveProjection]

structure ReserveSnapshot where
  reserves : List Reserves
  session : OptimizationSessionConfig TokenAddress

/-- A snapshot with its place among all that the reducer has emitted. -/
structure Push where
  number : Nat
  snapshot : ReserveSnapshot

/-! ### The worker -/

inductive OptimizationStepUpdate
  | newReserves (reserves : List Reserves)
  | continue

/-- Where the worker is in its two nested loops. -/
inductive Worker
  | waiting
  | initializing (snapshot : ReserveSnapshot)
  | grinding (session : OptimizationSessionConfig TokenAddress)
  | stepping (session : OptimizationSessionConfig TokenAddress) (update : OptimizationStepUpdate)
  | ended

/-- What the optimizer makes of a step: the result with the recovered route, a snapshot
that does not cover the route, or another error. -/
inductive Outcome
  | stepped (result : OptimizationStepResult) (steps : Option (List ExecutableStep))
  | routeGap (message : String)
  | failed (message : String)

/-- The plan that a session's step recovers is for the session's assets. -/
def planFor (session : OptimizationSessionConfig TokenAddress) (steps : List ExecutableStep) :
    ExecutionPlan where
  sourceAsset := session.sourceAsset
  outputAsset := session.outputAsset
  steps

/-- A message of the worker, with the session that produced it. -/
structure Message where
  session : OptimizationSessionConfig TokenAddress
  event : Event

def stepMessage (session : OptimizationSessionConfig TokenAddress)
    (result : OptimizationStepResult) (steps : Option (List ExecutableStep)) : Message where
  session
  event := .optimizerStepped result (steps.map (planFor session))

def failMessage (session : OptimizationSessionConfig TokenAddress) (stage : OptimizeStage)
    (message : String) : Message where
  session
  event := .effectFailed (.optimize stage message)

/-- What the worker does with a snapshot that it takes, or with an empty slot. -/
def Worker.receive : Worker → Option ReserveSnapshot → Worker
  | .waiting, some snapshot => .initializing snapshot
  | .grinding session, some snapshot =>
    if snapshot.session ≠ session then .initializing snapshot
    else if reservesReachRoute snapshot.reserves session then
      .stepping session (.newReserves snapshot.reserves)
    else .stepping session .continue
  | .grinding session, none => .stepping session .continue
  | worker, _ => worker

/-- The worker is at a point where it looks into the slot. -/
def Worker.receives : Worker → Bool
  | .waiting | .grinding _ => true
  | _ => false

/-- What the worker does when the optimizer answers. -/
def Worker.finish : Worker → Outcome → Worker × List Message
  | .initializing snapshot, .stepped result steps =>
    (.grinding snapshot.session, [stepMessage snapshot.session result steps])
  | .initializing _, .routeGap _ => (.waiting, [])
  | .initializing snapshot, .failed message =>
    (.ended, [failMessage snapshot.session .init message])
  | .stepping session _, .stepped result steps =>
    (.grinding session, [stepMessage session result steps])
  | .stepping session _, .routeGap message | .stepping session _, .failed message =>
    (.ended, [failMessage session .run message])
  | worker, _ => (worker, [])

def Worker.isEnded : Worker → Bool
  | .ended => true
  | _ => false

/-! ### The engine -/

structure Engine where
  app : AppState
  /-- The number of pushes that were emitted. -/
  emitted : Nat
  /-- The pushes whose effects are still to be executed. -/
  spawned : List Push
  slot : LatestSlot Push
  worker : Worker
  /-- The worker's messages that the reducer has not received. -/
  queue : List Message

/-- An input from outside the worker, the execution of a push, the worker looking into the
slot, the optimizer answering it, or the reducer receiving its next message. -/
inductive Action
  | input (event : Event)
  | execute (number : Nat)
  | take
  | finish (outcome : Outcome)
  | deliver

inductive Observation
  | emitted (push : Push)
  | executed (push : Push)
  | took (push : Push)
  | delivered (message : Message)

def Event.fromWorker : Event → Bool
  | .optimizerStepped _ _ | .effectFailed _ => true
  | _ => false

def Effect.snapshot : Effect → Option ReserveSnapshot
  | .pushReserves reserves session => some { reserves, session }
  | _ => none

/-- The pushes among effects, numbered on from those before. -/
def pushesOf (effects : List Effect) (emitted : Nat) : List Push :=
  (effects.filterMap Effect.snapshot).mapIdx
    (fun offset snapshot => { number := emitted + offset, snapshot })

variable [HexText]

namespace Engine

/-- One input of the reducer. A new thread is to execute the effects. -/
def reduce (engine : Engine) (event : Event) : Engine × List Observation :=
  let (app, effects) := transition engine.app event
  let pushes := pushesOf effects engine.emitted
  ({ engine with
      app
      emitted := engine.emitted + pushes.length
      spawned := engine.spawned ++ pushes },
    pushes.map .emitted)

def step (engine : Engine) : Action → Engine × List Observation
  | .input event => if event.fromWorker then (engine, []) else engine.reduce event
  | .execute number =>
    match engine.spawned.find? (·.number = number) with
    | none => (engine, [])
    | some push =>
      ({ engine with
          spawned := engine.spawned.filter (·.number ≠ number)
          slot := engine.slot.send push }, [.executed push])
  | .take =>
    if engine.worker.receives then
      ({ engine with
          slot := engine.slot.take
          worker := engine.worker.receive (engine.slot.latest.map (·.snapshot)) },
        engine.slot.latest.toList.map .took)
    else (engine, [])
  | .finish outcome =>
    let (worker, messages) := engine.worker.finish outcome
    ({ engine with
        worker
        slot := if worker.isEnded then engine.slot.close else engine.slot
        queue := engine.queue ++ messages }, [])
  | .deliver =>
    match engine.queue with
    | [] => (engine, [])
    | message :: queue =>
      let (next, observed) := { engine with queue }.reduce message.event
      (next, .delivered message :: observed)

/-- The cold start is a first tick of a fresh state. -/
def init (config : SessionConfig) : Engine where
  app := (transition (.started config) .tick).1
  emitted := 0
  spawned := []
  slot := .new
  worker := .waiting
  queue := []

end Engine

/-! ### A sample session -/

def samplePool : Address := 0x88e6a0c2ddd26feeb64f039a2c41296fcb3f5640

def wethAddress : Address := 0xC02aaA39b223FE8D0A0e5C4F27eAD9083C756Cc2

def sampleKey : PoolQuery := .uniswapV3 (addressLowerHex samplePool)

def sampleMeta : PoolsMetaResponse where
  pools :=
    [{ key := sampleKey
       token0 := addressLowerHex usdcAddress
       token1 := addressLowerHex wethAddress
       feePips := 500
       tickSpacing := 10 }]
  tokens :=
    [{ address := addressLowerHex usdcAddress, decimals := 6 },
     { address := addressLowerHex wethAddress, decimals := 18 }]

def sampleSlice : SliceResponse where
  blockHash := hashLowerHex 0x11
  confirmations := 0
  pools :=
    [{ key := sampleKey
       state := .complete
        { sqrtPriceX96 := lowerHex (2 ^ 96), tick := 0, liquidity := lowerHex (10 ^ 18) } }]

def wethRoute : Route := { source := wethAddress, output := wethAddress }

/-- A slice is pushed for the seeded route, and after a retarget one for the new route. -/
def twoPushes : List Action :=
  [.input (.metaFetched ⟨1⟩ sampleMeta), .input (.sliceFetched ⟨2⟩ sampleSlice),
   .input (.setRoute wethRoute), .input .tick, .input (.sliceFetched ⟨3⟩ sampleSlice)]

end ArmchairAnalyst.ClientCore

import ArmchairAnalyst.ClientCore.Catalog
import ArmchairAnalyst.ClientCore.PendingFetches
import ArmchairAnalyst.Optimization.RoutingFilter
import ArmchairAnalyst.LosslessReplay

/-!
# The client's reducer

The engine decides when to poll the server and when to push reserves to the optimizer.
It folds events into its state and answers with effects.
-/

namespace ArmchairAnalyst.ClientCore

open Wire Optimization

/-- The chain, and the strategy with the route in force. -/
structure SessionConfig where
  chain : ChainKey
  optimization : OptimizationSessionConfig TokenAddress
  deriving DecidableEq

/-- The asset pair of one optimization, without a chain. -/
structure Route where
  source : Address
  output : Address
  deriving DecidableEq, Repr

def clientChain : ChainKey := .ethereum

/-- The configuration of a chosen route. -/
def sessionConfigFor (route : Route) : SessionConfig where
  chain := clientChain
  optimization :=
    { sourceAsset := { address := route.source, chain := clientChain }
      outputAsset := { address := route.output, chain := clientChain }
      bridges := ∅
      whitelist := none }

def usdcAddress : Address := 0xA0b86991c6218b36c1d19D4a2e9Eb0cE3606eB48

/-- The route that is seeded before the caller sets one. -/
def defaultRoute : Route := { source := usdcAddress, output := usdcAddress }

structure SliceProvenance where
  blockHash : BlockHash
  confirmations : UInt64
  deriving DecidableEq

inductive AwaitReason
  | bootstrapping | noRoute
  deriving DecidableEq

inductive OptimizeStage
  | init | run
  deriving DecidableEq

inductive OptimizationStepStatus
  | initialized | updated | extended | reinitialized | continued
  deriving DecidableEq

variable [ReserveProjection]

structure OptimizationStepResult where
  status : OptimizationStepStatus
  inputAmount : ReserveProjection.F32
  outputAmount : ReserveProjection.F32
  profitAmount : ReserveProjection.F32
  reservesCount : Nat
  disabledCount : Nat
  poolSlots : Nat
  routeEntropy : ReserveProjection.F32
  effectivePools : ReserveProjection.F32
  routedPoolCount : Nat
  iterationsCompleted : Nat

inductive EffectError
  | fetch (what : FetchKind) (message : String)
  | adapter (error : WireAdapterError)
  | provenance (field value : String)
  | optimize (stage : OptimizeStage) (message : String)

/-- How far the engine has got past its catalog. -/
inductive Work
  | awaiting (reason : AwaitReason)
  | optimizing (latest : SliceProvenance) (lastStep : Option OptimizationStepResult)
      (plan : Option ExecutionPlan)

inductive Session
  | noCatalog
  | ready (catalog : Catalog) (work : Work)

structure AppState where
  config : SessionConfig
  health : Option HealthResponse
  lastError : Option EffectError
  session : Session
  pending : PendingFetches

inductive Event
  | metaFetched (id : FetchId) (response : PoolsMetaResponse)
  | sliceFetched (id : FetchId) (response : SliceResponse)
  | healthFetched (id : FetchId) (response : HealthResponse)
  | fetchFailed (id : FetchId) (kind : FetchKind) (message : String)
  | optimizerStepped (result : OptimizationStepResult) (plan : Option ExecutionPlan)
  | effectFailed (error : EffectError)
  | tick
  | setRoute (route : Route)

inductive Effect
  | fetchMeta (id : FetchId)
  | fetchHealth (id : FetchId)
  | fetchSlice (id : FetchId) (request : SliceRequest)
  | pushReserves (reserves : List Reserves) (session : OptimizationSessionConfig TokenAddress)

namespace AppState

def started (config : SessionConfig) : AppState where
  config
  health := none
  lastError := none
  session := .noCatalog
  pending := .new

def catalog (state : AppState) : Option Catalog :=
  match state.session with
  | .noCatalog => none
  | .ready catalog _ => some catalog

end AppState

/-! ### The handlers -/

/-- The asset with the chain of the session stamped on. -/
def SessionConfig.stamp (config : SessionConfig) (asset : Address) : TokenAddress :=
  { address := asset, chain := config.chain }

def SessionConfig.routes (config : SessionConfig) (route : Route) : Prop :=
  config.optimization.sourceAsset = config.stamp route.source ∧
    config.optimization.outputAsset = config.stamp route.output

instance (config : SessionConfig) (route : Route) : Decidable (config.routes route) :=
  inferInstanceAs (Decidable (_ ∧ _))

def SessionConfig.retarget (config : SessionConfig) (route : Route) : SessionConfig :=
  { config with
    optimization :=
      { config.optimization with
        sourceAsset := config.stamp route.source
        outputAsset := config.stamp route.output } }

/-- Results of the previous route are discarded. -/
def Session.bootstrapping : Session → Session
  | .noCatalog => .noCatalog
  | .ready catalog _ => .ready catalog (.awaiting .bootstrapping)

def onSetRoute (state : AppState) (route : Route) : AppState :=
  if state.config.routes route then state
  else
    { state with
      config := state.config.retarget route
      session := state.session.bootstrapping }

/-- Issues a fetch of a kind when the ledger lets it. -/
def ensureFetch (state : AppState) (kind : FetchKind) (effect : FetchId → Effect) :
    AppState × List Effect :=
  match state.pending.ensure kind with
  | (some id, pending) => ({ state with pending }, [effect id])
  | (none, pending) => ({ state with pending }, [])

def onTick (state : AppState) : AppState × List Effect :=
  let advanced := { state with pending := state.pending.advance }
  let (polled, health) := ensureFetch advanced .health .fetchHealth
  match polled.catalog with
  | none =>
    let (next, fetches) := ensureFetch polled .poolsMeta .fetchMeta
    (next, health ++ fetches)
  | some catalog =>
    let (next, fetches) := ensureFetch polled .slice (.fetchSlice · catalog.sliceRequest)
    (next, health ++ fetches)

/-- A catalog replaces the held one. -/
def Session.withCatalog (catalog : Catalog) : Session → Session
  | .ready _ work => .ready catalog work
  | .noCatalog => .ready catalog (.awaiting .bootstrapping)

/-- Something to spend the source asset into, and something that yields the output asset. -/
def isProductive (reserves : List Reserves) (config : SessionConfig) : Bool :=
  !reserves.isEmpty && reservesReachRoute reserves config.optimization

/-- An unproductive slice only says why the engine still waits. -/
def Work.unproductive : Work → Work
  | .awaiting _ => .awaiting .noRoute
  | .optimizing latest lastStep plan => .optimizing latest lastStep plan

/-- Results carry over a refresh, since they describe the same route. -/
def Work.refreshed (provenance : SliceProvenance) : Work → Work
  | .awaiting _ => .optimizing provenance none none
  | .optimizing _ lastStep plan => .optimizing provenance lastStep plan

/-- A step that comes back while the engine is not optimizing is ignored. -/
def Work.stepped (result : OptimizationStepResult) (plan : Option ExecutionPlan) : Work → Work
  | .awaiting reason => .awaiting reason
  | .optimizing latest _ _ => .optimizing latest (some result) plan

def Session.stepped (result : OptimizationStepResult) (plan : Option ExecutionPlan) :
    Session → Session
  | .noCatalog => .noCatalog
  | .ready catalog work => .ready catalog (work.stepped result plan)

def onStep (state : AppState) (result : OptimizationStepResult) (plan : Option ExecutionPlan) :
    AppState :=
  { state with session := state.session.stepped result plan }

variable [HexText]

def onMeta (state : AppState) (response : PoolsMetaResponse) : AppState × List Effect :=
  let catalog := Catalog.parse response state.config.chain
  ensureFetch { state with session := state.session.withCatalog catalog } .slice
    (.fetchSlice · catalog.sliceRequest)

def parseProvenance (slice : SliceResponse) : Except EffectError SliceProvenance :=
  match HexText.hashFromStr slice.blockHash with
  | some blockHash => .ok { blockHash, confirmations := slice.confirmations }
  | none => .error (.provenance "block_hash" slice.blockHash)

def onSlice (state : AppState) (slice : SliceResponse) : AppState × List Effect :=
  match state.session with
  | .noCatalog => (state, [])
  | .ready catalog work =>
    match catalog.project slice with
    | .error error => ({ state with lastError := some (.adapter error) }, [])
    | .ok reserves =>
      match parseProvenance slice with
      | .error error => ({ state with lastError := some error }, [])
      | .ok provenance =>
        if isProductive reserves state.config then
          ({ state with
              session := .ready catalog (work.refreshed provenance)
              lastError := none },
            [.pushReserves reserves state.config.optimization])
        else ({ state with session := .ready catalog work.unproductive }, [])

/-! ### The reducer -/

def transition (state : AppState) : Event → AppState × List Effect
  | .tick => onTick state
  | .metaFetched id response =>
    match state.pending.accept .poolsMeta id with
    | (true, pending) => onMeta { state with pending } response
    | (false, pending) => ({ state with pending }, [])
  | .sliceFetched id response =>
    match state.pending.accept .slice id with
    | (true, pending) => onSlice { state with pending } response
    | (false, pending) => ({ state with pending }, [])
  | .healthFetched id response =>
    match state.pending.accept .health id with
    | (true, pending) => ({ state with pending, health := some response }, [])
    | (false, pending) => ({ state with pending }, [])
  | .fetchFailed id kind message =>
    match state.pending.accept kind id with
    | (true, pending) => ({ state with pending, lastError := some (.fetch kind message) }, [])
    | (false, pending) => ({ state with pending }, [])
  | .optimizerStepped result plan => (onStep state result plan, [])
  | .effectFailed error => ({ state with lastError := some error }, [])
  | .setRoute route => (onSetRoute state route, [])

end ArmchairAnalyst.ClientCore

import ArmchairAnalyst.Chain

/-!
# Endpoint pools and failover

A request goes to one endpoint of a chain's pool after the other until one answers.
In which order the endpoints are picked depends on weights, health and clocks, so a
pool is given here by the endpoints in the order in which a request picks them.
-/

namespace ArmchairAnalyst

def ChainKey.debugName : ChainKey → String
  | .ethereum => "Ethereum"
  | .arbitrum => "Arbitrum"
  | .base => "Base"
  | .optimism => "Optimism"
  | .polygon => "Polygon"
  | .bnb => "Bnb"
  | .avalanche => "Avalanche"

namespace Client

inductive ConfigScope
  | subscription | http | graph
  deriving DecidableEq, Repr

namespace ConfigScope

def label : ConfigScope → String
  | subscription => "subscription"
  | http => "http"
  | graph => "graph"

end ConfigScope

/-- What a request can fail with. Errors of the transport libraries are carried as text. -/
inductive ClientEvmError
  | invalidConfig (scope : ConfigScope) (reason : String)
  | webSocketError (message : String)
  | httpTransport (message : String)
  | httpStatus (status : UInt16) (body : String)
  | jsonRpcError (code message : String)
  | malformedResponse (context detail : String)
  | failoverExhausted (detail : String)
  | eventReceiverDropped
  deriving DecidableEq, Repr

namespace ClientEvmError

def message : ClientEvmError → String
  | invalidConfig scope reason => "invalid " ++ scope.label ++ " config: " ++ reason
  | webSocketError message => "websocket error: " ++ message
  | httpTransport message => "http transport error: " ++ message
  | httpStatus status body => "http status " ++ toString status.toNat ++ ": " ++ body
  | jsonRpcError code message => "json-rpc error " ++ code ++ ": " ++ message
  | malformedResponse context detail => "malformed " ++ context ++ " response: " ++ detail
  | failoverExhausted detail => detail
  | eventReceiverDropped => "event receiver dropped"

end ClientEvmError

/-- Whether another endpoint may serve a request that failed with this error. -/
def isRetryable : ClientEvmError → Bool
  | .httpTransport _ => true
  | .httpStatus status _ =>
    status == 400 || status == 401 || status == 403 || status == 408 || status == 425 ||
      status == 429 || status ≥ 500
  | .jsonRpcError _ _ => true
  | .malformedResponse _ _ => true
  | .invalidConfig _ _ | .webSocketError _ | .failoverExhausted _ | .eventReceiverDropped => false

structure Endpoint where
  url : String
  label : String
  deriving DecidableEq, Repr

abbrev EndpointPool := List Endpoint

structure FailoverAttempt where
  label : String
  error : String
  deriving DecidableEq, Repr

def FailoverAttempt.record (label : String) (error : ClientEvmError) : FailoverAttempt where
  label := label
  error := error.message

def renderFailoverTrace (trace : List FailoverAttempt) (poolSize : Nat) (shortCircuited : Bool) :
    String :=
  let stopped := if shortCircuited then " — stopped on non-retryable error" else ""
  let outcomes := "; ".intercalate
    (trace.map (fun attempt => attempt.label ++ "=[" ++ attempt.error ++ "]"))
  "failover failed: tried " ++ toString trace.length ++ " of " ++ toString poolSize ++
    " endpoint(s)" ++ stopped ++ ": " ++ outcomes

def failoverExhausted (trace : List FailoverAttempt) (poolSize : Nat) (shortCircuited : Bool) :
    ClientEvmError :=
  .failoverExhausted (renderFailoverTrace trace poolSize shortCircuited)

section Failover

variable {T : Type} (attempt : String → Except ClientEvmError T) (poolSize : Nat)

/-- The remaining rounds of a failover, with what the earlier ones left behind. -/
def failoverRounds : List Endpoint → List FailoverAttempt → Option ClientEvmError →
    Except ClientEvmError T
  | [], trace, lastError =>
    if 1 < poolSize then .error (failoverExhausted trace poolSize false)
    else
      match lastError with
      | some error => .error error
      | none => .error (failoverExhausted trace poolSize false)
  | endpoint :: picks, trace, _ =>
    match attempt endpoint.url with
    | .ok value => .ok value
    | .error error =>
      if isRetryable error then
        let trace := if 1 < poolSize then trace ++ [.record endpoint.label error] else trace
        failoverRounds picks trace (some error)
      else if 1 < poolSize then
        .error (failoverExhausted (trace ++ [.record endpoint.label error]) poolSize true)
      else .error error

end Failover

/-- Runs a request against the pool, one picked endpoint after the other. -/
def EndpointPool.withFailover {T : Type} (pool : EndpointPool)
    (attempt : String → Except ClientEvmError T) : Except ClientEvmError T :=
  failoverRounds attempt pool.length pool [] none

theorem failoverRounds_ok {T : Type} {attempt : String → Except ClientEvmError T} {poolSize : Nat}
    {picks : List Endpoint} {trace : List FailoverAttempt} {lastError : Option ClientEvmError}
    {value : T} (answered : failoverRounds attempt poolSize picks trace lastError = .ok value) :
    picks.findSome? (fun endpoint => (attempt endpoint.url).toOption) = some value := by
  induction picks generalizing trace lastError with
  | nil =>
    unfold failoverRounds at answered
    split at answered
    · cases answered
    · split at answered <;> cases answered
  | cons endpoint picks inductionHypothesis =>
    unfold failoverRounds at answered
    rw [List.findSome?_cons]
    cases outcome : attempt endpoint.url with
    | ok first =>
      simp only [outcome] at answered
      simpa [Except.toOption] using answered
    | error error =>
      simp only [outcome] at answered
      simp only [Except.toOption]
      split at answered
      · exact inductionHypothesis answered
      · split at answered <;> cases answered

/-- What a failover returns is the first answer among the picked endpoints. -/
theorem EndpointPool.withFailover_ok {T : Type} {pool : EndpointPool}
    {attempt : String → Except ClientEvmError T} {value : T}
    (answered : pool.withFailover attempt = .ok value) :
    pool.findSome? (fun endpoint => (attempt endpoint.url).toOption) = some value :=
  failoverRounds_ok answered

/-- Each chain's pool for requests. -/
structure ChainEndpoints where
  pools : HashMap ChainKey EndpointPool

def ChainEndpoints.pool (endpoints : ChainEndpoints) (chain : ChainKey) :
    Except ClientEvmError EndpointPool :=
  match endpoints.pools[chain]? with
  | some pool => .ok pool
  | none =>
    .error (.invalidConfig .http
      ("no rpc endpoints configured for chain " ++ chain.debugName))

/-- The subgraph pools; a chain without one resolves no v4 metadata. -/
structure GraphEndpoints where
  pools : HashMap ChainKey EndpointPool

def GraphEndpoints.pool (endpoints : GraphEndpoints) (chain : ChainKey) : Option EndpointPool :=
  endpoints.pools[chain]?

end Client

end ArmchairAnalyst

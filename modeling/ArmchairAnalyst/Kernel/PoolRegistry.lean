import ArmchairAnalyst.PoolState

/-!
# The trusted pool registry

A candidate is verified once metadata for it arrives and rejected when its first
answer is a failure. A later success clears the rejection; a later failure never
clears a verification.
-/

namespace ArmchairAnalyst

inductive UniswapV3Fee
  | fee100 | fee500 | fee3000 | fee10000
  deriving DecidableEq, Repr

namespace UniswapV3Fee

def tryFromPips (fee : UInt32) : Option UniswapV3Fee :=
  if fee = 100 then some fee100
  else if fee = 500 then some fee500
  else if fee = 3000 then some fee3000
  else if fee = 10000 then some fee10000
  else none

def pips : UniswapV3Fee → UInt32
  | fee100 => 100
  | fee500 => 500
  | fee3000 => 3000
  | fee10000 => 10000

def tickSpacing : UniswapV3Fee → UInt16
  | fee100 => 1
  | fee500 => 10
  | fee3000 => 60
  | fee10000 => 200

theorem tryFromPips_pips (fee : UniswapV3Fee) : tryFromPips fee.pips = some fee := by
  cases fee <;> rfl

end UniswapV3Fee

inductive PoolFee
  | tiered (tier : UniswapV3Fee)
  | static (pips : UInt32) (tickSpacing : UInt16)
  deriving DecidableEq, Repr

namespace PoolFee

def pips : PoolFee → UInt32
  | tiered tier => tier.pips
  | static pips _ => pips

def tickSpacing : PoolFee → UInt16
  | tiered tier => tier.tickSpacing
  | static _ tickSpacing => tickSpacing

/-- The fee as the two facts that travel on the wire. -/
def image (fee : PoolFee) : PoolFee := static fee.pips fee.tickSpacing

end PoolFee

structure PoolMetadata where
  token0 : Address
  token1 : Address
  fee : PoolFee
  deriving DecidableEq, Repr

inductive PoolMetadataCall
  | token0 | token1 | fee | factoryGetPool
  deriving DecidableEq, Repr

inductive PoolMetadataFailure
  | callFailed (call : PoolMetadataCall)
  | decodeFailed (call : PoolMetadataCall)
  | missingResponse (call : PoolMetadataCall)
  | unsupportedFee (fee : UInt32)
  | factoryReturnedZero
  | factoryMismatch (returned : Address)
  | dynamicFee
  | hookedPool (hooks : Address)
  | poolIdMismatch
  | invalidTickSpacing (tickSpacing : Int32)
  | tokenNotWhitelisted (token : Address)
  deriving DecidableEq

abbrev PoolMetadataResult := Except PoolMetadataFailure PoolMetadata

structure TrustedPoolRegistry where
  verified : HashMap PoolRef PoolMetadata
  rejected : HashSet ProtocolPoolKey

namespace TrustedPoolRegistry

def new : TrustedPoolRegistry := ⟨∅, ∅⟩

def withMetadataResult (chain : ChainKey) (registry : TrustedPoolRegistry)
    (entry : ProtocolPoolKey × PoolMetadataResult) : TrustedPoolRegistry :=
  let pool : PoolRef := { key := entry.1, chain }
  match entry.2 with
  | .ok metadata =>
    { verified := registry.verified.insert pool metadata
      rejected := registry.rejected.erase entry.1 }
  | .error _ =>
    if pool ∈ registry.verified then registry
    else { registry with rejected := registry.rejected.insert entry.1 }

def withMetadataResults (registry : TrustedPoolRegistry) (chain : ChainKey)
    (results : HashMap ProtocolPoolKey PoolMetadataResult) : TrustedPoolRegistry :=
  results.toList.foldl (withMetadataResult chain) registry

def verifiedMetadata (registry : TrustedPoolRegistry) (pool : PoolRef) : Option PoolMetadata :=
  registry.verified[pool]?

/-- The verified pools of one chain, the set the graph folds and watches. -/
def verifiedPools (registry : TrustedPoolRegistry) (chain : ChainKey) : HashSet PoolRef :=
  HashSet.collect (registry.verified.keys.filter (fun pool => pool.chain = chain))

def verifiedAddresses (registry : TrustedPoolRegistry) (chain : ChainKey) : HashSet Address :=
  HashSet.collect ((registry.verified.keys.filter (fun pool => pool.chain = chain)).filterMap
    (·.uniswapV3Address))

def verifiedPool (registry : TrustedPoolRegistry) (chain : ChainKey)
    (candidate : ProtocolPoolKey) : Option PoolRef :=
  let pool : PoolRef := { key := candidate, chain }
  if pool ∈ registry.verified then some pool else none

def isRejected (registry : TrustedPoolRegistry) (candidate : ProtocolPoolKey) : Bool :=
  registry.rejected.contains candidate

def isKnown (registry : TrustedPoolRegistry) (chain : ChainKey) (candidate : ProtocolPoolKey) :
    Bool :=
  (registry.verifiedPool chain candidate).isSome || registry.isRejected candidate

@[simp] theorem mem_verifiedPools (registry : TrustedPoolRegistry) (chain : ChainKey)
    (pool : PoolRef) :
    pool ∈ registry.verifiedPools chain ↔ pool ∈ registry.verified ∧ pool.chain = chain := by
  simp [verifiedPools]

theorem verified_withMetadataResult_mono {registry : TrustedPoolRegistry} {chain : ChainKey}
    {entry : ProtocolPoolKey × PoolMetadataResult} {pool : PoolRef}
    (verified : pool ∈ registry.verified) :
    pool ∈ (withMetadataResult chain registry entry).verified := by
  obtain ⟨candidate, result⟩ := entry
  cases result with
  | ok metadata => simp [withMetadataResult, verified]
  | error failure =>
    simp only [withMetadataResult]
    split <;> exact verified

/-- Verification is never withdrawn. -/
theorem verified_withMetadataResults_mono {registry : TrustedPoolRegistry} (chain : ChainKey)
    (results : HashMap ProtocolPoolKey PoolMetadataResult) {pool : PoolRef}
    (verified : pool ∈ registry.verified) :
    pool ∈ (registry.withMetadataResults chain results).verified := by
  unfold withMetadataResults
  induction results.toList generalizing registry with
  | nil => exact verified
  | cons entry entries inductionHypothesis =>
    exact inductionHypothesis (verified_withMetadataResult_mono verified)

end TrustedPoolRegistry

end ArmchairAnalyst

import ArmchairAnalyst.Kernel.PoolRegistry
import ArmchairAnalyst.Kernel.TokenRegistry

/-!
# The token whitelist

A configured whitelist denies by default. At discovery it turns the metadata of a pool
with a token off the list into a failure, so that the registry rejects the pool.
-/

namespace ArmchairAnalyst

structure TokenWhitelist where
  tokens : HashSet TokenAddress

namespace TokenWhitelist

def allows (whitelist : TokenWhitelist) (token : TokenAddress) : Bool :=
  whitelist.tokens.contains token

/-- The first of a pool's tokens that is not on the list. -/
def denied (whitelist : TokenWhitelist) (chain : ChainKey) (metadata : PoolMetadata) :
    Option Address :=
  [metadata.token0, metadata.token1].find? (fun token => !whitelist.allows ⟨token, chain⟩)

def gatePoolMetadataResult (whitelist : TokenWhitelist) (chain : ChainKey) :
    PoolMetadataResult → PoolMetadataResult
  | .ok metadata =>
    match whitelist.denied chain metadata with
    | some token => .error (.tokenNotWhitelisted token)
    | none => .ok metadata
  | .error failure => .error failure

def gatePoolMetadataResults (whitelist : TokenWhitelist) (chain : ChainKey)
    (results : HashMap ProtocolPoolKey PoolMetadataResult) :
    HashMap ProtocolPoolKey PoolMetadataResult :=
  results.map (fun _ result => whitelist.gatePoolMetadataResult chain result)

@[simp] theorem mem_gatePoolMetadataResults (whitelist : TokenWhitelist) (chain : ChainKey)
    (results : HashMap ProtocolPoolKey PoolMetadataResult) (key : ProtocolPoolKey) :
    key ∈ whitelist.gatePoolMetadataResults chain results ↔ key ∈ results := by
  simp [gatePoolMetadataResults]

end TokenWhitelist

end ArmchairAnalyst

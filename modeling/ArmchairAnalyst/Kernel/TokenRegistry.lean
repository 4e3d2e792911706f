import ArmchairAnalyst.PoolState

/-!
# The token registry

Decimals of a token are verified once an answer carries them; a token whose
answer failed is unsupported until a later answer succeeds. The native currency
is known without being asked for.
-/

namespace ArmchairAnalyst

open Std (TransOrd LawfulEqOrd TransCmp)

structure TokenAddress where
  address : Address
  chain : ChainKey
  deriving DecidableEq, Repr

namespace TokenAddress

instance : Ord TokenAddress := ⟨compareLex (compareOn address) (compareOn chain)⟩

instance : TransOrd TokenAddress :=
  inferInstanceAs (TransCmp (compareLex (compareOn address) (compareOn chain)))

instance : LawfulEqOrd TokenAddress where
  eq_of_compare := by
    rintro ⟨address, chain⟩ ⟨address', chain'⟩ equal
    have both := compareLex_eq_eq.mp equal
    simp_all [compareOn]

end TokenAddress

inductive TokenMetadataCall
  | decimals
  deriving DecidableEq, Repr

inductive TokenMetadataFailure
  | callFailed (call : TokenMetadataCall)
  | decodeFailed (call : TokenMetadataCall)
  | missingResponse (call : TokenMetadataCall)
  | unsupportedDecimals (value : U256)
  deriving DecidableEq, Repr

/-- A decimals count within the supported range. -/
structure TokenDecimals where
  value : Nat
  supported : value ≤ 36
  deriving DecidableEq, Repr

def TokenDecimals.tryFromU256 (value : U256) : Except TokenMetadataFailure TokenDecimals :=
  if supported : value.toNat ≤ 36 then .ok ⟨value.toNat, supported⟩
  else .error (.unsupportedDecimals value)

structure TokenMetadata where
  decimals : TokenDecimals
  deriving DecidableEq, Repr

abbrev TokenMetadataResult := Except TokenMetadataFailure TokenMetadata

def nativeTokenMetadata : TokenMetadata := ⟨⟨18, by decide⟩⟩

structure TokenRegistry where
  verified : HashMap TokenAddress TokenMetadata
  unsupported : HashMap TokenAddress TokenMetadataFailure

namespace TokenRegistry

def new : TokenRegistry := ⟨∅, ∅⟩

def withMetadataResult (registry : TokenRegistry)
    (entry : TokenAddress × TokenMetadataResult) : TokenRegistry :=
  match entry.2 with
  | .ok metadata =>
    { verified := registry.verified.insert entry.1 metadata
      unsupported := registry.unsupported.erase entry.1 }
  | .error failure =>
    if entry.1 ∈ registry.verified then registry
    else { registry with unsupported := registry.unsupported.insert entry.1 failure }

def withMetadataResults (registry : TokenRegistry)
    (results : HashMap TokenAddress TokenMetadataResult) : TokenRegistry :=
  results.toList.foldl withMetadataResult registry

def verifiedMetadata (registry : TokenRegistry) (token : TokenAddress) : Option TokenMetadata :=
  if token.address = 0 then some nativeTokenMetadata else registry.verified[token]?

def isUnsupported (registry : TokenRegistry) (token : TokenAddress) : Bool :=
  registry.unsupported.contains token

def isKnown (registry : TokenRegistry) (token : TokenAddress) : Bool :=
  (registry.verifiedMetadata token).isSome || registry.isUnsupported token

end TokenRegistry

end ArmchairAnalyst

import ArmchairAnalyst.Kernel.TrackedPools
import ArmchairAnalyst.Kernel.WorkInFlight

/-!
# The metadata catalog

The verified pools and tokens as readers outside the kernel see them. The kernel of a
chain only verifies pools of that chain, and it never stores the native currency, whose
decimals are never asked for.
-/

namespace ArmchairAnalyst

/-- A snapshot of the verified metadata, of every chain that the registries hold. -/
structure MetadataCatalog where
  pools : HashMap PoolRef PoolMetadata
  tokens : HashMap TokenAddress TokenMetadata

/-- The order in which a map of pools yields its entries, which the program leaves open. -/
structure PoolOrder where
  arrange : List (PoolRef × PoolMetadata) → List (PoolRef × PoolMetadata)
  perm : ∀ entries, (arrange entries).Perm entries

def PoolOrder.ascending : PoolOrder := ⟨id, fun _ => .refl _⟩

namespace MetadataCatalog

def iterPools (catalog : MetadataCatalog) (order : PoolOrder) : List (PoolRef × PoolMetadata) :=
  order.arrange catalog.pools.toList

/-- Only what was validated and stored; the native currency is not resolved here. -/
def tokenMetadata (catalog : MetadataCatalog) (token : TokenAddress) : Option TokenMetadata :=
  catalog.tokens[token]?

theorem mem_iterPools (catalog : MetadataCatalog) (order : PoolOrder)
    (entry : PoolRef × PoolMetadata) :
    entry ∈ catalog.iterPools order ↔ catalog.pools[entry.1]? = some entry.2 := by
  rw [iterPools, (order.perm _).mem_iff, HashMap.mem_toList_iff]

end MetadataCatalog

namespace Kernel

def State.metadataCatalog (state : State) : MetadataCatalog where
  pools := state.poolRegistry.verified
  tokens := state.tokenRegistry.verified

/-! ### What the registries hold -/

/-- The verified pools are of one chain, and the native currency is not stored. -/
structure Owned (chain : ChainKey) (registries : TrustedPoolRegistry × TokenRegistry) : Prop where
  pools : ∀ pool ∈ registries.1.verified, pool.chain = chain
  tokens : ∀ token ∈ registries.2.verified, token.address ≠ 0

theorem Owned.new (chain : ChainKey) : Owned chain (.new, .new) where
  pools := by simp [TrustedPoolRegistry.new]
  tokens := by simp [TokenRegistry.new]

theorem Owned.withPoolResults {chain : ChainKey}
    {registries : TrustedPoolRegistry × TokenRegistry} (owned : Owned chain registries)
    (results : HashMap ProtocolPoolKey PoolMetadataResult) :
    Owned chain (registries.1.withMetadataResults chain results, registries.2) where
  pools := by
    apply List.foldlRecOn
      (motive := fun registry : TrustedPoolRegistry => ∀ pool ∈ registry.verified, pool.chain = chain)
    · exact owned.pools
    · rintro registry held ⟨candidate, result⟩ -
      cases result with
      | ok metadata =>
        intro pool listed
        rw [TrustedPoolRegistry.withMetadataResult, Std.ExtTreeMap.mem_insert,
          Std.LawfulEqOrd.compare_eq_iff_eq] at listed
        rcases listed with rfl | earlier
        · rfl
        · exact held pool earlier
      | error failure =>
        simp only [TrustedPoolRegistry.withMetadataResult]
        split <;> exact held
  tokens := owned.tokens

theorem Owned.withTokenResults {chain : ChainKey}
    {registries : TrustedPoolRegistry × TokenRegistry} (owned : Owned chain registries)
    {results : HashMap TokenAddress TokenMetadataResult}
    (foreign : ∀ token ∈ results, token.address ≠ 0) :
    Owned chain (registries.1, registries.2.withMetadataResults results) where
  pools := owned.pools
  tokens := by
    apply List.foldlRecOn
      (motive := fun registry : TokenRegistry => ∀ token ∈ registry.verified, token.address ≠ 0)
    · exact owned.tokens
    · rintro registry held ⟨asked, result⟩ answered
      have present : asked ∈ results :=
        (HashMap.mem_iff_exists results asked).mpr ⟨_, (HashMap.mem_toList_iff _ _).mp answered⟩
      cases result with
      | ok metadata =>
        intro token listed
        rw [TokenRegistry.withMetadataResult, Std.ExtTreeMap.mem_insert,
          Std.LawfulEqOrd.compare_eq_iff_eq] at listed
        rcases listed with rfl | earlier
        · exact foreign asked present
        · exact held token earlier
      | error failure =>
        simp only [TokenRegistry.withMetadataResult]
        split <;> exact held

/-! ### What is asked for -/

/-- A request for decimals does not name the native currency. -/
def AsksForeign : (kind : RequestKind) → kind.Payload → Prop
  | .tokenMetadata, payload => ∀ token ∈ payload.tokens, token.address ≠ 0
  | _, _ => True

theorem Asked.asksForeign {chain : ChainKey} {absorbed : State} {kind : RequestKind}
    {payload : kind.Payload} (asked : Asked chain absorbed kind payload) :
    AsksForeign kind payload := by
  cases kind with
  | tokenMetadata =>
    rcases asked with other | unknown
    · simp at other
    · intro token requested native
      have known : absorbed.tokenRegistry.isKnown token = true := by
        simp [TokenRegistry.isKnown, TokenRegistry.verifiedMetadata, native]
      rw [unknown token requested] at known
      cases known
  | _ => trivial

/-- The state holds and asks for what belongs to its chain. -/
structure Housed (chain : ChainKey) (state : State) : Prop where
  registries : Owned chain state.registries
  requests : RequestStore.AllPayloads AsksForeign state.pendingRequests

theorem Housed.transition [BloomHash] {chain : ChainKey} {state : State}
    (housed : Housed chain state) (event : Event) :
    Housed chain (transition chain state event).1 where
  registries := by
    apply transition_registries (Owned chain) state event
    · exact fun _ _ _ registries results owned => owned.withPoolResults results
    · intro id metadata _ payload waiting registries owned
      have asked : ∀ token ∈ payload.tokens, token.address ≠ 0 := housed.requests _ waiting
      refine owned.withTokenResults (fun token listed => asked token ?_)
      have kept : token ∈ metadata ∧ payload.tokens.contains token = true := by grind
      exact kept.2
    · exact housed.registries
  requests := by
    by_cases restarts : Reinitialises state event
    · cases event with
      | canonicalHeaderAtHeightReceived id hash number =>
        rw [transition_reinitialises chain state id restarts]
        exact fun request waiting => absurd waiting (RequestStore.not_inFlight_new request)
      | _ => exact absurd restarts id
    · have continues := transition_continues chain state event restarts
      refine housed.requests.evolves continues.evolves (fun request issued => ?_)
      rcases continues.reasons request issued with asked | ⟨id, retried⟩
      · exact asked.asksForeign
      · exact housed.requests ⟨request.kind, id, request.requestPayload⟩ retried

/-- A start from registries that belong to the chain. -/
theorem Housed.activateFromSeed {chain : ChainKey} {pools : TrustedPoolRegistry}
    {tokens : TokenRegistry} (owned : Owned chain (pools, tokens)) (hash : BlockHash)
    (number : UInt64) (snapshots : HashMap PoolRef PoolState)
    (blocks : List SeedBlock) :
    Housed chain (State.activateFromSeed hash number snapshots pools tokens blocks).1 := by
  have issues := activation_issues chain hash number snapshots pools tokens blocks
  refine ⟨?_, ?_⟩
  · rw [State.registries, issues.poolRegistry, issues.tokenRegistry]
    exact owned
  · obtain ⟨issued, -, evolves, sort⟩ := issues.issued
    have nothing : RequestStore.AllPayloads AsksForeign (RequestStore.new : PendingRequests) :=
      fun request waiting => absurd waiting (RequestStore.not_inFlight_new request)
    exact nothing.evolves evolves (fun request membership =>
      Asked.asksForeign (.inr (sort request membership)))

end Kernel

end ArmchairAnalyst

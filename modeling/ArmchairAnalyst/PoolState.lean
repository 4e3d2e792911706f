import ArmchairAnalyst.Chain

/-!
# Pool identities and pool states

A v3 pool is its own contract; a v4 pool lives in the singleton manager and is
named by a pool id. A pool reference adds the chain.
-/

namespace ArmchairAnalyst

open Std (TransOrd LawfulEqOrd TransCmp)

abbrev PoolId := BitVec 256

abbrev U160 := BitVec 160

abbrev U128 := BitVec 128

abbrev U256 := BitVec 256

/-- A signed 24-bit integer, the range of ticks. -/
structure I24 where
  value : Int
  lower : -8388608 ≤ value
  upper : value < 8388608
  deriving DecidableEq, Repr

instance : LE I24 := ⟨fun a b => a.value ≤ b.value⟩

instance : LT I24 := ⟨fun a b => a.value < b.value⟩

instance (a b : I24) : Decidable (a ≤ b) := inferInstanceAs (Decidable (a.value ≤ b.value))

instance (a b : I24) : Decidable (a < b) := inferInstanceAs (Decidable (a.value < b.value))

def I24.tryFrom (value : Int) : Option I24 :=
  if bounds : -8388608 ≤ value ∧ value < 8388608 then some ⟨value, bounds.1, bounds.2⟩ else none

@[simp] theorem I24.tryFrom_value (tick : I24) : I24.tryFrom tick.value = some tick := by
  simp [I24.tryFrom, tick.lower, tick.upper]

inductive ProtocolPoolKey
  | uniswapV3 (address : Address)
  | uniswapV4 (poolId : PoolId)
  deriving DecidableEq, Repr

namespace ProtocolPoolKey

/-- v3 pools sort before v4 pools, and by their word within a protocol. -/
def sortKey : ProtocolPoolKey → Nat × Nat
  | uniswapV3 address => (0, address.toNat)
  | uniswapV4 poolId => (1, poolId.toNat)

theorem sortKey_injective {a b : ProtocolPoolKey} (same : a.sortKey = b.sortKey) : a = b := by
  cases a <;> cases b <;> simp_all [sortKey, BitVec.toNat_eq]

def order : ProtocolPoolKey → ProtocolPoolKey → Ordering :=
  compareLex (compareOn (fun k => k.sortKey.1)) (compareOn (fun k => k.sortKey.2))

instance : Ord ProtocolPoolKey := ⟨order⟩

instance : TransOrd ProtocolPoolKey :=
  inferInstanceAs (TransCmp (compareLex (compareOn (fun k : ProtocolPoolKey => k.sortKey.1))
    (compareOn (fun k : ProtocolPoolKey => k.sortKey.2))))

instance : LawfulEqOrd ProtocolPoolKey where
  eq_of_compare := by
    intro a b equal
    apply sortKey_injective
    have both := compareLex_eq_eq.mp equal
    ext <;> simp_all [compareOn]

def uniswapV3Address : ProtocolPoolKey → Option Address
  | uniswapV3 address => some address
  | uniswapV4 _ => none

end ProtocolPoolKey

structure PoolRef where
  key : ProtocolPoolKey
  chain : ChainKey
  deriving DecidableEq, Repr

namespace PoolRef

instance : Ord PoolRef := ⟨compareLex (compareOn key) (compareOn chain)⟩

instance : TransOrd PoolRef :=
  inferInstanceAs (TransCmp (compareLex (compareOn key) (compareOn chain)))

instance : LawfulEqOrd PoolRef where
  eq_of_compare := by
    rintro ⟨key, chain⟩ ⟨key', chain'⟩ equal
    have both := compareLex_eq_eq.mp equal
    simp_all [compareOn]

def uniswapV3Address (pool : PoolRef) : Option Address := pool.key.uniswapV3Address

end PoolRef

structure PoolState where
  sqrtPriceX96 : U160
  tick : I24
  liquidity : U128
  deriving DecidableEq, Repr

inductive PoolDataCall
  | slot0 | liquidity
  deriving DecidableEq, Repr

inductive PoolDataFailure
  | callFailed (call : PoolDataCall)
  | decodeFailed (call : PoolDataCall)
  | missingResponse (call : PoolDataCall)
  deriving DecidableEq, Repr

abbrev PoolDataResult := Except PoolDataFailure PoolState

end ArmchairAnalyst

import ArmchairAnalyst.Library.Collections

/-!
# Chains and on-chain identifiers

Hashes, addresses and blooms are fixed-width words. The logs bloom itself is
computed by a keccak library outside the repository, so the bit pattern an
address accrues is a parameter.
-/

namespace ArmchairAnalyst

open Std (TransOrd LawfulEqOrd TransCmp)

abbrev BlockHash := BitVec 256

abbrev Address := BitVec 160

abbrev Bloom := BitVec 2048

-- The word orders under names of their own, so that no lookup carries a copy of their proofs.
instance : TransOrd BlockHash := inferInstance

instance : LawfulEqOrd BlockHash := inferInstance

instance : TransOrd Address := inferInstance

instance : LawfulEqOrd Address := inferInstance

/-- The pattern of bits a raw address sets in a logs bloom. -/
class BloomHash where
  accrue : Address → Bloom

/-- The pattern with the given bits set. -/
def Bloom.ofBits (bits : List Nat) : Bloom :=
  bits.foldl (fun bloom bit => bloom ||| (1#2048 <<< bit)) 0

/-- A bloom contains a pattern when every bit of the pattern is set. -/
def Bloom.contains (bloom pattern : Bloom) : Bool := bloom &&& pattern == pattern

inductive ChainKey
  | ethereum | arbitrum | base | optimism | polygon | bnb | avalanche
  deriving DecidableEq, Repr

namespace ChainKey

def index : ChainKey → Nat
  | ethereum => 0
  | arbitrum => 1
  | base => 2
  | optimism => 3
  | polygon => 4
  | bnb => 5
  | avalanche => 6

theorem index_injective {a b : ChainKey} (same : a.index = b.index) : a = b := by
  cases a <;> cases b <;> simp_all [index]

instance : Ord ChainKey := ⟨compareOn index⟩

instance : TransOrd ChainKey := inferInstanceAs (TransCmp (compareOn index))

instance : LawfulEqOrd ChainKey where
  eq_of_compare := fun equal => index_injective (Nat.compare_eq_eq.mp equal)

end ChainKey

/-- The approximate distance in blocks from the tip back to a final block. -/
def approxFinalizedBlockAge : ChainKey → Nat
  | .ethereum => 64
  | .arbitrum => 1000
  | .base => 200
  | .optimism => 200
  | .polygon => 400
  | .bnb => 150
  | .avalanche => 80

def maxSimultaneousForks : Nat := 4

def pendingCapForkMargin : Nat := 8

/-- The per-chain bound on the staging area of blocks that do not connect yet. -/
def maxPendingBlocks (chain : ChainKey) : Nat :=
  pendingCapForkMargin * approxFinalizedBlockAge chain

theorem forks_lt_maxPendingBlocks (chain : ChainKey) :
    maxSimultaneousForks * approxFinalizedBlockAge chain < maxPendingBlocks chain := by
  cases chain <;> decide

theorem maxPendingBlocks_pos (chain : ChainKey) : 0 < maxPendingBlocks chain :=
  Nat.lt_of_le_of_lt (Nat.zero_le _) (forks_lt_maxPendingBlocks chain)

/-- The singleton that emits every v4 pool event of a chain. -/
def poolManagerAddress : ChainKey → Option Address
  | .ethereum => some 0x000000000004444c5dc75cB358380D2e3dE08A90
  | .arbitrum => some 0x360e68faccca8ca495c1b759fd9eee466db9fb32
  | .base => some 0x498581ff718922c3f8e6a244956af099b2652b2b
  | .optimism => some 0x9a13f98cb987694c9f086b1f5eb990eea8264ec3
  | .polygon => some 0x67366782805870060151383f4bbff9dab53e5cd6
  | .bnb => some 0x28e2ea090877bf75740558f6bfb36a5ffee9e9df
  | .avalanche => some 0x06380c0e0912312b5150364b9dc4542ba0dbbc85

/-- The patterns of Ethereum's pool manager and of one v3 pool, for evaluation on
blocks that carry no other address. -/
@[reducible] def BloomHash.tabulated : BloomHash where
  accrue address :=
    if address = 0x000000000004444c5dc75cB358380D2e3dE08A90 then .ofBits [491, 1757, 668]
    else if address = 0x88e6a0c2ddd26feeb64f039a2c41296fcb3f5640 then .ofBits [565, 531, 172]
    else 0

end ArmchairAnalyst

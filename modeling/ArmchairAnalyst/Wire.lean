import ArmchairAnalyst.PoolState

/-!
# The wire between server and client

The payloads of the data plane. Words travel as hexadecimal text, whose readers
belong to the libraries the two ends use.
-/

namespace ArmchairAnalyst

namespace Wire

/-- The identity of a pool; the chain is implicit. -/
inductive PoolQuery
  | uniswapV3 (address : String)
  | uniswapV4 (poolId : String)
  deriving DecidableEq, Repr

structure SliceRequest where
  pools : List PoolQuery
  deriving DecidableEq, Repr

/-- The raw state of a pool; the two wide integers are hexadecimal. -/
structure WirePoolState where
  sqrtPriceX96 : String
  tick : Int32
  liquidity : String
  deriving DecidableEq

inductive PoolCompleteness
  | complete (state : WirePoolState)
  | incomplete
  deriving DecidableEq

structure PoolSlice where
  key : PoolQuery
  state : PoolCompleteness
  deriving DecidableEq

structure SliceResponse where
  blockHash : String
  confirmations : UInt64
  pools : List PoolSlice
  deriving DecidableEq

/-- The fixed facts of a verified pool. A v3 tier and a v4 fee travel in the same form. -/
structure PoolMetaEntry where
  key : PoolQuery
  token0 : String
  token1 : String
  feePips : UInt32
  tickSpacing : UInt16
  deriving DecidableEq

structure TokenMetaEntry where
  address : String
  decimals : UInt8
  deriving DecidableEq

structure PoolsMetaResponse where
  pools : List PoolMetaEntry
  tokens : List TokenMetaEntry
  deriving DecidableEq

structure FinalizedHead where
  number : UInt64
  hash : String
  deriving DecidableEq

inductive HealthResponse
  | awaitingAnchor
  | running (finalized : FinalizedHead) (canonical : String) (pools inFlight : Nat)
      (wsMiss : UInt64) (behind : Option Nat)
  deriving DecidableEq

/-- The readers of hexadecimal text. -/
class HexText where
  addressFromStr : String → Option Address
  hashFromStr : String → Option BlockHash
  u160FromStrRadix : String → Option U160
  u128FromStrRadix : String → Option U128

/-- The JSON form of requests and responses. -/
class SliceCodec where
  requestFromStr : String → Option SliceRequest
  responseToString : SliceResponse → Option String

/-- The JSON forms of all that the two ends exchange. -/
class DataPlaneCodec extends SliceCodec where
  requestToString : SliceRequest → Option String
  responseFromStr : String → Option SliceResponse
  metaToString : PoolsMetaResponse → Option String
  metaFromStr : String → Option PoolsMetaResponse

/-- A number in hexadecimal, without leading zeros. -/
def lowerHex (value : Nat) : String := "0x" ++ String.ofList (Nat.toDigits 16 value)

/-- A hash in hexadecimal, in its full width. -/
def hashLowerHex (hash : BlockHash) : String :=
  let digits := Nat.toDigits 16 hash.toNat
  "0x" ++ String.ofList (List.replicate (64 - digits.length) '0' ++ digits)

/-- An address in hexadecimal, in its full width. -/
def addressLowerHex (address : Address) : String :=
  let digits := Nat.toDigits 16 address.toNat
  "0x" ++ String.ofList (List.replicate (40 - digits.length) '0' ++ digits)

/-- The text without a leading `0x`; a bare text is left as it is. -/
def strip0x (value : String) : String :=
  match value.toList with
  | '0' :: 'x' :: digits => String.ofList digits
  | '0' :: 'X' :: digits => String.ofList digits
  | _ => value

/-! ### Decoding -/

def hexDigit (digit : Char) : Option Nat :=
  if '0' ≤ digit ∧ digit ≤ '9' then some (digit.toNat - '0'.toNat)
  else if 'a' ≤ digit ∧ digit ≤ 'f' then some (digit.toNat - 'a'.toNat + 10)
  else if 'A' ≤ digit ∧ digit ≤ 'F' then some (digit.toNat - 'A'.toNat + 10)
  else none

/-- The number that hexadecimal digits spell after the ones before them. -/
def hexValue : Nat → List Char → Option Nat
  | value, [] => some value
  | value, digit :: digits => (hexDigit digit).bind (fun next => hexValue (value * 16 + next) digits)

/-- A number of exactly so many digits. -/
def fixedHex (width : Nat) (text : String) : Option (BitVec (4 * width)) :=
  let digits := (strip0x text).toList
  if digits.length = width then (hexValue 0 digits).map (BitVec.ofNat (4 * width)) else none

/-- A number of at least one digit that fits. -/
def boundedHex (bits : Nat) (text : String) : Option (BitVec bits) :=
  if text.toList = [] then none
  else (hexValue 0 text.toList).bind (fun value =>
    if value < 2 ^ bits then some (BitVec.ofNat bits value) else none)

/-- Readers that accept plain digits. -/
@[reducible] def HexText.decoded : HexText where
  addressFromStr := fixedHex 40
  hashFromStr := fixedHex 64
  u160FromStrRadix := boundedHex 160
  u128FromStrRadix := boundedHex 128

/-! ### Round trips -/

/-- What is written in hexadecimal reads back. -/
structure HexText.RoundTrips [HexText] : Prop where
  address : ∀ address, HexText.addressFromStr (addressLowerHex address) = some address
  hash : ∀ hash, HexText.hashFromStr (hashLowerHex hash) = some hash
  u160 : ∀ value : U160,
    HexText.u160FromStrRadix (String.ofList (Nat.toDigits 16 value.toNat)) = some value
  u128 : ∀ value : U128,
    HexText.u128FromStrRadix (String.ofList (Nat.toDigits 16 value.toNat)) = some value

@[simp] theorem strip0x_marked (digits : List Char) :
    strip0x ("0x" ++ String.ofList digits) = String.ofList digits := by
  have marked : ("0x" ++ String.ofList digits).toList = '0' :: 'x' :: digits := by
    simp [String.toList_append]
  simp only [strip0x, marked]

theorem hexDigit_digitChar {digit : Nat} (small : digit < 16) :
    hexDigit (Nat.digitChar digit) = some digit := by
  interval_cases digit <;> decide

theorem hexValue_append (value : Nat) (first second : List Char) :
    hexValue value (first ++ second) =
      (hexValue value first).bind (fun next => hexValue next second) := by
  induction first generalizing value with
  | nil => rfl
  | cons digit digits inductionHypothesis =>
    simp only [List.cons_append, hexValue, Option.bind_assoc, inductionHypothesis]

theorem hexValue_digit {digit : Nat} (small : digit < 16) (value : Nat) :
    hexValue value [Nat.digitChar digit] = some (value * 16 + digit) := by
  simp [hexValue, hexDigit_digitChar small]

theorem hexValue_toDigits (value : Nat) : hexValue 0 (Nat.toDigits 16 value) = some value := by
  induction value using Nat.strongRecOn with
  | ind value inductionHypothesis =>
    rw [Nat.toDigits_eq_if (by decide)]
    split
    · rename_i small
      rw [hexValue_digit small, Nat.zero_mul, Nat.zero_add]
    · rw [hexValue_append, inductionHypothesis (value / 16) (by omega), Option.bind_some,
        hexValue_digit (Nat.mod_lt _ (by decide)), Nat.div_add_mod']

theorem hexValue_padded (zeros : Nat) (digits : List Char) :
    hexValue 0 (List.replicate zeros '0' ++ digits) = hexValue 0 digits := by
  induction zeros with
  | zero => rfl
  | succ zeros inductionHypothesis =>
    rw [List.replicate_succ, List.cons_append]
    exact inductionHypothesis

/-- A word written in its full width reads back. -/
theorem fixedHex_padded {width : Nat} (positive : 0 < width) (value : BitVec (4 * width)) :
    fixedHex width ("0x" ++ String.ofList (List.replicate
      (width - (Nat.toDigits 16 value.toNat).length) '0' ++ Nat.toDigits 16 value.toNat)) =
      some value := by
  have bound : value.toNat < 16 ^ width := by
    have below := value.isLt
    rwa [pow_mul] at below
  have short := (Nat.length_toDigits_le_iff (by decide) positive).mpr bound
  simp only [fixedHex, strip0x_marked, String.toList_ofList]
  rw [if_pos (by simp only [List.length_append, List.length_replicate]; omega), hexValue_padded,
    hexValue_toDigits, Option.map_some, BitVec.ofNat_toNat, BitVec.setWidth_eq]

/-- A number written without leading zeros reads back. -/
theorem boundedHex_toDigits {bits : Nat} (value : BitVec bits) :
    boundedHex bits (String.ofList (Nat.toDigits 16 value.toNat)) = some value := by
  simp only [boundedHex, String.toList_ofList]
  rw [if_neg Nat.toDigits_ne_nil, hexValue_toDigits, Option.bind_some, if_pos value.isLt,
    BitVec.ofNat_toNat, BitVec.setWidth_eq]

theorem HexText.decoded_roundTrips : @HexText.RoundTrips .decoded :=
  @HexText.RoundTrips.mk .decoded (fixedHex_padded (Nat.succ_pos 39))
    (fixedHex_padded (Nat.succ_pos 63)) boundedHex_toDigits boundedHex_toDigits

end Wire

end ArmchairAnalyst

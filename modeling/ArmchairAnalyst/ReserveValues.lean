import ArmchairAnalyst.TickMath
import ArmchairAnalyst.PoolReserves

/-!
# Reserve values

The virtual reserves of a pool and the inputs that take it to the ends of its tick
range, scaled by the decimals of its tokens. Only the conversion to single precision
floats is a parameter.
-/

namespace ArmchairAnalyst

inductive PoolStateError
  | tickMath (error : TickMathError)
  | sqrtPriceAtTickFailed (source : TickMathError) (poolState : PoolState)
  | swapLimitXSubtractionOverflow (reserveMin reserveCurrent : U256) (tick : I24)
      (tickSpacing : UInt16) (sqrtPriceCurrent sqrtPriceMin : U160)
  | swapLimitYSubtractionOverflow (reserveMax reserveCurrent : U256) (tick : I24)
      (tickSpacing : UInt16) (sqrtPriceCurrent sqrtPriceMax : U160)
  deriving DecidableEq

/-- A price of zero has empty reserves, as no liquidity has. -/
def virtualReserveX (sqrtPriceX96 : U160) (liquidity : U128) : U256 :=
  BitVec.ofNat 256 (liquidity.toNat * 2 ^ 96 / sqrtPriceX96.toNat)

def virtualReserveY (sqrtPriceX96 : U160) (liquidity : U128) : U256 :=
  BitVec.ofNat 256 (liquidity.toNat * sqrtPriceX96.toNat / 2 ^ 96)

namespace PoolState

def virtualReserveX (state : PoolState) : U256 :=
  ArmchairAnalyst.virtualReserveX state.sqrtPriceX96 state.liquidity

def virtualReserveY (state : PoolState) : U256 :=
  ArmchairAnalyst.virtualReserveY state.sqrtPriceX96 state.liquidity

/-- The token 0 input at which the price reaches the lower end of its range. -/
def swapLimitX (state : PoolState) (tickSpacing : UInt16) : Except PoolStateError U256 :=
  match tickLow state.tick tickSpacing with
  | .error error => .error (.tickMath error)
  | .ok low =>
    match sqrtPriceAtTick low with
    | .error source => .error (.sqrtPriceAtTickFailed source state)
    | .ok sqrtPriceMin =>
      let reserveCurrent := state.virtualReserveX
      let reserveMin := ArmchairAnalyst.virtualReserveX sqrtPriceMin state.liquidity
      if reserveMin < reserveCurrent then
        .error (.swapLimitXSubtractionOverflow reserveMin reserveCurrent state.tick tickSpacing
          state.sqrtPriceX96 sqrtPriceMin)
      else .ok (reserveMin - reserveCurrent)

/-- The token 1 input at which the price reaches the upper end of its range. -/
def swapLimitY (state : PoolState) (tickSpacing : UInt16) : Except PoolStateError U256 :=
  match tickHigh state.tick tickSpacing with
  | .error error => .error (.tickMath error)
  | .ok high =>
    match sqrtPriceAtTick high with
    | .error source => .error (.sqrtPriceAtTickFailed source state)
    | .ok sqrtPriceMax =>
      let reserveCurrent := state.virtualReserveY
      let reserveMax := ArmchairAnalyst.virtualReserveY sqrtPriceMax state.liquidity
      if reserveMax < reserveCurrent then
        .error (.swapLimitYSubtractionOverflow reserveMax reserveCurrent state.tick tickSpacing
          state.sqrtPriceX96 sqrtPriceMax)
      else .ok (reserveMax - reserveCurrent)

end PoolState

/-! ### Values -/

inductive PoolReserveValueKind
  | reserve0 | reserve1 | maxSwap0 | maxSwap1
  deriving DecidableEq

inductive TokenAmountConversionError
  | nonFiniteF64 (amount : U256)
  | f32Overflow (raw : U256) (decimals : TokenDecimals)
  deriving DecidableEq

inductive PoolReserveProjectionError
  | swapLimit0 (pool : PoolRef) (source : PoolStateError)
  | swapLimit1 (pool : PoolRef) (source : PoolStateError)
  | amountConversion (pool : PoolRef) (token : TokenAddress) (value : PoolReserveValueKind)
      (source : TokenAmountConversionError)
  deriving DecidableEq

/-- The float type, its token amounts and its fee multipliers. -/
class FloatConversion where
  F32 : Type
  u256TokenAmountToF32 : U256 → TokenDecimals → Except TokenAmountConversionError F32
  feeMultiplier : UInt32 → F32

variable [FloatConversion]

def convertPoolAmount (pool : PoolRef) (token : TokenAddress) (value : PoolReserveValueKind)
    (amount : U256) (decimals : TokenDecimals) :
    Except PoolReserveProjectionError FloatConversion.F32 :=
  match FloatConversion.u256TokenAmountToF32 amount decimals with
  | .ok converted => .ok converted
  | .error source => .error (.amountConversion pool token value source)

def poolReserveValues (pool : PoolRef) (poolState : PoolState) (fee : PoolFee)
    (token0 token1 : TokenAddress) (token0Decimals token1Decimals : TokenDecimals) :
    Except PoolReserveProjectionError (VirtualReserveValues FloatConversion.F32) := do
  let reserve0 ← convertPoolAmount pool token0 .reserve0 poolState.virtualReserveX token0Decimals
  let reserve1 ← convertPoolAmount pool token1 .reserve1 poolState.virtualReserveY token1Decimals
  let tickSpacing := fee.tickSpacing
  let limit0 ← (poolState.swapLimitX tickSpacing).mapError (.swapLimit0 pool)
  let maxSwap0 ← convertPoolAmount pool token0 .maxSwap0 limit0 token0Decimals
  let limit1 ← (poolState.swapLimitY tickSpacing).mapError (.swapLimit1 pool)
  let maxSwap1 ← convertPoolAmount pool token1 .maxSwap1 limit1 token1Decimals
  return {
    token0 := reserve0
    token1 := reserve1
    feeMultiplier := FloatConversion.feeMultiplier fee.pips
    maxSwap0
    maxSwap1 }

instance : ReserveProjection where
  F32 := FloatConversion.F32
  PoolReserveProjectionError := ArmchairAnalyst.PoolReserveProjectionError
  poolReserveValues := poolReserveValues

/-- Floats that keep the whole token amount, for samples where it is not scaled. -/
@[reducible] def FloatConversion.whole : FloatConversion where
  F32 := Nat
  u256TokenAmountToF32 raw _ := .ok raw.toNat
  feeMultiplier pips := 1000000 - pips.toNat

end ArmchairAnalyst

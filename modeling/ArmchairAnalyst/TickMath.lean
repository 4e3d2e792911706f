import ArmchairAnalyst.PoolState

/-!
# Tick math

The square root price at a tick, in Q64.96, and the ticks between which the liquidity
of a pool is constant.
-/

namespace ArmchairAnalyst

def maxTick : I24 := ⟨887272, by decide, by decide⟩

def minTick : I24 := ⟨-887272, by decide, by decide⟩

inductive TickMathError
  | sqrtPriceTickOutOfBounds (absTick : U256)
  | tickOutOfBounds (tick : I24)
  | nonPositiveTickSpacing (tickSpacing : UInt16)
  | tickLowMultiplicationOverflow (tick : I24) (tickSpacing : UInt16)
  | tickHighAdditionOverflow (tick : I24) (tickSpacing : UInt16)
  deriving DecidableEq

/-- The bits of a tick above the lowest one, each with its price factor in Q128. -/
def tickFactors : List (Nat × Nat) :=
  [(0x2, 0xfff97272373d413259a46990580e213a),
   (0x4, 0xfff2e50f5f656932ef12357cf3c7fdcc),
   (0x8, 0xffe5caca7e10e4e61c3624eaa0941cd0),
   (0x10, 0xffcb9843d60f6159c9db58835c926644),
   (0x20, 0xff973b41fa98c081472e6896dfb254c0),
   (0x40, 0xff2ea16466c96a3843ec78b326b52861),
   (0x80, 0xfe5dee046a99a2a811c461f1969c3053),
   (0x100, 0xfcbe86c7900a88aedcffc83b479aa3a4),
   (0x200, 0xf987a7253ac413176f2b074cf7815e54),
   (0x400, 0xf3392b0822b70005940c7a398e4b70f3),
   (0x800, 0xe7159475a2c29b7443b29c7fa6e889d9),
   (0x1000, 0xd097f3bdfd2022b8845ad8f792aa5825),
   (0x2000, 0xa9f746462d870fdf8a65dc1f90e061e5),
   (0x4000, 0x70d869a156d2a1b890bb3df62baf32f7),
   (0x8000, 0x31be135f97d08fd981231505542fcfa6),
   (0x10000, 0x09aa508b5b7a84e1c677de54f3e99bc9),
   (0x20000, 0x005d6af8dedb81196699c329225ee604),
   (0x40000, 0x00002216e584f5fa1ea926041bedfe98),
   (0x80000, 0x00000000048a170391f7dc42444e8fa2)]

def sqrtPriceAtTick (tick : I24) : Except TickMathError U160 :=
  -- At `I24::MIN`, which no caller passes, the code's conversion of `-tick` panics; here it
  -- is out of bounds.
  let absTick := tick.value.natAbs
  if maxTick.value.natAbs < absTick then
    .error (.sqrtPriceTickOutOfBounds (BitVec.ofNat 256 absTick))
  else
    let lowest : Nat := if absTick &&& 0x1 ≠ 0 then 0xfffcb933bd6fad37aa2d162d1a594001 else 2 ^ 128
    let ratio := tickFactors.foldl
      (fun ratio (bit, factor) => if absTick &&& bit ≠ 0 then ratio * factor / 2 ^ 128 else ratio)
      lowest
    let ratio := if 0 < tick.value then (2 ^ 256 - 1) / ratio else ratio
    .ok (BitVec.ofNat 160 (ratio / 2 ^ 32 + if ratio % 2 ^ 32 = 0 then 0 else 1))

/-- The lower end of the spacing that a tick lies in. -/
def tickLow (tick : I24) (tickSpacing : UInt16) : Except TickMathError I24 :=
  if tick < minTick ∨ maxTick < tick then .error (.tickOutOfBounds tick)
  else if tickSpacing = 0 then .error (.nonPositiveTickSpacing tickSpacing)
  else
    match I24.tryFrom (tick.value / tickSpacing.toNat * tickSpacing.toNat) with
    | none => .error (.tickLowMultiplicationOverflow tick tickSpacing)
    | some low => .ok (if low < minTick then minTick else low)

def tickHigh (tick : I24) (tickSpacing : UInt16) : Except TickMathError I24 :=
  match tickLow tick tickSpacing with
  | .error error => .error error
  | .ok low =>
    match I24.tryFrom (low.value + tickSpacing.toNat) with
    | none => .error (.tickHighAdditionOverflow tick tickSpacing)
    | some high => .ok (if maxTick < high then maxTick else high)

end ArmchairAnalyst

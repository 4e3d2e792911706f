import ArmchairAnalyst.Kernel.TokenRegistry
import ArmchairAnalyst.Kernel.PoolRegistry

/-!
# Pool reserves

The optimizer's view of a pool in one trading direction. Its values are single
precision floats, whose arithmetic is a parameter.
-/

namespace ArmchairAnalyst

structure VirtualReserveValues (F : Type) where
  token0 : F
  token1 : F
  feeMultiplier : F
  maxSwap0 : F
  maxSwap1 : F
  deriving DecidableEq

structure PoolReserves (T I F : Type) where
  token0 : T
  token1 : T
  poolId : I
  value : VirtualReserveValues F
  deriving DecidableEq

/-- The other direction of the same pool. -/
def VirtualReserveValues.inverse {F : Type} (value : VirtualReserveValues F) :
    VirtualReserveValues F where
  token0 := value.token1
  token1 := value.token0
  feeMultiplier := value.feeMultiplier
  maxSwap0 := value.maxSwap1
  maxSwap1 := value.maxSwap0

def PoolReserves.inverse {T I F : Type} (reserves : PoolReserves T I F) :
    PoolReserves T I F where
  token0 := reserves.token1
  token1 := reserves.token0
  poolId := reserves.poolId
  value := reserves.value.inverse

@[simp] theorem VirtualReserveValues.inverse_inverse {F : Type} (value : VirtualReserveValues F) :
    value.inverse.inverse = value := rfl

@[simp] theorem PoolReserves.inverse_inverse {T I F : Type} (reserves : PoolReserves T I F) :
    reserves.inverse.inverse = reserves := rfl

/-- The float type with the projection of one pool state onto it. -/
class ReserveProjection where
  F32 : Type
  PoolReserveProjectionError : Type
  poolReserveValues : PoolRef → PoolState → PoolFee → TokenAddress → TokenAddress →
    TokenDecimals → TokenDecimals →
    Except PoolReserveProjectionError (VirtualReserveValues F32)

/-- A projection for samples without pools, where no value is ever converted. -/
@[reducible] def ReserveProjection.unavailable : ReserveProjection where
  F32 := Unit
  PoolReserveProjectionError := Unit
  poolReserveValues _ _ _ _ _ _ _ := .error ()

/-- A projection for samples whose amounts convert and are not looked at. -/
@[reducible] def ReserveProjection.convertible : ReserveProjection where
  F32 := Unit
  PoolReserveProjectionError := Unit
  poolReserveValues _ _ _ _ _ _ _ := .ok ⟨(), (), (), (), ()⟩

end ArmchairAnalyst

import ArmchairAnalyst.RequestTracking

/-!
# The ledger of fetches

At most one fetch of each kind is outstanding. It is issued again when it has been
outstanding for too long, and only the answer with the recorded id is accepted.
-/

namespace ArmchairAnalyst.ClientCore

def fetchTtlTicks : UInt64 := 10

inductive FetchKind
  | poolsMeta | health | slice
  deriving DecidableEq, Repr

structure FetchId where
  value : UInt64
  deriving DecidableEq, Repr

structure Slot where
  id : FetchId
  dispatchedAt : UInt64
  deriving DecidableEq

structure PendingFetches where
  nextId : UInt64
  now : UInt64
  poolsMeta : Option Slot
  slice : Option Slot
  health : Option Slot
  deriving DecidableEq

namespace PendingFetches

def new : PendingFetches := ⟨0, 0, none, none, none⟩

def advance (pending : PendingFetches) : PendingFetches :=
  { pending with now := pending.now + 1 }

def slot (pending : PendingFetches) : FetchKind → Option Slot
  | .poolsMeta => pending.poolsMeta
  | .health => pending.health
  | .slice => pending.slice

def setSlot (pending : PendingFetches) (kind : FetchKind) (slot : Option Slot) :
    PendingFetches :=
  match kind with
  | .poolsMeta => { pending with poolsMeta := slot }
  | .health => { pending with health := slot }
  | .slice => { pending with slice := slot }

def isFresh (pending : PendingFetches) (kind : FetchKind) : Bool :=
  match pending.slot kind with
  | some slot => pending.now - slot.dispatchedAt < fetchTtlTicks
  | none => false

/-- Issues a fetch when none of its kind is outstanding, or the outstanding one has expired. -/
def ensure (pending : PendingFetches) (kind : FetchKind) : Option FetchId × PendingFetches :=
  if pending.isFresh kind then (none, pending)
  else
    let id : FetchId := ⟨pending.nextId⟩
    let issued := { pending with nextId := pending.nextId + 1 }
    (some id, issued.setSlot kind (some { id, dispatchedAt := pending.now }))

def holds (pending : PendingFetches) (kind : FetchKind) (id : FetchId) : Bool :=
  match pending.slot kind with
  | some slot => slot.id = id
  | none => false

/-- Frees the slot of a fetch when it still holds the answered id. -/
def accept (pending : PendingFetches) (kind : FetchKind) (id : FetchId) :
    Bool × PendingFetches :=
  if pending.holds kind id then (true, pending.setSlot kind none) else (false, pending)

/-! ### Slots -/

@[simp] theorem slot_setSlot (pending : PendingFetches) (kind other : FetchKind)
    (slot : Option Slot) :
    (pending.setSlot kind slot).slot other = if other = kind then slot else pending.slot other := by
  cases kind <;> cases other <;> rfl

@[simp] theorem now_setSlot (pending : PendingFetches) (kind : FetchKind) (slot : Option Slot) :
    (pending.setSlot kind slot).now = pending.now := by
  cases kind <;> rfl

@[simp] theorem nextId_setSlot (pending : PendingFetches) (kind : FetchKind)
    (slot : Option Slot) : (pending.setSlot kind slot).nextId = pending.nextId := by
  cases kind <;> rfl

@[simp] theorem slot_advance (pending : PendingFetches) (kind : FetchKind) :
    pending.advance.slot kind = pending.slot kind := by
  cases kind <;> rfl

/-- What an attempt to issue a fetch does to the ledger. -/
inductive Ensured (pending : PendingFetches) (kind : FetchKind) :
    Option FetchId × PendingFetches → Prop
  | gated : pending.isFresh kind = true → Ensured pending kind (none, pending)
  | issued (next : PendingFetches) : pending.isFresh kind = false →
      next.nextId = pending.nextId + 1 → next.now = pending.now →
      (∀ other, next.slot other =
        if other = kind then some ⟨⟨pending.nextId⟩, pending.now⟩ else pending.slot other) →
      Ensured pending kind (some ⟨pending.nextId⟩, next)

theorem ensure_ensured (pending : PendingFetches) (kind : FetchKind) :
    Ensured pending kind (pending.ensure kind) := by
  unfold ensure
  cases fresh : pending.isFresh kind with
  | true => exact .gated fresh
  | false =>
    refine .issued _ fresh (by simp) (by simp) ?_
    intro other
    rw [slot_setSlot]
    rfl

end PendingFetches

end ArmchairAnalyst.ClientCore

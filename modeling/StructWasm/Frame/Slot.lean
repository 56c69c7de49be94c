import StructWasm.Frame.Error

/-!
# Slots and checkpoints of a frame

A slot is a value that lives in the frame of a function. A checkpoint stands for
a branch of the function that is open, with the slots that belong to it and the
record of what happened in it.
-/

namespace StructWasm.Frame

/-- A value that lives in the frame. -/
structure Slot where
  size : Nat
  alignment : Nat
  offset : Option Nat
  inUse : Bool
  aliasOf : Option SlotId
  owner : CheckpointId
  deriving DecidableEq, Repr

namespace Slot

def absent : Slot :=
  { size := 0, alignment := 1, offset := none, inUse := false, aliasOf := none,
    owner := 0 }

def retire (slot : Slot) : Slot :=
  { slot with inUse := false }

/-- A slot after the class of `source` has been joined to that of `target`. -/
def redirect (source target : SlotId) (slot : Slot) : Slot :=
  if slot.aliasOf = some source then { slot with aliasOf := some target } else slot

end Slot

/-- What a caller holds of a slot. -/
structure Allocation where
  id : SlotId
  size : Nat
  alignment : Nat
  deriving DecidableEq, Repr

/-- What is recorded of a slot. -/
inductive Event where
  | allocate (slot : SlotId)
  | free (slot : SlotId)
  deriving DecidableEq, Repr

/-- A branch that is open. -/
structure Checkpoint where
  id : CheckpointId
  events : List Event
  locals : List SlotId
  promoted : List SlotId
  rewinds : Nat
  deriving DecidableEq, Repr

def Checkpoint.fresh (id : CheckpointId) : Checkpoint :=
  { id, events := [], locals := [], promoted := [], rewinds := 0 }

def Checkpoint.without (checkpoint : Checkpoint) (owner : CheckpointId) (id : SlotId) :
    Checkpoint :=
  if checkpoint.id = owner then
    { checkpoint with locals := checkpoint.locals.erase id }
  else
    checkpoint

end StructWasm.Frame

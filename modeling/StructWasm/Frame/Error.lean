import StructWasm.Decimal

/-!
# Faults of the frame allocator

The allocator refuses calls that would break its bookkeeping. Every refusal has
a cause, and every cause a message.
-/

namespace StructWasm.Frame

/-- Number of a slot, in the order of allocation. -/
abbrev SlotId := Nat

/-- Number of a checkpoint, in the order of creation. The root has number zero. -/
abbrev CheckpointId := Nat

def slotName (id : SlotId) : String :=
  "alloc#" ++ Decimal.natText id

def checkpointName (id : CheckpointId) : String :=
  "checkpoint#" ++ Decimal.natText id

/-- Why a slot owns no bytes. -/
inductive NoBytes where
  | aliased
  | zeroSized
  deriving DecidableEq, Repr

def NoBytes.text : NoBytes → String
  | aliased => "is aliased"
  | zeroSized => "is zero-sized"

/-- Why the allocator refuses a call. -/
inductive Error where
  | doubleFree (slot : SlotId)
  | strictFree (slot : SlotId) (reason : NoBytes)
  | restoreWithoutRewind (checkpoint : CheckpointId)
  | unresolvedBranchSlot (checkpoint : CheckpointId) (slot : SlotId)
  | notActive (checkpoint : CheckpointId)
  | rootCheckpoint
  | aliasSizeMismatch (slot : SlotId) (size : Nat) (root : SlotId) (rootSize : Nat)
  | aliasCycle (slot : SlotId)
  | alreadyAliased (slot : SlotId)
  | invalidAlignment (alignment : Nat)
  | frameTooLarge
  | alreadyResolved
  deriving DecidableEq, Repr

def Error.message : Error → String
  | doubleFree slot => slotName slot ++ " freed twice"
  | strictFree slot reason =>
    slotName slot ++ " freed under strict policy but it " ++ reason.text
  | restoreWithoutRewind checkpoint =>
    checkpointName checkpoint ++ " restored without a prior successful rewind"
  | unresolvedBranchSlot checkpoint slot =>
    "branching allocations not resolved by prior aliasing: " ++ slotName slot ++
      " in " ++ checkpointName checkpoint
  | notActive checkpoint => checkpointName checkpoint ++ " is not the active checkpoint"
  | rootCheckpoint => "the root checkpoint cannot be rewound, restored or discarded"
  | aliasSizeMismatch slot size root rootSize =>
    "cannot alias " ++ slotName slot ++ " (" ++ Decimal.natText size ++
      " bytes) onto " ++ slotName root ++ " (" ++ Decimal.natText rootSize ++ " bytes)"
  | aliasCycle slot => "aliasing " ++ slotName slot ++ " would create a cycle"
  | alreadyAliased slot => slotName slot ++ " is already an alias"
  | invalidAlignment alignment =>
    "alignment " ++ Decimal.natText alignment ++ " is not a power of two"
  | frameTooLarge => "stack frame exceeds the addressable range"
  | alreadyResolved => "stack frame is already resolved"

end StructWasm.Frame

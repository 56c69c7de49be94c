import StructWasm.Config
import StructWasm.Frame.Slot

/-!
# Frame allocator

The structure values of a function live in slots of its frame. Where a slot
stands cannot be decided while code is emitted in order, since a value made in
one arm of a branch may have to land in the slot that another arm fills. So
emission only records which slots come and go, under a stack of checkpoints, one
for each branch that is open; the frame is laid out afterwards by replaying the
record.

When a branch is left, its record joins that of the checkpoint around it; when
it is discarded, only the slots that an earlier arm handed over are kept. A slot
can be made an alias of another one of the same size, whose bytes it then
shares. All slots of such a class point to the one slot that owns the bytes.
-/

namespace StructWasm.Frame

/-- Slots and open checkpoints of the frame of one function. -/
structure Allocator where
  slots : Array Slot
  active : Checkpoint
  enclosing : List Checkpoint
  checkpointCount : Nat
  policy : FreePolicy
  frameAlignment : Nat
  frameSize : Option Nat
  resolved : Bool
  deriving DecidableEq, Repr

namespace Allocator

/-- The allocator of an empty frame. An alignment of zero counts as one. -/
def new (policy : FreePolicy) (frameAlignment : Nat) : Allocator :=
  { slots := #[]
    active := .fresh 0
    enclosing := []
    checkpointCount := 1
    policy
    frameAlignment := max frameAlignment 1
    frameSize := none
    resolved := false }

def slot (frame : Allocator) (id : SlotId) : Slot :=
  frame.slots.getD id .absent

def modifySlot (frame : Allocator) (id : SlotId) (change : Slot → Slot) : Allocator :=
  { frame with slots := frame.slots.modify id change }

def isAliased (frame : Allocator) (id : SlotId) : Bool :=
  (frame.slot id).aliasOf.isSome

/-- The slot whose bytes a slot occupies: itself, unless it is an alias. -/
def root (frame : Allocator) (id : SlotId) : SlotId :=
  (frame.slot id).aliasOf.getD id

def ownsBytes (frame : Allocator) (id : SlotId) : Bool :=
  !frame.isAliased id && (frame.slot id).inUse

def ensureOpen (frame : Allocator) : Except Error Unit :=
  if frame.resolved then .error .alreadyResolved else .ok ()

/-- The checkpoint around the active one, which has to be the one named. -/
def parentOf (frame : Allocator) (id : CheckpointId) :
    Except Error (Checkpoint × List Checkpoint) :=
  if frame.active.id = id then
    match frame.enclosing with
    | [] => .error .rootCheckpoint
    | parent :: outer => .ok (parent, outer)
  else
    .error (.notActive id)

def record (frame : Allocator) (event : Event) : Allocator :=
  { frame with
    active := { frame.active with events := frame.active.events ++ [event] } }

def retire (frame : Allocator) (id : SlotId) : Allocator :=
  let owner := (frame.slot id).owner
  { frame.modifySlot id Slot.retire with
    active := frame.active.without owner id
    enclosing := frame.enclosing.map fun checkpoint => checkpoint.without owner id }

def allocate (frame : Allocator) (size alignment : Nat) :
    Except Error (Allocator × Allocation) := do
  frame.ensureOpen
  if alignment.isPowerOfTwo then
    let id := frame.slots.size
    let slot : Slot :=
      { size, alignment, offset := none, inUse := true, aliasOf := none,
        owner := frame.active.id }
    let next := { frame with slots := frame.slots.push slot }.record (.allocate id)
    return ({ next with
      active := { next.active with locals := next.active.locals ++ [id] } },
      { id, size, alignment })
  else
    throw (.invalidAlignment alignment)

def noBytes? (frame : Allocator) (id : SlotId) : Option NoBytes :=
  if frame.isAliased id then
    some .aliased
  else if (frame.slot id).size = 0 then
    some .zeroSized
  else
    none

def free (frame : Allocator) (id : SlotId) : Except Error Allocator := do
  frame.ensureOpen
  match frame.noBytes? id with
  | some reason =>
    match frame.policy with
    | .strict => throw (.strictFree id reason)
    | .lenient => return frame.retire id
  | none =>
    if (frame.slot id).inUse then
      return (frame.retire id).record (.free id)
    else
      throw (.doubleFree id)

def checkpoint (frame : Allocator) : Except Error (Allocator × CheckpointId) := do
  frame.ensureOpen
  let id := frame.checkpointCount
  return ({ frame with
    active := .fresh id
    enclosing := frame.active :: frame.enclosing
    checkpointCount := id + 1 }, id)

/-- Finish an arm of the active branch. The first arm hands the slots it leaves
to the checkpoint around the branch. A later arm may only leave aliases. -/
def rewind (frame : Allocator) (id : CheckpointId) : Except Error Allocator := do
  frame.ensureOpen
  let (parent, outer) ← frame.parentOf id
  let left := frame.active.locals.filter frame.ownsBytes
  let finished := { frame.active with locals := [], rewinds := frame.active.rewinds + 1 }
  if frame.active.rewinds = 0 then
    let adopted := left.foldl
      (fun frame id => frame.modifySlot id fun slot => { slot with owner := parent.id })
      frame
    return { adopted with
      active := { finished with promoted := left }
      enclosing := { parent with locals := parent.locals ++ left } :: outer }
  else
    match left with
    | [] => return { frame with active := finished }
    | slot :: _ => throw (.unresolvedBranchSlot id slot)

def restore (frame : Allocator) (id : CheckpointId) : Except Error Allocator := do
  frame.ensureOpen
  let (parent, outer) ← frame.parentOf id
  if frame.active.rewinds = 0 || !frame.active.locals.isEmpty then
    throw (.restoreWithoutRewind id)
  else
    return { frame with
      active := { parent with events := parent.events ++ frame.active.events }
      enclosing := outer }

/-- Abandon the active branch. Of all that it allocated only the slots that its
first arm handed over will be placed. -/
def discard (frame : Allocator) (id : CheckpointId) : Except Error Allocator := do
  frame.ensureOpen
  let (parent, outer) ← frame.parentOf id
  let swept := frame.active.locals.foldl
    (fun frame id => frame.modifySlot id Slot.retire) frame
  return { swept with
    active :=
      { parent with events := parent.events ++ frame.active.promoted.map Event.allocate }
    enclosing := outer }

/-- Let a slot share the bytes of another. The slot that owns the bytes takes on
the greater alignment. -/
def makeAlias (frame : Allocator) (id target : SlotId) : Except Error Allocator := do
  frame.ensureOpen
  if frame.isAliased id then
    throw (.alreadyAliased id)
  let root := frame.root target
  if root = id then
    throw (.aliasCycle id)
  let slot := frame.slot id
  let rootSlot := frame.slot root
  if slot.size ≠ rootSlot.size then
    throw (.aliasSizeMismatch id slot.size root rootSlot.size)
  let redirected := { frame with slots := frame.slots.map (Slot.redirect id root) }
  let raised := redirected.modifySlot root fun owner =>
    { owner with alignment := max owner.alignment slot.alignment }
  return raised.modifySlot id fun slot => { slot with aliasOf := some root }

end Allocator
end StructWasm.Frame

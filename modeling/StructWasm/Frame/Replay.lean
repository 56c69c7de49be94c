import StructWasm.Frame.Allocator
import StructWasm.Frame.FreeList

/-!
# Layout of a frame

The record of a frame is replayed over an empty free list: every slot that owns
bytes gets an address when it is allocated and gives its bytes back when it is
freed. Aliases then take the addresses of the slots whose bytes they share, and
the size of the frame is the high-water mark, rounded up.

The layout is attempted once. If the frame turns out to be too large, the
addresses given so far remain and the frame has no size.
-/

namespace StructWasm.Frame.Allocator

/-- The whole record: that of the root, then those of the open branches. -/
def timeline (frame : Allocator) : List Event :=
  frame.enclosing.reverse.flatMap Checkpoint.events ++ frame.active.events

/-- Replay a record. The slots keep the addresses that they got before a
fault. -/
def replay (slots : Array Slot) (free : FreeList) :
    List Event → Array Slot × Except Error FreeList
  | [] => (slots, .ok free)
  | .allocate id :: rest =>
    let slot := slots.getD id .absent
    if slot.size = 0 || slot.aliasOf.isSome || slot.offset.isSome then
      replay slots free rest
    else
      match free.place slot.size slot.alignment with
      | .error fault => (slots, .error fault)
      | .ok (start, free) =>
        replay (slots.modify id fun slot => { slot with offset := some start })
          free rest
  | .free id :: rest =>
    let slot := slots.getD id .absent
    if slot.size = 0 || slot.aliasOf.isSome then
      replay slots free rest
    else
      match slot.offset with
      | none => replay slots free rest
      | some start => replay slots (free.release start slot.size) rest

def settleAlias (slots : Array Slot) (slot : Slot) : Slot :=
  match slot.aliasOf with
  | none => slot
  | some root => { slot with offset := (slots.getD root .absent).offset }

def resolve (frame : Allocator) : Allocator × Except Error Unit :=
  if frame.resolved then
    (frame, .ok ())
  else
    match replay frame.slots .empty frame.timeline with
    | (slots, .error fault) => ({ frame with slots, resolved := true }, .error fault)
    | (slots, .ok free) =>
      let settled :=
        { frame with slots := slots.map (settleAlias slots), resolved := true }
      match alignUp free.top frame.frameAlignment with
      | .error fault => (settled, .error fault)
      | .ok size => ({ settled with frameSize := some size }, .ok ())

def size (frame : Allocator) : Allocator × Except Error Nat :=
  match frame.resolve with
  | (frame, .error fault) => (frame, .error fault)
  | (frame, .ok ()) =>
    match frame.frameSize with
    | none => (frame, .error .frameTooLarge)
    | some size => (frame, .ok size)

def offset? (frame : Allocator) (id : SlotId) : Option Nat :=
  (frame.slot id).offset

end StructWasm.Frame.Allocator

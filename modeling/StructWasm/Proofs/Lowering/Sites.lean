import StructWasm.Proofs.Layout.Fields
import StructWasm.Proofs.LocalPool.Held
import StructWasm.Proofs.Lowering.StatementTyping

/-!
# Where values lie

Code reaches memory from two kinds of locals. From the frame pointer it reaches the
slots of the frame, and from a parameter that holds an address it reaches a structure of
the caller. Every structure value lies in such an area with all its bytes, and so do its
fields.
-/

namespace StructWasm

open Nat Frame.Allocator

/-- Types of the values that a function is passed: those of its parameters, after the
address for a structure result. -/
def Signature.passed (sig : Signature) : List Ty :=
  match sig.result with
  | none => sig.params
  | some type => if type.isStruct then type :: sig.params else sig.params

namespace Lowering

open Wasm

/-! ## Areas -/

/-- The bytes that code may reach from a local, or from a place of the frame: their
number, and what their first address is a multiple of. -/
inductive Area (ctx : Context) (passed : List Ty) (frame : Frame.Allocator) :
    LocalRef → Option FrameNumber → Nat → Nat → Prop where
  /-- A slot of the frame. -/
  | slot {id : Frame.SlotId} (inside : id < frame.slots.size) :
      Area ctx passed frame ctx.framePointer (some (.slot id)) (frame.slot id).size
        (frame.level id)
  /-- A structure of the caller. -/
  | param {pos : Nat} {type : Ty} (given : passed[pos]? = some type)
      (isStruct : type.isStruct = true) :
      Area ctx passed frame { type := .i32, place := .param pos } none
        (ctx.layouts.size type) (ctx.layouts.alignment type)

/-- Bytes from an offset on that lie in one area, aligned in it. -/
def Room (ctx : Context) (passed : List Ty) (frame : Frame.Allocator) (base : LocalRef)
    (offset : Offset FrameNumber) (size alignment : Nat) : Prop :=
  ∃ total level, Area ctx passed frame base offset.base? total level ∧
    offset.addend + size ≤ total ∧ alignment ∣ offset.addend ∧ alignment ≤ level

/-- An access to memory that stays in one area. -/
def Permits (ctx : Context) (passed : List Ty) (frame : Frame.Allocator) (base : LocalRef)
    (type : ValType) (offset : Offset FrameNumber) : Prop :=
  Room ctx passed frame base offset type.size type.size

/-- All bytes of a value of a type lie in one area from an address on. -/
structure Address.Spans (ctx : Context) (passed : List Ty) (frame : Frame.Allocator)
    (address : Address) (type : Ty) : Prop where
  known : ctx.layouts.Known type
  room : 0 < ctx.layouts.size type → Room ctx passed frame address.base address.offset
    (ctx.layouts.size type) (ctx.layouts.alignment type)

/-- A slot of the frame and its address. -/
structure Stall (ctx : Context) (frame : Frame.Allocator) (slot : Frame.Allocation)
    (address : Address) : Prop where
  address_eq : address = addressOf ctx.framePointer slot
  inside : slot.id < frame.slots.size
  size_eq : (frame.slot slot.id).size = slot.size

/-- A value of a type that has a slot of its own. -/
structure Seat (ctx : Context) (frame : Frame.Allocator) (slot : Frame.Allocation)
    (address : Address) (type : Ty) : Prop extends Stall ctx frame slot address where
  known : ctx.layouts.Known type
  type_size : slot.size = ctx.layouts.size type
  level_le : ctx.layouts.alignment type ≤ frame.level slot.id

variable {ctx : Context} {passed : List Ty} {frame after : Frame.Allocator}
variable {address : Address} {type : Ty} {slot : Frame.Allocation}

variable {base : LocalRef} {offset : Offset FrameNumber} {size alignment : Nat}
variable {name : String} {held : StructValue}

section

variable (room : Room ctx passed frame base offset size alignment)
include room

theorem Room.mono (onward : frame.Onward after) :
    Room ctx passed after base offset size alignment := by
  obtain ⟨total, level, area, fits, multiple, aligned⟩ := room
  generalize place_eq : offset.base? = place at area
  cases area with
  | slot inside =>
    refine ⟨_, _, place_eq ▸ Area.slot (lt_of_lt_of_le inside onward.size_le), ?_, multiple, ?_⟩
    · rw [onward.size_eq _ inside]
      exact fits
    · exact le_trans aligned (onward.level_le _ inside)
  | param given isStruct =>
    exact ⟨_, _, place_eq ▸ Area.param given isStruct, fits, multiple, aligned⟩

theorem Room.plus {bytes inner innerAlignment} (positive : 0 < alignment)
    (added : offset.plus bytes = .ok further) (within : bytes + inner ≤ size)
    (multiple : innerAlignment ∣ bytes) (divides : innerAlignment ∣ alignment) :
    Room ctx passed frame base further inner innerAlignment := by
  obtain ⟨total, level, area, fits, aligned, le⟩ := room
  obtain ⟨addend, summed, added⟩ := bind_eq_ok.mp added
  obtain rfl := pure_eq_ok.mp added
  unfold Offset.checkedSum at summed
  split at summed
  · injection summed with summed
    subst summed
    refine ⟨total, level, area, ?_, dvd_add (divides.trans aligned) multiple, ?_⟩
    · change offset.addend + bytes + inner ≤ total
      omega
    · exact le_trans (le_of_dvd positive divides) le
  · cases summed

end

theorem Address.Spans.mono (spans : address.Spans ctx passed frame type)
    (onward : frame.Onward after) : address.Spans ctx passed after type :=
  ⟨spans.known, fun positive => (spans.room positive).mono onward⟩

theorem Stall.mono (stall : Stall ctx frame slot address) (onward : frame.Onward after) :
    Stall ctx after slot address :=
  ⟨stall.address_eq, lt_of_lt_of_le stall.inside onward.size_le,
    (onward.size_eq _ stall.inside).trans stall.size_eq⟩

theorem Seat.mono (seat : Seat ctx frame slot address type) (onward : frame.Onward after) :
    Seat ctx after slot address type :=
  { seat.toStall.mono onward with
    known := seat.known
    type_size := seat.type_size
    level_le := le_trans seat.level_le (onward.level_le _ seat.inside) }

theorem Seat.spans (seat : Seat ctx frame slot address type) :
    address.Spans ctx passed frame type := by
  refine ⟨seat.known, fun positive => ?_⟩
  rw [← seat.type_size] at positive
  obtain rfl := seat.address_eq
  have offset_eq : (addressOf ctx.framePointer slot).offset = .ofBase (.slot slot.id) :=
    if_neg (ne_of_gt positive)
  rw [offset_eq]
  refine ⟨_, _, .slot seat.inside, ?_, dvd_zero _, seat.level_le⟩
  rw [seat.size_eq, seat.type_size]
  exact le_of_eq (zero_add _)

/-! ## Parts of values -/

theorem Address.Spans.advance (built : ctx.layouts.Built)
    (spans : address.Spans ctx passed frame type) {field}
    (found : ctx.layouts.field? type name = some field) {further}
    (advanced : address.advance field.offset = .ok further) :
    further.Spans ctx passed frame field.type := by
  have lies := built.lies_of_field? found
  obtain ⟨offset, added, advanced⟩ := bind_eq_ok.mp advanced
  obtain rfl := pure_eq_ok.mp advanced
  refine ⟨lies.known, fun positive => ?_⟩
  have outer := spans.room (lt_of_lt_of_le positive (le_of_add_left_le lies.within))
  exact outer.plus (pos_of_isPowerOfTwo (built.aligned type)) added lies.within lies.multiple
    lies.aligned

theorem Address.Spans.leaf (built : ctx.layouts.Built)
    (spans : address.Spans ctx passed frame type) {leaf} (mem : leaf ∈ ctx.layouts.leaves type)
    (added : address.offset.plus leaf.1 = .ok further) :
    Permits ctx passed frame address.base leaf.2 further := by
  obtain ⟨bytes, bytes_eq, within, multiple, divides⟩ := built.leafLies spans.known 0 leaf mem
  obtain rfl : leaf.1 = bytes := bytes_eq.trans (zero_add _)
  have sized : 0 < leaf.2.size := by cases leaf.2 <;> decide
  exact (spans.room (by omega)).plus (pos_of_isPowerOfTwo (built.aligned type)) added within
    multiple divides

theorem Address.Spans.permits (spans : address.Spans ctx passed frame type)
    (primitive : ¬type.isStruct = true) :
    Permits ctx passed frame address.base type.valType address.offset := by
  cases type with
  | struct name => exact absurd rfl primitive
  | i32 => exact spans.room (show 0 < 4 by decide)
  | i64 => exact spans.room (show 0 < 8 by decide)
  | f32 => exact spans.room (show 0 < 4 by decide)
  | f64 => exact spans.room (show 0 < 8 by decide)
  | bool => exact spans.room (show 0 < 4 by decide)

/-! ## Values and names -/

/-- A structure value lies in its slot, or somewhere inside an area. -/
def StructValue.Sited (ctx : Context) (passed : List Ty) (frame : Frame.Allocator)
    (held : StructValue) : Prop :=
  match held.source with
  | .temporary slot => Seat ctx frame slot held.address held.type
  | .variable _ => held.address.Spans ctx passed frame held.type

/-- A structure lies somewhere inside an area. -/
def Value.Sited (ctx : Context) (passed : List Ty) (frame : Frame.Allocator) : Value → Prop
  | .struct held => held.Sited ctx passed frame
  | _ => True

/-- A structure variable lies in its slot, or in an area; a primitive one is in a local
other than the frame pointer. -/
def Binding.Sited (ctx : Context) (passed : List Ty) (frame : Frame.Allocator) :
    Binding → Prop
  | .scalar _ place => place ≠ ctx.framePointer
  | .struct entry =>
    match entry.slot? with
    | some slot => Seat ctx frame slot entry.address entry.type
    | none => entry.address.Spans ctx passed frame entry.type

/-- All names stand for things that have their places. -/
def ScopesSited (ctx : Context) (passed : List Ty) (frame : Frame.Allocator)
    (scopes : List Scope) : Prop :=
  AllBindings (Binding.Sited ctx passed frame) scopes

theorem StructValue.Sited.spans (sited : held.Sited ctx passed frame) :
    held.address.Spans ctx passed frame held.type := by
  unfold StructValue.Sited at sited
  split at sited
  · exact sited.spans
  · exact sited

theorem StructValue.Sited.mono (sited : held.Sited ctx passed frame)
    (onward : frame.Onward after) : held.Sited ctx passed after := by
  unfold StructValue.Sited at sited ⊢
  split at sited
  · exact sited.mono onward
  · exact sited.mono onward

theorem Value.Sited.mono {value : Value} (sited : value.Sited ctx passed frame)
    (onward : frame.Onward after) : value.Sited ctx passed after := by
  cases value with
  | struct held => exact StructValue.Sited.mono sited onward
  | scalar type => trivial
  | nothing => trivial
  | never => trivial

variable {scopes : List Scope} {binding : Binding}

theorem Binding.Sited.mono (sited : binding.Sited ctx passed frame)
    (onward : frame.Onward after) : binding.Sited ctx passed after := by
  cases binding with
  | scalar type place => exact sited
  | struct entry =>
    unfold Binding.Sited at sited ⊢
    dsimp only at sited ⊢
    split at sited
    · exact sited.mono onward
    · exact sited.mono onward

theorem Binding.Sited.spans (sited : Binding.Sited ctx passed frame (.struct entry)) :
    entry.address.Spans ctx passed frame entry.type := by
  unfold Binding.Sited at sited
  dsimp only at sited
  split at sited
  · exact sited.spans
  · exact sited

theorem Binding.Sited.of_same {related : Ownership.NodeId → Ownership.NodeId → Prop}
    (sited : binding.Sited ctx passed frame) (same : SameBinding related binding other) :
    other.Sited ctx passed frame := by
  cases same with
  | scalar type place => exact sited
  | struct entry node _ => exact sited

theorem ScopesSited.mono (sited : ScopesSited ctx passed frame scopes)
    (onward : frame.Onward after) : ScopesSited ctx passed after scopes :=
  sited.imp fun _ sited => sited.mono onward

/-! ## States -/

variable {work next : Workspace}

/-- What lowering relies on to put values in their places: the frame is proper, the
frame pointer is handed out, and all names stand for things that have their places. -/
structure Sited (ctx : Context) (passed : List Ty) (work : Workspace) : Prop where
  proper : work.frame.Proper
  ordered : work.locals.InOrder
  held : work.locals.Holds ctx.framePointer
  scopes : ScopesSited ctx passed work.frame work.scopes

/-- More locals and requests, and a frame that goes on. -/
structure Later (work next : Workspace) : Prop where
  grows : Grows work next
  onward : work.frame.Onward next.frame

theorem Later.refl (proper : work.frame.Proper) : Later work work :=
  ⟨.refl work, .refl proper⟩

theorem Later.trans (first : Later work mid) (second : Later mid next) : Later work next :=
  ⟨first.grows.trans second.grows, first.onward.trans second.onward⟩

theorem Calm.later (calm : Calm work next) (proper : work.frame.Proper) : Later work next :=
  ⟨calm.grows, calm.onward proper⟩

section

variable (sited : Sited ctx passed work)
include sited

theorem Sited.calm (calm : Calm work next) : Sited ctx passed next where
  proper := (calm.later sited.proper).onward.proper
  ordered := calm.locals_eq ▸ sited.ordered
  held := calm.locals_eq ▸ sited.held
  scopes := by
    rw [calm.scopes_eq]
    exact sited.scopes.mono (calm.later sited.proper).onward

theorem Sited.withScopes (scopesSited : ScopesSited ctx passed work.frame scopes)
    (arena : Ownership.Arena) : Sited ctx passed { work with scopes, arena } :=
  ⟨sited.proper, sited.ordered, sited.held, scopesSited⟩

theorem Sited.withFrame (onward : work.frame.Onward frame) : Sited ctx passed { work with frame } :=
  ⟨onward.proper, sited.ordered, sited.held, sited.scopes.mono onward⟩

end

/-! ## New slots -/

section

variable (runs : Runs (allocateStruct type) ctx work (slot, address) next)
include runs

theorem stall_of_allocateStruct :
    Stall ctx next.frame slot address ∧ slot.size = ctx.layouts.size type ∧
      next.frame.level slot.id = ctx.layouts.alignment type := by
  obtain ⟨frame, alloc, rfl, rfl⟩ := runs_allocateStruct.mp runs
  obtain ⟨-, -, rfl, rfl⟩ := allocate_ok alloc
  have slot_eq := (slot_push work.frame
    { size := ctx.layouts.size type, alignment := ctx.layouts.alignment type, offset := none,
      inUse := true, aliasOf := none, owner := work.frame.active.id } work.frame.slots.size).trans
    (if_pos rfl)
  refine ⟨⟨rfl, by simp, congrArg Frame.Slot.size slot_eq⟩, rfl, ?_⟩
  have root_eq := congrArg (fun slot => Option.getD (Frame.Slot.aliasOf slot) work.frame.slots.size)
    slot_eq
  exact (congrArg (fun id => Frame.Slot.alignment (slot _ id)) root_eq).trans
    (congrArg Frame.Slot.alignment slot_eq)

theorem seat_of_allocateStruct (known : ctx.layouts.Known type) :
    Seat ctx next.frame slot address type := by
  obtain ⟨stall, size_eq, level_eq⟩ := stall_of_allocateStruct runs
  exact { stall with known, type_size := size_eq, level_le := le_of_eq level_eq.symm }

end

end Lowering
end StructWasm

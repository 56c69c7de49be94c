import StructWasm.Frame.Allocator
import StructWasm.LocalPool
import StructWasm.Wasm.Instr

/-!
# Code of a function

While a function is lowered its locals, the slots of its frame and the functions
it calls have no numbers yet. Its code refers to them by name.

At run time the frame of a function lies below the stack pointer of its caller.
One local of the function, the frame pointer, holds the address of the frame.
-/

namespace StructWasm.Lowering

/-- A number that is known once the frame of a function is laid out. -/
inductive FrameNumber where
  | slot (id : Frame.SlotId)
  | size
  deriving DecidableEq, Repr

/-- A global that code refers to. -/
inductive GlobalName where
  | stackPointer
  deriving DecidableEq, Repr

/-- What the code of a function refers to: locals of its pool, functions by their
names in the program, and numbers of its frame. -/
abbrev codeRefs : Wasm.Refs :=
  { localVar := LocalRef
    globalVar := GlobalName
    function := String
    base := FrameNumber }

abbrev Code := List (Wasm.Instr codeRefs)

/-- A place in memory: the value of a local and an offset. -/
structure Address where
  base : LocalRef
  offset : Wasm.Offset FrameNumber
  deriving DecidableEq, Repr

namespace Address

def advance (address : Address) (bytes : Nat) : Except Fault Address := do
  let offset ← address.offset.plus bytes
  return { address with offset }

def push (address : Address) : Code :=
  [.localGet address.base, .offsetConst address.offset, .numeric .i32Add]

def load (address : Address) (type : Wasm.ValType) : Code :=
  [.localGet address.base, .load type (.natural type address.offset)]

end Address

/-- Code that enters a function: the stack pointer goes down by the size of the
frame, and the frame pointer takes its value. -/
def prologue (framePointer : LocalRef) : Code :=
  [.globalGet .stackPointer, .offsetConst (.ofBase .size), .numeric .i32Sub,
    .localTee framePointer, .globalSet .stackPointer]

/-- Code that leaves a function: the stack pointer gets back its value. -/
def epilogue (framePointer : LocalRef) : Code :=
  [.localGet framePointer, .offsetConst (.ofBase .size), .numeric .i32Add,
    .globalSet .stackPointer]

end StructWasm.Lowering

import StructWasm.Lowering.Function
import StructWasm.Wasm.Module

/-!
# The module before its functions

Every module has one memory, whose first bytes are the stack, and a global that
holds the stack pointer. The stack grows downwards from its top.
-/

namespace StructWasm.Compile

def memoryName : String := "memory"

def stackPointerName : String := "__stack_pointer"

def stackStart (config : Config) : Except Fault Int32 :=
  let top := config.stackTop.toNat
  if config.memoryPages.toNat * pageSize < top then
    .error (.limit (.stackInMemory config.stackSize.toNat config.memoryPages.toNat))
  else if top < 0x80000000 then
    .ok (Int32.ofNat top)
  else
    .error (.limit .stackTop)

/-- A module with its memory and its stack pointer, which is the first global. -/
def newModule (config : Config) : Except Fault (Wasm.Module Lowering.Body) := do
  let top ← stackStart config
  let mod ← (Wasm.Module.empty config.sourceMap).addMemory config.memoryPages.toNat
    (config.maxMemoryPages.map UInt32.toNat)
  let mod ← if config.exportMemory then mod.addExport memoryName .memory else pure mod
  let (mod, position) ← mod.addGlobal .i32 true (.i32 top)
  let mod ← mod.addExport stackPointerName (.global position)
  return mod.attachSourceMap (.empty config.sourceName)

end StructWasm.Compile

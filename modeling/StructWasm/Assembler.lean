import StructWasm.LocalPool
import StructWasm.Wasm.Binary

/-!
# Assembling a module by hand

An assembler holds a module, pools of locals and deferred numbers, and code that
refers to them. Functions, globals and the memory are numbered when the binary
is written, also if that fails later on.
-/

namespace StructWasm

/-- A local of one of the pools of an assembler. -/
structure PoolLocal where
  pool : Nat
  ref : LocalRef
  deriving DecidableEq, Repr

abbrev assemblyRefs : Wasm.Refs :=
  { localVar := PoolLocal
    globalVar := Nat
    function := Wasm.FunctionRef
    base := Nat }

/-- A module that is put together by hand. -/
structure Assembler where
  mod : Wasm.Module (Wasm.FunctionBody assemblyRefs)
  indices : Wasm.IndexCells
  pools : Array LocalPool
  cells : Array Deferred

namespace Assembler

def new (embedSourceMap : Bool) : Assembler :=
  { mod := .empty embedSourceMap
    indices := []
    pools := #[.new []]
    cells := #[] }

/-! ## Locals -/

def pool (session : Assembler) (number : Nat) : LocalPool :=
  session.pools.getD number (.new [])

def currentPool (session : Assembler) : Nat :=
  session.pools.size - 1

def setPool (session : Assembler) (pool : LocalPool) : Assembler :=
  { session with pools := session.pools.setIfInBounds session.currentPool pool }

def newPool (session : Assembler) (params : List Wasm.ValType) : Assembler :=
  { session with pools := session.pools.push (.new params) }

def param? (session : Assembler) (position : Nat) : Option PoolLocal :=
  ((session.pool session.currentPool).param? position).map fun ref =>
    { pool := session.currentPool, ref }

def newLocal (session : Assembler) (type : Wasm.ValType) :
    Except Fault (Assembler × PoolLocal) := do
  let (pool, ref) ← (session.pool session.currentPool).allocate type
  return (session.setPool pool, { pool := session.currentPool, ref })

def freeLocal (session : Assembler) (held : PoolLocal) : Except Fault Assembler := do
  return session.setPool (← (session.pool session.currentPool).free held.ref)

def finishLocals (session : Assembler) :
    Except Fault (Assembler × List (Nat × Wasm.ValType)) := do
  let (pool, groups) ← (session.pool session.currentPool).finish
  return (session.setPool pool, groups)

def localIndex (session : Assembler) (held : PoolLocal) : Deferred :=
  (session.pool held.pool).index held.ref

/-! ## Deferred numbers -/

def cell (session : Assembler) (id : Nat) : Deferred :=
  session.cells.getD id { label := "", value? := none }

def newCell (session : Assembler) (number : Deferred) : Assembler × Nat :=
  ({ session with cells := session.cells.push number }, session.cells.size)

def resolveCell (session : Assembler) (id value : Nat) : Except Fault Assembler := do
  let number ← ((session.cell id).resolve value).mapError Fault.deferred
  return { session with cells := session.cells.setIfInBounds id number }

/-! ## Numbers in code -/

def functionIndex (session : Assembler) (function : Wasm.FunctionRef) : Deferred :=
  session.indices.function function

def globalIndex (session : Assembler) (position : Nat) : Deferred :=
  session.indices.global position

def memoryIndex (session : Assembler) : Deferred :=
  session.indices.memory

def read (number : Deferred) : Except Fault Nat :=
  number.read

def resolver (session : Assembler) : Wasm.Resolver assemblyRefs :=
  { localIndex := fun held => read (session.localIndex held)
    globalIndex := fun position => read (session.globalIndex position)
    functionIndex := fun function => read (session.functionIndex function)
    base := fun id => read (session.cell id) }

def offsetValue (session : Assembler) (offset : Wasm.Offset Nat) : Except Fault Nat :=
  offset.value session.resolver.base

def encode (session : Assembler) (code : List (Wasm.Instr assemblyRefs)) :
    Except Wasm.Interrupted Bytes :=
  Wasm.encodeCode session.resolver code

def binary (session : Assembler) : Assembler × Except Fault Bytes :=
  let session := { session with indices := session.mod.cells }
  (session, session.mod.binary (Wasm.FunctionBody.encode session.resolver))

end Assembler
end StructWasm

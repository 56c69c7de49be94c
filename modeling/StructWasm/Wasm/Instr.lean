import StructWasm.Fault
import StructWasm.Wasm.Constant
import StructWasm.Wasm.NumericOp

/-!
# Instructions

A function body is a list of instructions. Structured instructions hold the
lists inside them, so a branch names a nesting depth. Locals, globals, functions
and places in memory are referred to by names of the writer's choice; the
numbers for them are looked up when the code is encoded.
-/

namespace StructWasm.Wasm

/-- What the code of a function refers to. -/
structure Refs where
  localVar : Type
  globalVar : Type
  function : Type
  base : Type

/-- A number of bytes from a place that may not be known yet. -/
structure Offset (base : Type) where
  base? : Option base
  addend : Nat
  deriving DecidableEq, Repr

namespace Offset

def bound : Nat := 0x100000000

def fixed {base : Type} (addend : Nat) : Offset base :=
  { base? := none, addend }

def ofBase {base : Type} (place : base) : Offset base :=
  { base? := some place, addend := 0 }

def checkedSum (left right : Nat) : Except Fault Nat :=
  if left + right < bound then
    .ok (left + right)
  else
    .error (.limit .memoryOffset)

def plus {base : Type} (offset : Offset base) (bytes : Nat) : Except Fault (Offset base) := do
  let addend ← checkedSum offset.addend bytes
  return { offset with addend }

def value {base : Type} (offset : Offset base) (lookup : base → Except Fault Nat) :
    Except Fault Nat := do
  let start ←
    match offset.base? with
    | none => pure 0
    | some place => lookup place
  checkedSum start offset.addend

end Offset

/-- Where and how memory is accessed. -/
structure MemArg (base : Type) where
  alignExponent : Nat
  offset : Offset base
  deriving DecidableEq, Repr

def MemArg.natural {base : Type} (type : ValType) (offset : Offset base) : MemArg base :=
  { alignExponent := type.alignExponent, offset }

/-- An instruction. -/
inductive Instr (refs : Refs) where
  | block (type : BlockType) (body : List (Instr refs))
  | loop (type : BlockType) (body : List (Instr refs))
  | ifElse (type : BlockType) (thenBody elseBody : List (Instr refs))
  | branch (depth : Nat)
  | branchIf (depth : Nat)
  | leave
  | unreachable
  | nop
  | drop
  | select
  | numeric (op : NumericOp)
  | load (type : ValType) (arg : MemArg refs.base)
  | store (type : ValType) (arg : MemArg refs.base)
  | localGet (name : refs.localVar)
  | localSet (name : refs.localVar)
  | localTee (name : refs.localVar)
  | globalGet (name : refs.globalVar)
  | globalSet (name : refs.globalVar)
  | const (value : Constant)
  | offsetConst (offset : Offset refs.base)
  | call (name : refs.function)

end StructWasm.Wasm

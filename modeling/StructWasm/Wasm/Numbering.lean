import StructWasm.Wasm.Module

/-!
# Indices of references

A reference is handed out before its index exists: imported functions come before all
others in the index space of functions, and imports may be declared late. So every
reference has a cell, which all its copies share. The cells are set when the module is
complete, each of them once, and can be read from then on.
-/

namespace StructWasm.Wasm

/-- What references stand for. -/
inductive Reference where
  | function (handle : FunctionRef)
  | memory
  | global (position : Nat)
  deriving DecidableEq

def Reference.label : Reference → String
  | .function _ => "function index"
  | .memory => "memory index"
  | .global _ => "global index"

/-- The cells of all references that a module hands out: those that are set. -/
abbrev IndexCells := List (Reference × Nat)

namespace IndexCells

/-- The cell of a reference. -/
def cell (cells : IndexCells) (reference : Reference) : Deferred :=
  { label := reference.label, value? := cells.lookup reference }

def function (cells : IndexCells) (handle : FunctionRef) : Deferred :=
  cells.cell (.function handle)

def memory (cells : IndexCells) : Deferred :=
  cells.cell .memory

def global (cells : IndexCells) (position : Nat) : Deferred :=
  cells.cell (.global position)

end IndexCells

/-- Setting cells. Those that are set before a failure stay so. -/
abbrev CellUpdate := EStateM Fault IndexCells

namespace CellUpdate

/-- Set the cell of a reference, unless it is set. -/
def set (reference : Reference) (index : Nat) : CellUpdate Unit := fun cells =>
  match (cells.cell reference).resolve index with
  | .ok _ => .ok () ((reference, index) :: cells)
  | .error cause => .error (.deferred cause) cells

/-- Give functions the indices from the next one on. The number of functions has to fit
in 32 bits. -/
def numberFunctions (next : Nat) : List FunctionRef → CellUpdate Unit
  | [] => pure ()
  | function :: rest => do
    set (.function function) next
    if next + 1 < 0x100000000 then
      numberFunctions (next + 1) rest
    else
      throw (.limit .functionCount)

/-- Give globals their positions as indices. -/
def numberGlobals : List Nat → CellUpdate Unit
  | [] => pure ()
  | position :: rest => do
    if position < 0x100000000 then
      set (.global position) position
      numberGlobals rest
    else
      throw (.limit (.exceeded "global index" position))

end CellUpdate

namespace Module

open CellUpdate

variable {body : Type}

/-- The references to the functions of a module, imported ones first. -/
def references (mod : Module body) : List FunctionRef :=
  (List.range mod.imports.length).map .imported ++
    (List.range mod.functions.length).map .defined

/-- Set the cells of all references. -/
def linearize (mod : Module body) : CellUpdate Unit := do
  numberFunctions 0 mod.references
  if mod.memory?.isSome then
    set .memory 0
  numberGlobals (List.range mod.globals.length)

/-- The cells after they were set. -/
def cells (mod : Module body) : IndexCells :=
  match mod.linearize [] with
  | .ok _ cells => cells
  | .error _ cells => cells

end Module
end StructWasm.Wasm

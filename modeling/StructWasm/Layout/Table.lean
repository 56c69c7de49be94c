import StructWasm.Layout.Ty
import StructWasm.Ownership.Shape

/-!
# Layouts of structures

The fields of a structure stand in memory in the order of their declaration,
each at a multiple of its alignment. The size is rounded up to the greatest
alignment of a field. A structure inside another one is stored in place.
-/

namespace StructWasm

/-- Where a field stands. -/
structure FieldLayout where
  name : String
  type : Ty
  offset : Nat
  deriving DecidableEq, Repr

/-- How a structure stands in memory. -/
structure StructLayout where
  name : String
  size : Nat
  alignment : Nat
  fields : List FieldLayout
  shape : Shape

def StructLayout.field? (layout : StructLayout) (name : String) : Option FieldLayout :=
  layout.fields.find? fun field => field.name == name

/-- The layouts of the structures of a program. -/
structure Layouts where
  structs : List StructLayout

namespace Layouts

def empty : Layouts :=
  { structs := [] }

def get? (layouts : Layouts) (name : String) : Option StructLayout :=
  layouts.structs.find? fun layout => layout.name == name

def ofType? (layouts : Layouts) (type : Ty) : Option StructLayout :=
  type.structName?.bind layouts.get?

def field? (layouts : Layouts) (type : Ty) (name : String) : Option FieldLayout := do
  let layout ← layouts.ofType? type
  layout.field? name

def size (layouts : Layouts) (type : Ty) : Nat :=
  match type with
  | .struct name => ((layouts.get? name).map StructLayout.size).getD 0
  | type => type.valType.size

def alignment (layouts : Layouts) (type : Ty) : Nat :=
  match type with
  | .struct name => ((layouts.get? name).map StructLayout.alignment).getD 1
  | type => type.valType.size

def shape (layouts : Layouts) (type : Ty) : Shape :=
  ((layouts.ofType? type).map StructLayout.shape).getD .leaf

/-- Offsets and types of the primitives in a value that starts at a byte, in
order. The layout of a structure comes before those of the structures inside
it. -/
def leavesIn : List StructLayout → Nat → Ty → List (Nat × Wasm.ValType)
  | layout :: rest, start, .struct name =>
    if layout.name = name then
      layout.fields.flatMap fun field => leavesIn rest (start + field.offset) field.type
    else
      leavesIn rest start (.struct name)
  | _, start, type => [(start, type.valType)]

def leaves (layouts : Layouts) (type : Ty) : List (Nat × Wasm.ValType) :=
  leavesIn layouts.structs 0 type

def sizeLimit : Nat := 0x100000000

def nextMultiple (value alignment : Nat) : Nat :=
  (value + alignment - 1) / alignment * alignment

def bounded? (value : Nat) : Option Nat :=
  if value < sizeLimit then some value else none

/-- Fields that have been given their places. -/
structure Placed where
  fields : List FieldLayout
  stop : Nat
  alignment : Nat
  deriving DecidableEq, Repr

/-- Give places to fields, one after the other from a byte on. There are none if
a number reaches the bound. -/
def placeFields? (layouts : Layouts) (start alignment : Nat) :
    List (String × Ty) → Option Placed
  | [] => some { fields := [], stop := start, alignment }
  | (name, type) :: rest => do
      let offset ← bounded? (nextMultiple start (layouts.alignment type))
      let stop ← bounded? (offset + layouts.size type)
      let placed ←
        layouts.placeFields? stop (max alignment (layouts.alignment type)) rest
      return { placed with fields := { name, type, offset } :: placed.fields }

def place? (layouts : Layouts) (name : String) (fields : List (String × Ty)) :
    Option StructLayout := do
  let placed ← layouts.placeFields? 0 1 fields
  let size ← bounded? (nextMultiple placed.stop placed.alignment)
  return {
    name := name
    size
    alignment := placed.alignment
    fields := placed.fields
    shape := .composite (fields.map fun (name, type) => (name, layouts.shape type)) }

end Layouts
end StructWasm

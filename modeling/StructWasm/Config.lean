import StructWasm.Json.Record
import StructWasm.Json.Text

/-!
# Configuration

Options of a compilation: names, the sizes of memory and stack, and what to put
into the module besides its code.
-/

namespace StructWasm

/-- What to do when a frame slot is released that owns no bytes: one of size
zero, or one that shares the bytes of another. -/
inductive FreePolicy where
  | lenient
  | strict
  deriving DecidableEq, Repr

namespace FreePolicy

def byName : List (String × FreePolicy) :=
  [("lenient", lenient), ("strict", strict)]

def name : FreePolicy → String
  | lenient => "lenient"
  | strict => "strict"

end FreePolicy

def pageSize : Nat := 65536

/-- Options of a compilation. -/
structure Config where
  sourceName : String := "main.fe"
  freePolicy : FreePolicy := .lenient
  stackAlignment : UInt32 := 16
  stackSize : UInt32 := 65536
  memoryPages : UInt32 := 2
  maxMemoryPages : Option UInt32 := some 256
  validate : Bool := true
  sourceMap : Bool := true
  exportMemory : Bool := true
  deriving DecidableEq, Repr

namespace Config

def standard : Config := {}

def strict : Config := { standard with freePolicy := .strict }

def stackTop (config : Config) : UInt32 :=
  config.stackSize

def fieldNames : List String :=
  ["source_name", "free_policy", "stack_alignment", "stack_size", "memory_pages",
    "max_memory_pages", "validate", "source_map", "export_memory"]

def toJson (config : Config) : Json :=
  .record
    [("source_name", .text config.sourceName),
      ("free_policy", .text config.freePolicy.name),
      ("stack_alignment", .nat config.stackAlignment.toNat),
      ("stack_size", .nat config.stackSize.toNat),
      ("memory_pages", .nat config.memoryPages.toNat),
      ("max_memory_pages",
        match config.maxMemoryPages with
        | none => .null
        | some pages => .nat pages.toNat),
      ("validate", .bool config.validate),
      ("source_map", .bool config.sourceMap),
      ("export_memory", .bool config.exportMemory)]

def jsonText (config : Config) : String :=
  config.toJson.render

/-- The configuration that a JSON value describes. Options that are not given
keep their standard values. -/
def ofJson? (value : Json) : Option Config := do
  let fields ← value.recordFields fieldNames
  let sourceName ←
    fields.withDefault "source_name" standard.sourceName Json.text?
  let freePolicy ←
    fields.withDefault "free_policy" standard.freePolicy (Json.choice? FreePolicy.byName)
  let stackAlignment ←
    fields.withDefault "stack_alignment" standard.stackAlignment Json.uint32?
  let stackSize ←
    fields.withDefault "stack_size" standard.stackSize Json.uint32?
  let memoryPages ←
    fields.withDefault "memory_pages" standard.memoryPages Json.uint32?
  let maxMemoryPages ←
    fields.withDefault "max_memory_pages" standard.maxMemoryPages
      (Json.option? Json.uint32?)
  let validate ←
    fields.withDefault "validate" standard.validate Json.bool?
  let sourceMap ←
    fields.withDefault "source_map" standard.sourceMap Json.bool?
  let exportMemory ←
    fields.withDefault "export_memory" standard.exportMemory Json.bool?
  return {
    sourceName := sourceName, freePolicy, stackAlignment, stackSize, memoryPages,
    maxMemoryPages, validate, sourceMap, exportMemory }

def parse (source : String) : Option Config := do
  let value ← Json.parse source
  ofJson? value

end Config
end StructWasm

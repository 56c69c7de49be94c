import StructWasm.Span

/-!
# Source maps

A source map says for each function of a module where it was declared. It is
kept as JSON, also inside the module.
-/

namespace StructWasm

/-- How a function comes into a module. -/
inductive FunctionKind where
  | imported
  | exported
  | internal
  deriving DecidableEq, Repr

namespace FunctionKind

def byName : List (String × FunctionKind) :=
  [("import", imported), ("export", exported), ("internal", internal)]

def name : FunctionKind → String
  | imported => "import"
  | exported => "export"
  | internal => "internal"

end FunctionKind

/-- One function of a module. -/
structure SourceMap.Entry where
  index : UInt32
  name : String
  kind : FunctionKind
  span : Span
  deriving DecidableEq, Repr

/-- The declarations of the functions of a module. -/
structure SourceMap where
  compilerVersion : String
  source : String
  entries : List SourceMap.Entry
  deriving DecidableEq, Repr

namespace SourceMap
namespace Entry

def toJson (entry : Entry) : Json :=
  .record
    [("wasm_func_index", .nat entry.index.toNat),
      ("func_name", .text entry.name),
      ("kind", .text entry.kind.name),
      ("span", entry.span.toJson)]

def fieldNames : List String :=
  ["wasm_func_index", "func_name", "kind", "span"]

def ofJson? (value : Json) : Option Entry := do
  let fields ← value.recordFields fieldNames
  let index ← fields.required "wasm_func_index" Json.uint32?
  let name ← fields.required "func_name" Json.text?
  let kind ← fields.required "kind" (Json.choice? FunctionKind.byName)
  let span ← fields.required "span" Span.ofJson?
  return { index := index, name, kind, span }

end Entry

def currentVersion : String := "0.1.0"

def empty (source : String) : SourceMap :=
  { compilerVersion := currentVersion, source, entries := [] }

def push (map : SourceMap) (entry : Entry) : SourceMap :=
  { map with entries := map.entries ++ [entry] }

def find? (map : SourceMap) (index : UInt32) : Option Entry :=
  map.entries.find? fun entry => entry.index == index

def sorted (map : SourceMap) : SourceMap :=
  { map with
    entries := map.entries.mergeSort fun left right => left.index ≤ right.index }

def toJson (map : SourceMap) : Json :=
  .record
    [("compiler_version", .text map.compilerVersion),
      ("source", .text map.source),
      ("entries", .array (map.entries.map Entry.toJson))]

def jsonText (map : SourceMap) : String :=
  map.toJson.render

def fieldNames : List String :=
  ["compiler_version", "source", "entries"]

def ofJson? (value : Json) : Option SourceMap := do
  let fields ← value.recordFields fieldNames
  let compilerVersion ← fields.required "compiler_version" Json.text?
  let source ← fields.required "source" Json.text?
  let entries ← fields.required "entries" (Json.list? Entry.ofJson?)
  return { compilerVersion := compilerVersion, source, entries }

def parse (source : String) : Option SourceMap := do
  let value ← Json.parse source
  ofJson? value

end SourceMap
end StructWasm

import StructWasm.Fault
import StructWasm.SourceMap
import StructWasm.Wasm.Constant

/-!
# Modules

A module is built up in any order: signatures, imports, functions, memory,
globals, exports, a start function, data and a source map. Functions are
declared first and given a body later.
-/

namespace StructWasm.Wasm

/-- A function of a module. -/
inductive FunctionRef where
  | imported (position : Nat)
  | defined (position : Nat)
  deriving DecidableEq, Repr

/-- An imported function. -/
structure Import where
  moduleName : String
  name : String
  typeIndex : Nat
  deriving DecidableEq, Repr

/-- A function with a body, which is given after the declaration. -/
structure Function (body : Type) where
  name : String
  typeIndex : Nat
  body? : Option body

/-- Size of a memory, in pages. -/
structure Memory where
  minimum : Nat
  maximum : Option Nat
  deriving DecidableEq, Repr

/-- A global variable. -/
structure Global where
  isMutable : Bool
  initial : Constant
  deriving DecidableEq, Repr

/-- Something that a module offers to the host. -/
inductive ExportTarget where
  | function (function : FunctionRef)
  | global (position : Nat)
  | memory
  deriving DecidableEq, Repr

/-- An export under a name. -/
structure Export where
  name : String
  target : ExportTarget
  deriving DecidableEq, Repr

/-- Bytes that are put into memory at the start. -/
structure DataSegment where
  offset : UInt32
  bytes : Bytes
  deriving DecidableEq, Repr

/-- What the source map will say of a function. -/
structure MappedFunction where
  function : FunctionRef
  name : String
  kind : FunctionKind
  span : Span
  deriving DecidableEq, Repr

/-- Signatures, and their positions under the bytes that stand for them. -/
structure SignatureTable where
  types : List FuncType
  positions : List (Bytes × Nat)
  /-- Every signature has its position, and nothing else has one. -/
  inStep : positions = types.mapIdx fun position type => (type.encode, position)

def SignatureTable.add (table : SignatureTable) (type : FuncType) : SignatureTable where
  types := table.types ++ [type]
  positions := table.positions ++ [(type.encode, table.types.length)]
  inStep := by rw [List.mapIdx_concat, table.inStep]

/-- A module with function bodies of some kind. -/
structure Module (body : Type) extends SignatureTable where
  imports : List Import
  functions : List (Function body)
  memory? : Option Memory
  globals : List Global
  exports : List Export
  start? : Option FunctionRef
  data : List DataSegment
  sourceMap? : Option SourceMap
  mapped : List MappedFunction
  embedSourceMap : Bool

namespace Module

variable {body : Type}

def empty (embedSourceMap : Bool) : Module body :=
  { types := [], positions := [], inStep := rfl, imports := [], functions := [],
    memory? := none, globals := [], exports := [], start? := none, data := [],
    sourceMap? := none, mapped := [], embedSourceMap }

/-- Position of a signature, which is added if none of the same bytes is there. -/
def registerType (mod : Module body) (type : FuncType) : Module body × Nat :=
  match mod.positions.lookup type.encode with
  | some index => (mod, index)
  | none => ({ mod with toSignatureTable := mod.toSignatureTable.add type }, mod.types.length)

def importFunction (mod : Module body) (moduleName name : String) (type : FuncType) :
    Module body × FunctionRef :=
  let (mod, typeIndex) := mod.registerType type
  ({ mod with imports := mod.imports ++ [{ moduleName, name, typeIndex }] },
    .imported mod.imports.length)

def createFunction (mod : Module body) (name : String) (type : FuncType) :
    Module body × FunctionRef :=
  let (mod, typeIndex) := mod.registerType type
  ({ mod with functions := mod.functions ++ [{ name, typeIndex, body? := none }] },
    .defined mod.functions.length)

def defineFunction (mod : Module body) (function : FunctionRef) (content : body) :
    Except Fault (Module body) :=
  match function with
  | .imported _ => .error (.inconsistent .bodyOfImport)
  | .defined position =>
    match mod.functions[position]? with
    | none => .error (.inconsistent (.unknownFunction position))
    | some entry =>
      if entry.body?.isSome then
        .error (.inconsistent (.functionDefinedTwice entry.name))
      else
        .ok { mod with
          functions := mod.functions.set position { entry with body? := some content } }

def addMemory (mod : Module body) (minimum : Nat) (maximum : Option Nat) :
    Except Fault (Module body) :=
  if mod.memory?.isSome then
    .error (.inconsistent .secondMemory)
  else
    match maximum with
    | none => .ok { mod with memory? := some { minimum, maximum } }
    | some limit =>
      if limit < minimum then
        .error (.inconsistent (.memoryLimits limit minimum))
      else
        .ok { mod with memory? := some { minimum, maximum } }

def addGlobal (mod : Module body) (type : ValType) (isMutable : Bool)
    (initial : Constant) : Except Fault (Module body × Nat) :=
  if initial.type = type then
    .ok ({ mod with globals := mod.globals ++ [{ isMutable, initial }] },
      mod.globals.length)
  else
    .error (.inconsistent (.globalType type initial.type))

def hasExport (mod : Module body) (name : String) : Bool :=
  mod.exports.any fun entry => entry.name == name

def addExport (mod : Module body) (name : String) (target : ExportTarget) :
    Except Fault (Module body) :=
  if mod.hasExport name then
    .error (.inconsistent (.duplicateExport name))
  else
    .ok { mod with exports := mod.exports ++ [{ name, target }] }

def setStart (mod : Module body) (function : FunctionRef) : Module body :=
  { mod with start? := some function }

def addData (mod : Module body) (offset : UInt32) (bytes : Bytes) : Module body :=
  { mod with data := mod.data ++ [{ offset, bytes }] }

def attachSourceMap (mod : Module body) (map : SourceMap) : Module body :=
  { mod with sourceMap? := some map }

def mapFunction (mod : Module body) (mapped : MappedFunction) : Module body :=
  { mod with mapped := mod.mapped ++ [mapped] }

def undefinedFunctions (mod : Module body) : List String :=
  (mod.functions.filter fun entry => entry.body?.isNone).map Function.name

end Module
end StructWasm.Wasm

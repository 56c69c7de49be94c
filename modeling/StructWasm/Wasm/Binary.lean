import StructWasm.Wasm.Encoding
import StructWasm.Wasm.Numbering
import StructWasm.Wasm.Section

/-!
# Binaries of modules

A binary is a fixed start followed by the sections of the module. Sections stand
in the order of their numbers, whatever the order in which the module was built,
and sections without contents are left out. The source map comes last, in a
section of its own. All counts and sizes have to fit in 32 bits.
-/

namespace StructWasm.Wasm

def header : Bytes :=
  [0x00, 0x61, 0x73, 0x6D, 0x01, 0x00, 0x00, 0x00]

def sourceMapSectionName : String := "ferrule.sourcemap"

def functionMark : UInt8 := 0x00

def memoryMark : UInt8 := 0x02

def globalMark : UInt8 := 0x03

def checkName (text : String) : Except Fault Unit :=
  Limit.check "name length" (Bytes.utf8 text).length

def FuncType.write (type : FuncType) : Except Fault Bytes := do
  Limit.check "parameter count" type.params.length
  Limit.check "result count" type.results.length
  return type.encode

def Import.encode (entry : Import) : Bytes :=
  Leb128.name entry.moduleName ++ Leb128.name entry.name ++
    functionMark :: Leb128.encodeUnsigned entry.typeIndex

def Import.write (entry : Import) : Except Fault Bytes := do
  checkName entry.moduleName
  checkName entry.name
  return entry.encode

def Memory.encode (memory : Memory) : Bytes :=
  match memory.maximum with
  | none => 0x00 :: Leb128.encodeUnsigned memory.minimum
  | some maximum =>
    0x01 :: (Leb128.encodeUnsigned memory.minimum ++ Leb128.encodeUnsigned maximum)

def Global.encode (entry : Global) : Bytes :=
  entry.initial.type.byte :: (if entry.isMutable then 0x01 else 0x00) ::
    (entry.initial.encode ++ [endMark])

def DataSegment.encode (segment : DataSegment) : Bytes :=
  0x00 :: ((Constant.i32 segment.offset.toInt32).encode ++
    endMark :: Leb128.lengthPrefixed segment.bytes)

def DataSegment.write (segment : DataSegment) : Except Fault Bytes := do
  Limit.check "byte vector length" segment.bytes.length
  return segment.encode

/-- What is exported is written as its kind and its index. -/
def ExportTarget.write (cells : IndexCells) : ExportTarget → Except Fault Bytes
  | .function handle => do
    return functionMark :: Leb128.encodeUnsigned (← (cells.function handle).read)
  | .global position => do
    return globalMark :: Leb128.encodeUnsigned (← (cells.global position).read)
  | .memory => do return memoryMark :: Leb128.encodeUnsigned (← cells.memory.read)

def Export.write (cells : IndexCells) (entry : Export) : Except Fault Bytes := do
  checkName entry.name
  return Leb128.name entry.name ++ (← entry.target.write cells)

/-- The section of a list of entries, which are counted. -/
def listSection {α : Type} (id : UInt8) (what : String) (write : α → Except Fault Bytes)
    (entries : List α) : Except Fault (Option Section) := do
  Limit.check what entries.length
  return Section.ofVector? id (← entries.mapM write)

def MappedFunction.entry (cells : IndexCells) (mapped : MappedFunction) :
    Except Fault SourceMap.Entry := do
  return { index := UInt32.ofNat (← (cells.function mapped.function).read)
           name := mapped.name
           kind := mapped.kind
           span := mapped.span }

namespace Module

variable {body : Type}

def encodeFunction (encodeBody : body → Except Fault Bytes) (entry : Function body) :
    Except Fault Bytes :=
  match entry.body? with
  | none => .error (.inconsistent (.functionNeverDefined entry.name))
  | some content => do
    let bytes ← encodeBody content
    Limit.check "function body size" bytes.length
    return Leb128.lengthPrefixed bytes

/-- The source map with all functions that are to be in it. -/
def completeSourceMap (mod : Module body) (cells : IndexCells) :
    Except Fault (Option SourceMap) :=
  match mod.sourceMap? with
  | none => .ok none
  | some map => do
    let entries ← mod.mapped.mapM (MappedFunction.entry cells)
    return some (entries.foldl SourceMap.push map).sorted

def completeSourceMap? (mod : Module body) : Option SourceMap :=
  (mod.completeSourceMap mod.cells).toOption.join

def startSection (mod : Module body) (cells : IndexCells) :
    Except Fault (Option Section) :=
  match mod.start? with
  | none => .ok none
  | some function => do
    return some { id := 8, payload := Leb128.encodeUnsigned (← (cells.function function).read) }

/-- The section that holds the source map, if it goes into the binary. -/
def sourceMapSection? (mod : Module body) (map? : Option SourceMap) : Option Section :=
  if mod.embedSourceMap then
    map?.map fun map => .custom sourceMapSectionName (Bytes.utf8 map.jsonText)
  else
    none

/-- The sections before the source map. -/
def sections (mod : Module body) (cells : IndexCells)
    (encodeBody : body → Except Fault Bytes) : Except Fault (List Section) := do
  let types ← listSection 1 "type count" FuncType.write mod.types
  let imports ← listSection 2 "import count" Import.write mod.imports
  let functions ← listSection 3 "function count"
    (fun entry => .ok (Leb128.encodeUnsigned entry.typeIndex)) mod.functions
  let memories ← listSection 5 "memory count" (fun entry => .ok entry.encode)
    mod.memory?.toList
  let globals ← listSection 6 "global count" (fun entry => .ok entry.encode) mod.globals
  let exports ← listSection 7 "export count" (Export.write cells) mod.exports
  let start ← mod.startSection cells
  let code ← listSection 10 "function count" (encodeFunction encodeBody) mod.functions
  let data ← listSection 11 "data segment count" DataSegment.write mod.data
  return [types, imports, functions, memories, globals, exports, start, code, data].filterMap id

/-- Binary of a module whose bodies can be encoded. -/
def binary (mod : Module body) (encodeBody : body → Except Fault Bytes) :
    Except Fault Bytes :=
  match mod.linearize [] with
  | .error fault _ => .error fault
  | .ok _ cells => do
    let map? ← mod.completeSourceMap cells
    let sections ← mod.sections cells encodeBody
    let sections := sections ++ (mod.sourceMapSection? map?).toList
    sections.forM Section.checkSize
    return header ++ sections.flatMap Section.encode

end Module
end StructWasm.Wasm

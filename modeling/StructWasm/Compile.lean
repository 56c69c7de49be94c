import StructWasm.Compile.Declare
import StructWasm.Compile.Start
import StructWasm.Compile.Worklist
import StructWasm.Wasm.Binary

/-!
# Compilation

A program is compiled into a module in which the functions are declared in the
order in which they are reached: from each exported function, depth first, in
the order of the calls. Imported functions come first. A function that nothing
reaches is left out.

Mistakes of the program are gathered and reported together. Any other fault ends
the compilation at once.
-/

namespace StructWasm.Compile

def batchOf (errors : List Diagnostic) : Diagnostic.Batch :=
  Diagnostic.Batch.empty.pushErrors errors

/-- A compiled program. -/
structure Compiled where
  binary : Bytes
  sourceMap : SourceMap
  deriving DecidableEq, Repr

/-- The index of a function, which is in its cell. -/
def indexIn (cells : Wasm.IndexCells) (progress : Progress) (name : String) :
    Except Fault Nat :=
  match progress.functions.lookup name with
  | some function => (cells.function function).read
  | none => .error (.deferred (.unresolved "function index"))

def functionIndex (progress : Progress) : String → Except Fault Nat :=
  indexIn progress.mod.cells progress

def write (config : Config) (progress : Progress) : Except Fault Compiled := do
  let cells := progress.mod.cells
  let encodeBody (body : Lowering.Body) : Except Fault Bytes :=
    body.encode (indexIn cells progress) fun .stackPointer => 0
  let binary ← progress.mod.binary encodeBody
  let sourceMap := progress.mod.completeSourceMap?.getD (.empty config.sourceName)
  return { binary := binary, sourceMap }

def compile (config : Config) (program : Program) : Except Fault Compiled := do
  let layouts ←
    match Layouts.build config.sourceName program.structs with
    | .ok layouts => pure layouts
    | .error errors => throw (.diagnostics (batchOf errors))
  let setting : Setting := { config, layouts }
  let mod ← newModule config
  let start : Progress :=
    { mod, signatures := [], functions := [], pending := [], errors := .empty }
  let imported := program.imports.foldl (Progress.declareImport setting) start
  let declared := program.functions.foldl (Progress.declareFunction setting) imported
  let exported := program.functions.filter FunctionDecl.exported
  let progress ← exported.foldlM (Progress.exportFunction setting) declared
  if progress.errors.hasErrors then
    throw (.diagnostics progress.errors)
  else
    write config progress

end StructWasm.Compile

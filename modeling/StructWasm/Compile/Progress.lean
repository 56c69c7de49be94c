import StructWasm.Lowering.Function
import StructWasm.Wasm.Module

/-!
# Progress of a compilation

What a compilation knows at each moment: the module so far, the declared
functions, which of them are in the module and which have not been reached, and
the mistakes.
-/

namespace StructWasm.Compile

/-- A function that is declared and not yet reached. -/
structure Pending where
  decl : FunctionDecl
  signature : Signature

def Pending.name (pending : Pending) : String :=
  pending.decl.name.name

/-- How far a compilation has come. -/
structure Progress where
  mod : Wasm.Module Lowering.Body
  signatures : List (String × Option Signature)
  functions : List (String × Wasm.FunctionRef)
  pending : List Pending
  errors : Diagnostic.Batch

/-- What a compilation depends on throughout. -/
structure Setting where
  config : Config
  layouts : Layouts

def Progress.note (progress : Progress) (setting : Setting) (mistake : Mistake) (span : Span) :
    Progress :=
  { progress with
    errors := progress.errors.pushError (mistake.report setting.config.sourceName span) }

end StructWasm.Compile

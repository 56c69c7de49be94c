import StructWasm.Diagnostic

/-!
# Batches of diagnostics

A batch gathers the diagnostics of a whole program. It keeps the first twenty
errors and counts them all; warnings are all kept.
-/

namespace StructWasm.Diagnostic

/-- Diagnostics of a whole program. -/
structure Batch where
  errors : List Diagnostic
  warnings : List Diagnostic
  totalErrors : Nat
  totalWarnings : Nat
  deriving DecidableEq, Repr

namespace Batch

def errorLimit : Nat := 20

def empty : Batch :=
  { errors := [], warnings := [], totalErrors := 0, totalWarnings := 0 }

def hasErrors (batch : Batch) : Bool :=
  0 < batch.totalErrors

/-- Add an error. It is kept while there is room and counted in any case. -/
def pushError (batch : Batch) (error : Diagnostic) : Batch :=
  { batch with
    errors :=
      if batch.errors.length < errorLimit then batch.errors ++ [error] else batch.errors
    totalErrors := batch.totalErrors + 1 }

def pushErrors (batch : Batch) (errors : List Diagnostic) : Batch :=
  errors.foldl pushError batch

def pushWarning (batch : Batch) (warning : Diagnostic) : Batch :=
  { batch with
    warnings := batch.warnings ++ [warning]
    totalWarnings := batch.totalWarnings + 1 }

/-- Add the diagnostics of another batch. Errors that the other batch counted
without keeping them are counted here too. -/
def extend (batch other : Batch) : Batch :=
  { errors :=
      batch.errors ++ other.errors.take (errorLimit - batch.errors.length)
    warnings := batch.warnings ++ other.warnings
    totalErrors := batch.totalErrors + other.totalErrors
    totalWarnings := batch.totalWarnings + other.warnings.length }

/-- A line with the number of errors, and a line for each error that is kept. -/
def text (batch : Batch) : String :=
  Decimal.natText batch.totalErrors ++ " error(s)" ++
    String.join (batch.errors.map fun error => "\n  " ++ error.text)

def toJson (batch : Batch) : Json :=
  .record
    [("errors", .array (batch.errors.map Diagnostic.toJson)),
      ("warnings", .array (batch.warnings.map Diagnostic.toJson)),
      ("total_errors", .nat batch.totalErrors),
      ("total_warnings", .nat batch.totalWarnings)]

def jsonText (batch : Batch) : String :=
  batch.toJson.render

def fieldNames : List String :=
  ["errors", "warnings", "total_errors", "total_warnings"]

def ofJson? (value : Json) : Option Batch := do
  let fields ← value.recordFields fieldNames
  let errors ← fields.required "errors" (Json.list? Diagnostic.ofJson?)
  let warnings ← fields.required "warnings" (Json.list? Diagnostic.ofJson?)
  let totalErrors ← fields.required "total_errors" Json.count?
  let totalWarnings ← fields.required "total_warnings" Json.count?
  return { errors := errors, warnings, totalErrors, totalWarnings }

def parse (source : String) : Option Batch := do
  let value ← Json.parse source
  ofJson? value

end Batch
end StructWasm.Diagnostic

import StructWasm.Deferred
import StructWasm.Diagnostic.Batch
import StructWasm.Frame.Error
import StructWasm.Literal
import StructWasm.Wasm.Types

/-!
# Faults

Whatever can stop a compilation. Only diagnostics describe mistakes of the
program; all other faults are defects or limits of the compiler itself.
-/

namespace StructWasm

/-- An internal consistency check that failed. -/
inductive Inconsistency where
  | localAfterNumbering
  | parameterFreed
  | unknownLocal (slot : Nat)
  | localFreedTwice (slot : Nat)
  | localsNumberedTwice
  | bodyOfImport
  | unknownFunction (position : Nat)
  | functionDefinedTwice (name : String)
  | functionNeverDefined (name : String)
  | secondMemory
  | memoryLimits (maximum minimum : Nat)
  | globalType (declared initial : Wasm.ValType)
  | duplicateExport (name : String)
  | missingOwnershipField (typeName field : String)
  | emptyTarget
  deriving DecidableEq, Repr

def Inconsistency.message : Inconsistency → String
  | localAfterNumbering => "local allocated after the locals table was finished"
  | parameterFreed => "parameters cannot be freed"
  | unknownLocal slot => "unknown local slot " ++ Decimal.natText slot
  | localFreedTwice slot => "local slot " ++ Decimal.natText slot ++ " freed twice"
  | localsNumberedTwice => "locals table finished twice"
  | bodyOfImport => "an imported function cannot be given a body"
  | unknownFunction position => "unknown function slot " ++ Decimal.natText position
  | functionDefinedTwice name => "function `" ++ name ++ "` defined twice"
  | functionNeverDefined name =>
    "function `" ++ name ++ "` was declared but never defined"
  | secondMemory => "a module has at most one linear memory"
  | memoryLimits maximum minimum =>
    "memory maximum Some(" ++ Decimal.natText maximum ++ ") is below its minimum " ++
      Decimal.natText minimum
  | globalType declared initial =>
    "global of type " ++ declared.name ++ " initialized with a " ++ initial.name ++
      " constant"
  | duplicateExport name => "export `" ++ name ++ "` declared twice"
  | missingOwnershipField typeName field =>
    "ownership node for `" ++ typeName ++ "` has no field `" ++ field ++ "`"
  | emptyTarget => "assignment without a target"

/-- A limit that was reached. -/
inductive Limit where
  | memoryOffset
  | constant (value : Nat)
  | stackInMemory (stackSize memoryPages : Nat)
  | stackTop
  | functionCount
  | exceeded (what : String) (value : Nat)
  deriving DecidableEq, Repr

def Limit.message : Limit → String
  | memoryOffset => "memory offset"
  | constant value => "constant " ++ Decimal.natText value ++ " does not fit i32"
  | stackInMemory stackSize memoryPages =>
    "stack of " ++ Decimal.natText stackSize ++ " bytes does not fit in " ++
      Decimal.natText memoryPages ++ " memory pages"
  | stackTop => "stack size"
  | functionCount => "function count"
  | exceeded what value => what ++ ": " ++ Decimal.natText value

/-- What stops a compilation. -/
inductive Fault where
  | semantic (errors : List Diagnostic)
  | diagnostics (batch : Diagnostic.Batch)
  | frame (cause : Frame.Error)
  | literal (cause : LiteralError)
  | deferred (cause : DeferredError)
  | inconsistent (cause : Inconsistency)
  | limit (cause : Limit)
  deriving DecidableEq, Repr

namespace Fault

def message : Fault → String
  | semantic errors => "; ".intercalate (errors.map Diagnostic.text)
  | diagnostics batch => "compilation failed: " ++ batch.text
  | frame cause => "internal stack allocator error: " ++ cause.message
  | literal cause => "encoding error: " ++ cause.message
  | deferred cause => "latent value error: " ++ cause.message
  | inconsistent cause => "internal codegen error: " ++ cause.message
  | limit cause => "limit exceeded: " ++ cause.message

def isUserFacing : Fault → Bool
  | semantic _ => true
  | diagnostics _ => true
  | _ => false

end Fault

/-- The value of a deferred number. -/
def Deferred.read (number : Deferred) : Except Fault Nat :=
  number.get.mapError Fault.deferred

/-- A count or a size has to fit in 32 bits. -/
def Limit.check (what : String) (value : Nat) : Except Fault Unit :=
  if value < 0x100000000 then
    .ok ()
  else
    .error (.limit (.exceeded what value))

end StructWasm

import StructWasm.Diagnostic
import StructWasm.Layout.Ty
import StructWasm.Ownership.Arena

/-!
# Mistakes of a program

Everything that a program can do wrong, by cause. A mistake has a code and a
message, and becomes a diagnostic at the place where it was made.
-/

namespace StructWasm

/-- What was found where a value of some type was wanted. -/
inductive Found where
  | value (type : Ty)
  | nothing
  | never
  deriving DecidableEq, Repr

def quoted (text : String) : String :=
  "`" ++ text ++ "`"

def Found.text : Found → String
  | value type => quoted type.text
  | nothing => "no value"
  | never => "an expression that never completes"

/-- The way in which a function of the program meets the host. -/
inductive Boundary where
  | imported
  | exported
  deriving DecidableEq, Repr

def Boundary.text : Boundary → String
  | imported => "imported"
  | exported => "exported"

/-- What is wrong with a program. -/
inductive Mistake where
  | duplicateStructure (name : String)
  | duplicateFieldDeclaration (field structName : String)
  | recursiveStructure (name : String) (chain : List String)
  | structureTooLarge (name : String)
  | unknownType (name : String)
  | unknownStructure (name : String)
  | duplicateFunction (name : String)
  | duplicateParameter (name : String)
  | structureAcrossBoundary (boundary : Boundary) (name : String)
  | reservedExport (name : String)
  | unresolvedName (name : String)
  | unknownFunction (name : String)
  | wrongArgumentCount (name : String) (wanted given : Nat)
  | unknownField (structName field : String)
  | notAStructure (found : Found) (field : String)
  | duplicateFieldValue (field : String)
  | missingField (field structName : String)
  | unexpectedNumber (wanted : Ty)
  | typeMismatch (wanted : Ty) (found : Found)
  | invalidOperand (op : BinaryOp) (found : Found)
  | notNegatable (found : Found)
  | differentArms (thenFound elseFound : Found)
  | structureOnlyInElse (type : Ty)
  | missingInitialValue (name : String) (type : Ty)
  | missingTypeAndValue (name : String)
  | emptyInitializer (name : String)
  | unexpectedResult (found : Found)
  | missingResult (type : Ty)
  | assignmentWhileReading (path : String)
  | loanViolation (refusal : Ownership.Error)
  | incompleteValue (gap : Ownership.Gap)
  deriving DecidableEq, Repr

namespace Mistake

def code : Mistake → DiagnosticCode
  | duplicateStructure _ => .duplicateDeclaration
  | duplicateFieldDeclaration _ _ => .duplicateField
  | recursiveStructure _ _ => .recursiveStructure
  | structureTooLarge _ => .structureTooLarge
  | unknownType _ => .unknownType
  | unknownStructure _ => .unknownType
  | duplicateFunction _ => .duplicateDeclaration
  | duplicateParameter _ => .duplicateDeclaration
  | structureAcrossBoundary _ _ => .unsupported
  | reservedExport _ => .duplicateDeclaration
  | unresolvedName _ => .unresolvedName
  | unknownFunction _ => .unknownFunction
  | wrongArgumentCount _ _ _ => .wrongArgumentCount
  | unknownField _ _ => .unknownField
  | notAStructure _ _ => .notAStructure
  | duplicateFieldValue _ => .duplicateField
  | missingField _ _ => .missingValue
  | unexpectedNumber _ => .typeMismatch
  | typeMismatch _ _ => .typeMismatch
  | invalidOperand _ _ => .invalidOperand
  | notNegatable _ => .invalidOperand
  | differentArms _ _ => .typeMismatch
  | structureOnlyInElse _ => .typeMismatch
  | missingInitialValue _ _ => .missingValue
  | missingTypeAndValue _ => .missingValue
  | emptyInitializer _ => .missingValue
  | unexpectedResult _ => .typeMismatch
  | missingResult _ => .missingValue
  | assignmentWhileReading _ => .invalidAssignmentTarget
  | loanViolation (.moveOutOfLoan _) => .moveOutOfLoan
  | loanViolation (.writeToReadLoan _) => .invalidAssignmentTarget
  | incompleteValue (.missing _) => .incompleteValue
  | incompleteValue (.consumed _ _) => .consumedValue

def message : Mistake → String
  | duplicateStructure name =>
    "struct " ++ quoted name ++ " is declared more than once"
  | duplicateFieldDeclaration field structName =>
    "field " ++ quoted field ++ " is declared twice in " ++ quoted structName
  | recursiveStructure name chain =>
    "struct " ++ quoted name ++ " contains itself (" ++ " -> ".intercalate chain ++
      ") and has no finite size"
  | structureTooLarge name =>
    "struct " ++ quoted name ++ " is larger than the 4 GiB address space"
  | unknownType name => "unknown type " ++ quoted name
  | unknownStructure name => "unknown structure " ++ quoted name
  | duplicateFunction name =>
    "function " ++ quoted name ++ " is declared more than once"
  | duplicateParameter name =>
    "parameter " ++ quoted name ++ " is declared more than once"
  | structureAcrossBoundary boundary name =>
    boundary.text ++ " function " ++ quoted name ++
      " may only take and return primitives"
  | reservedExport name =>
    "export " ++ quoted name ++ " collides with a reserved export"
  | unresolvedName name => "cannot find " ++ quoted name ++ " in this scope"
  | unknownFunction name => "cannot find function " ++ quoted name
  | wrongArgumentCount name wanted given =>
    quoted name ++ " takes " ++ Decimal.natText wanted ++ " argument(s) but " ++
      Decimal.natText given ++ " were supplied"
  | unknownField structName field =>
    quoted structName ++ " has no field " ++ quoted field
  | notAStructure found field => found.text ++ " has no field " ++ quoted field
  | duplicateFieldValue field => "field " ++ quoted field ++ " is initialized twice"
  | missingField field structName =>
    "missing field " ++ quoted field ++ " in " ++ quoted structName ++ " literal"
  | unexpectedNumber wanted => "expected " ++ quoted wanted.text ++ ", found a number"
  | typeMismatch wanted found =>
    "expected " ++ quoted wanted.text ++ ", found " ++ found.text
  | invalidOperand op found =>
    quoted op.symbol ++ " cannot be applied to " ++ found.text
  | notNegatable found => "cannot negate " ++ found.text
  | differentArms thenFound elseFound =>
    "`if` and `else` have incompatible types: " ++ thenFound.text ++ " and " ++
      elseFound.text
  | structureOnlyInElse type =>
    "`else` produces " ++ quoted type.text ++ " but the `if` has no structure result"
  | missingInitialValue name type =>
    quoted name ++ " of type " ++ quoted type.text ++ " needs an initial value"
  | missingTypeAndValue name => quoted name ++ " needs a type or an initial value"
  | emptyInitializer name =>
    "the initializer of " ++ quoted name ++ " produces no value"
  | unexpectedResult found => "this function returns nothing, found " ++ found.text
  | missingResult type =>
    "expected a " ++ quoted type.text ++ " result, found no value"
  | assignmentWhileReading path =>
    "cannot assign to " ++ quoted path ++ " here: it is only borrowed for reading"
  | loanViolation refusal => refusal.message
  | incompleteValue (.missing path) => quoted path ++ " is used before it is defined"
  | incompleteValue (.consumed path _) =>
    quoted path ++ " was moved out and not redefined"

def suggestion? : Mistake → Option String
  | recursiveStructure _ _ =>
    some "break the cycle by storing one of the fields elsewhere"
  | structureTooLarge _ => some "reduce the nesting or the number of fields"
  | incompleteValue (.missing path) =>
    some ("assign " ++ quoted path ++ " before this use")
  | _ => none

def related : Mistake → List Span
  | incompleteValue (.consumed _ moved) => [moved]
  | _ => []

def report (mistake : Mistake) (file : String) (span : Span) : Diagnostic :=
  { Diagnostic.error file mistake.code mistake.message span with
    related := mistake.related
    suggestion := mistake.suggestion? }

end Mistake
end StructWasm

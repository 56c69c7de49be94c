import StructWasm.Span

/-!
# Diagnostics

A diagnostic reports one mistake of a program: a numbered kind, a message and
the places it is about. The category of a diagnostic follows from its number.
-/

namespace StructWasm

/-- How grave a diagnostic is. -/
inductive Severity where
  | error
  | warning
  deriving DecidableEq, Repr

/-- What part of the language a diagnostic is about. -/
inductive Category where
  | typing
  | scope
  | ownership
  | layout
  | unsupported
  deriving DecidableEq, Repr

/-- Number of a kind of diagnostic. -/
structure DiagnosticCode where
  number : UInt16
  deriving DecidableEq, Inhabited, Repr

namespace Severity

def byName : List (String × Severity) :=
  [("error", error), ("warning", warning)]

def name : Severity → String
  | error => "error"
  | warning => "warning"

end Severity

namespace Category

def byName : List (String × Category) :=
  [("type", typing), ("scope", scope), ("ownership", ownership),
    ("structure", layout), ("unsupported", unsupported)]

def name : Category → String
  | typing => "type"
  | scope => "scope"
  | ownership => "ownership"
  | layout => "structure"
  | unsupported => "unsupported"

end Category

namespace DiagnosticCode

def unknownType : DiagnosticCode := ⟨200⟩

def typeMismatch : DiagnosticCode := ⟨201⟩

def wrongArgumentCount : DiagnosticCode := ⟨202⟩

def notAStructure : DiagnosticCode := ⟨203⟩

def unknownField : DiagnosticCode := ⟨204⟩

def missingValue : DiagnosticCode := ⟨205⟩

def invalidOperand : DiagnosticCode := ⟨206⟩

def unresolvedName : DiagnosticCode := ⟨300⟩

def duplicateDeclaration : DiagnosticCode := ⟨301⟩

def unknownFunction : DiagnosticCode := ⟨302⟩

def invalidAssignmentTarget : DiagnosticCode := ⟨303⟩

def incompleteValue : DiagnosticCode := ⟨410⟩

def consumedValue : DiagnosticCode := ⟨411⟩

def moveOutOfLoan : DiagnosticCode := ⟨412⟩

def recursiveStructure : DiagnosticCode := ⟨500⟩

def duplicateField : DiagnosticCode := ⟨501⟩

def structureTooLarge : DiagnosticCode := ⟨502⟩

def unsupported : DiagnosticCode := ⟨600⟩

def category (code : DiagnosticCode) : Category :=
  match code.number.toNat / 100 with
  | 2 => .typing
  | 3 => .scope
  | 4 => .ownership
  | 5 => .layout
  | _ => .unsupported

def text (code : DiagnosticCode) : String :=
  "E" ++ Decimal.natText code.number.toNat

end DiagnosticCode

/-- A report of one mistake. -/
structure Diagnostic where
  file : String
  code : DiagnosticCode
  severity : Severity
  category : Category
  message : String
  span : Span
  related : List Span
  suggestion : Option String
  deriving DecidableEq, Repr

namespace Diagnostic

def error (file : String) (code : DiagnosticCode) (message : String) (span : Span) :
    Diagnostic :=
  { file, code, severity := .error, category := code.category, message, span,
    related := [], suggestion := none }

def withRelated (diagnostic : Diagnostic) (span : Span) : Diagnostic :=
  { diagnostic with related := diagnostic.related ++ [span] }

def withSuggestion (diagnostic : Diagnostic) (suggestion : String) : Diagnostic :=
  { diagnostic with suggestion := some suggestion }

def text (diagnostic : Diagnostic) : String :=
  diagnostic.span.text ++ ": " ++ diagnostic.code.text ++ " [" ++
    diagnostic.category.name ++ "] " ++ diagnostic.message

/-- The object that describes a diagnostic. The fields of the span stand among
its own; an empty list of places and a missing suggestion are left out. -/
def toJson (diagnostic : Diagnostic) : Json :=
  .record
    ([("file", .text diagnostic.file),
        ("code", .nat diagnostic.code.number.toNat),
        ("severity", .text diagnostic.severity.name),
        ("category", .text diagnostic.category.name),
        ("message", .text diagnostic.message)] ++
      diagnostic.span.members ++
      (if diagnostic.related.isEmpty then []
        else [("related", .array (diagnostic.related.map Span.toJson))]) ++
      (match diagnostic.suggestion with
        | none => []
        | some suggestion => [("suggestion", .text suggestion)]))

def fieldNames : List String :=
  ["file", "code", "severity", "category", "message", "related", "suggestion"]

/-- How deep a value under any other name may be nested: with the diagnostic, the
list it stands in and the batch around it, less than 128 levels in all. -/
def depthLimit : Nat := 124

/-- Whether a member can be read: values under names other than a diagnostic's
own have to be plain and not too deep. -/
def readable (entry : Option String × Json) : Bool :=
  match entry.1 with
  | none => false
  | some name =>
    fieldNames.contains name ||
      (entry.2.isPlain && entry.2.depth ≤ depthLimit)

def ofJson? : Json → Option Diagnostic
  | .object members =>
    if members.all readable then do
      let fields ← Json.namedFields (fieldNames ++ Span.fieldNames) members
      let file ← fields.required "file" Json.text?
      let number ← fields.required "code" Json.uint16?
      let severity ← fields.required "severity" (Json.choice? Severity.byName)
      let category ← fields.required "category" (Json.choice? Category.byName)
      let message ← fields.required "message" Json.text?
      let span ← Span.ofFields? fields
      let related ← fields.withDefault "related" [] (Json.list? Span.ofJson?)
      let suggestion ← fields.withDefault "suggestion" none (Json.option? Json.text?)
      return {
        file, code := ⟨number⟩, severity, category, message, span, related,
        suggestion }
    else
      none
  | _ => none

end Diagnostic
end StructWasm

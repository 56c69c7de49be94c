import StructWasm.Json.Record
import StructWasm.Json.Text

/-!
# Spans of source text

A span is a range of a source text, by line and column (counted from one) and by
byte (counted from zero).
-/

namespace StructWasm

/-- A range of a source text. -/
structure Span where
  startLine : UInt32
  startColumn : UInt32
  endLine : UInt32
  endColumn : UInt32
  startByte : UInt32
  endByte : UInt32
  deriving DecidableEq, Inhabited, Repr

namespace Span

def ofLines (startLine startColumn endLine endColumn : UInt32) : Span :=
  { startLine, startColumn, endLine, endColumn, startByte := 0, endByte := 0 }

def positionBefore (left right : UInt32 × UInt32) : Bool :=
  left.1 < right.1 || (left.1 == right.1 && left.2 < right.2)

def start (span : Span) : UInt32 × UInt32 :=
  (span.startLine, span.startColumn)

def stop (span : Span) : UInt32 × UInt32 :=
  (span.endLine, span.endColumn)

def merge (left right : Span) : Span :=
  let start := if positionBefore right.start left.start then right.start else left.start
  let stop := if positionBefore left.stop right.stop then right.stop else left.stop
  { startLine := start.1
    startColumn := start.2
    endLine := stop.1
    endColumn := stop.2
    startByte := min left.startByte right.startByte
    endByte := max left.endByte right.endByte }

def text (span : Span) : String :=
  Decimal.natText span.startLine.toNat ++ ":" ++ Decimal.natText span.startColumn.toNat

def fieldNames : List String :=
  ["line", "column", "end_line", "end_column", "start_byte", "end_byte"]

def members (span : Span) : List (String × Json) :=
  [("line", .nat span.startLine.toNat),
    ("column", .nat span.startColumn.toNat),
    ("end_line", .nat span.endLine.toNat),
    ("end_column", .nat span.endColumn.toNat),
    ("start_byte", .nat span.startByte.toNat),
    ("end_byte", .nat span.endByte.toNat)]

def toJson (span : Span) : Json :=
  .record span.members

def ofFields? (fields : Json.FieldValues) : Option Span := do
  let startLine ← fields.required "line" Json.uint32?
  let startColumn ← fields.required "column" Json.uint32?
  let endLine ← fields.required "end_line" Json.uint32?
  let endColumn ← fields.required "end_column" Json.uint32?
  let startByte ← fields.required "start_byte" Json.uint32?
  let endByte ← fields.required "end_byte" Json.uint32?
  return { startLine := startLine, startColumn, endLine, endColumn, startByte, endByte }

def ofJson? (value : Json) : Option Span := do
  let fields ← value.recordFields fieldNames
  ofFields? fields

end Span
end StructWasm

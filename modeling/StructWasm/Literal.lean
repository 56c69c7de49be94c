import StructWasm.Binary64.Text
import StructWasm.Leb128

/-!
# Checked conversion of number literals

A number literal is a 64-bit floating-point word. Where an integer is wanted the
word has to stand for one in range; where a 32-bit float is wanted it may be
rounded but not pushed to infinity.
-/

namespace StructWasm

/-- A kind of number that a literal is converted to. -/
inductive NumberKind where
  | i32
  | i64
  | u64
  | f32
  deriving DecidableEq, Repr

def NumberKind.name : NumberKind → String
  | .i32 => "i32"
  | .i64 => "i64"
  | .u64 => "u64"
  | .f32 => "f32"

/-- Why a literal cannot be converted. -/
inductive LiteralError where
  | nonInteger (value : Binary64)
  | outOfRange (value : Binary64) (kind : NumberKind)
  deriving DecidableEq, Repr

def LiteralError.message : LiteralError → String
  | .nonInteger value => value.text ++ " is not an integer"
  | .outOfRange value kind => value.text ++ " is out of range for " ++ kind.name

namespace Literal

/-- The integer that a literal stands for, within the range of 64-bit
integers. -/
def toInteger (literal : Binary64) : Except LiteralError Int :=
  match literal.integer? with
  | none => .error (.nonInteger literal)
  | some value =>
    if -0x8000000000000000 ≤ value && value < 0x8000000000000000 then
      .ok value
    else
      .error (.outOfRange literal .i64)

def toInt64 (literal : Binary64) : Except LiteralError Int64 := do
  let value ← toInteger literal
  return Int64.ofInt value

def toInt32 (literal : Binary64) : Except LiteralError Int32 := do
  let value ← toInteger literal
  if -0x80000000 ≤ value && value < 0x80000000 then
    return Int32.ofInt value
  else
    throw (.outOfRange literal .i32)

def toBinary32 (literal : Binary64) : Except LiteralError Binary32 :=
  let narrowed := literal.narrow
  if literal.isFinite && !narrowed.isFinite then
    .error (.outOfRange literal .f32)
  else
    .ok narrowed

def toUnsigned (literal : Binary64) : Except LiteralError Nat := do
  let value ← toInteger literal
  if 0 ≤ value then
    return value.toNat
  else
    throw (.outOfRange literal .u64)

/-- Write the bytes of a converted literal to the end of a buffer. -/
def write {α : Type} (encode : α → Bytes) (converted : Except LiteralError α) :
    EStateM LiteralError Bytes Unit := do
  let value ← ofExcept converted
  modify (· ++ encode value)

def writeUnsigned (literal : Binary64) : EStateM LiteralError Bytes Unit :=
  write Leb128.encodeUnsigned (toUnsigned literal)

def writeSigned (literal : Binary64) : EStateM LiteralError Bytes Unit :=
  write Leb128.encodeSigned (toInteger literal)

/-- What is written to an empty buffer. -/
def written (write : EStateM LiteralError Bytes Unit) : Except LiteralError Bytes :=
  match write [] with
  | .ok _ bytes => .ok bytes
  | .error cause _ => .error cause

def encodeUnsigned (literal : Binary64) : Except LiteralError Bytes :=
  written (writeUnsigned literal)

def encodeSigned (literal : Binary64) : Except LiteralError Bytes :=
  written (writeSigned literal)

end Literal
end StructWasm

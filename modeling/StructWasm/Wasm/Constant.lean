import StructWasm.Binary64
import StructWasm.Wasm.Types

/-!
# Constants

A constant of each value type, with the instruction that puts it on the operand
stack. Integers are written in as few bytes as possible, floats as they are.
-/

namespace StructWasm.Wasm

/-- A constant. -/
inductive Constant where
  | i32 (value : Int32)
  | i64 (value : Int64)
  | f32 (value : Binary32)
  | f64 (value : Binary64)
  deriving DecidableEq, Repr

namespace Constant

def type : Constant → ValType
  | i32 _ => .i32
  | i64 _ => .i64
  | f32 _ => .f32
  | f64 _ => .f64

/-- Bytes of the instruction that puts a constant on the operand stack. -/
def encode : Constant → Bytes
  | i32 value => 0x41 :: Leb128.encodeSigned value.toInt
  | i64 value => 0x42 :: Leb128.encodeSigned value.toInt
  | f32 value => 0x43 :: value.bytes
  | f64 value => 0x44 :: value.bytes

end Constant
end StructWasm.Wasm

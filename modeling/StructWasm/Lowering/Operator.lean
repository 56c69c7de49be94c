import StructWasm.Layout.Ty
import StructWasm.Wasm.NumericOp

/-!
# Instructions for operators

The instruction for an operator follows from the type of its operands. Integers
are signed. Booleans can be compared for equality only, and floats have no
remainder.
-/

namespace StructWasm.Lowering

def arithmeticOp? : BinaryOp → Ty → Option Wasm.NumericOp
  | .add, .i32 => some .i32Add
  | .subtract, .i32 => some .i32Sub
  | .multiply, .i32 => some .i32Mul
  | .divide, .i32 => some .i32DivS
  | .remainder, .i32 => some .i32RemS
  | .add, .i64 => some .i64Add
  | .subtract, .i64 => some .i64Sub
  | .multiply, .i64 => some .i64Mul
  | .divide, .i64 => some .i64DivS
  | .remainder, .i64 => some .i64RemS
  | .add, .f32 => some .f32Add
  | .subtract, .f32 => some .f32Sub
  | .multiply, .f32 => some .f32Mul
  | .divide, .f32 => some .f32Div
  | .add, .f64 => some .f64Add
  | .subtract, .f64 => some .f64Sub
  | .multiply, .f64 => some .f64Mul
  | .divide, .f64 => some .f64Div
  | _, _ => none

def comparisonOp? : BinaryOp → Ty → Option Wasm.NumericOp
  | .equal, .i32 => some .i32Eq
  | .equal, .bool => some .i32Eq
  | .notEqual, .i32 => some .i32Ne
  | .notEqual, .bool => some .i32Ne
  | .less, .i32 => some .i32LtS
  | .greater, .i32 => some .i32GtS
  | .lessEqual, .i32 => some .i32LeS
  | .greaterEqual, .i32 => some .i32GeS
  | .equal, .i64 => some .i64Eq
  | .notEqual, .i64 => some .i64Ne
  | .less, .i64 => some .i64LtS
  | .greater, .i64 => some .i64GtS
  | .lessEqual, .i64 => some .i64LeS
  | .greaterEqual, .i64 => some .i64GeS
  | .equal, .f32 => some .f32Eq
  | .notEqual, .f32 => some .f32Ne
  | .less, .f32 => some .f32Lt
  | .greater, .f32 => some .f32Gt
  | .lessEqual, .f32 => some .f32Le
  | .greaterEqual, .f32 => some .f32Ge
  | .equal, .f64 => some .f64Eq
  | .notEqual, .f64 => some .f64Ne
  | .less, .f64 => some .f64Lt
  | .greater, .f64 => some .f64Gt
  | .lessEqual, .f64 => some .f64Le
  | .greaterEqual, .f64 => some .f64Ge
  | _, _ => none

def binaryOp? (op : BinaryOp) (operand : Ty) : Option (Wasm.NumericOp × Ty) :=
  if op.isComparison then
    (comparisonOp? op operand).map fun instr => (instr, .bool)
  else
    (arithmeticOp? op operand).map fun instr => (instr, operand)

end StructWasm.Lowering

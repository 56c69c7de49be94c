import StructWasm.Bytes

/-!
# Numeric instructions

Instructions that take their operands from the operand stack and put one result
there, without anything written beside them.
-/

namespace StructWasm.Wasm

/-- A numeric instruction. -/
inductive NumericOp where
  | i32Eqz
  | i32Eq
  | i32Ne
  | i32LtS
  | i32GtS
  | i32LeS
  | i32GeS
  | i32Add
  | i32Sub
  | i32Mul
  | i32DivS
  | i32RemS
  | i32And
  | i32Or
  | i32Xor
  | i32Shl
  | i32ShrS
  | i64Eqz
  | i64Eq
  | i64Ne
  | i64LtS
  | i64GtS
  | i64LeS
  | i64GeS
  | i64Add
  | i64Sub
  | i64Mul
  | i64DivS
  | i64RemS
  | i64And
  | i64Or
  | i64Xor
  | f32Eq
  | f32Ne
  | f32Lt
  | f32Gt
  | f32Le
  | f32Ge
  | f32Neg
  | f32Sqrt
  | f32Add
  | f32Sub
  | f32Mul
  | f32Div
  | f64Eq
  | f64Ne
  | f64Lt
  | f64Gt
  | f64Le
  | f64Ge
  | f64Neg
  | f64Sqrt
  | f64Add
  | f64Sub
  | f64Mul
  | f64Div
  | i32WrapI64
  | i32TruncF32S
  | i32TruncF64S
  | i64ExtendI32S
  | i64TruncF32S
  | i64TruncF64S
  | f32ConvertI32S
  | f32ConvertI64S
  | f32DemoteF64
  | f64ConvertI32S
  | f64ConvertI64S
  | f64PromoteF32
  deriving DecidableEq, Repr

namespace NumericOp

def all : List NumericOp :=
  [i32Eqz, i32Eq, i32Ne, i32LtS, i32GtS, i32LeS, i32GeS, i32Add, i32Sub, i32Mul,
    i32DivS, i32RemS, i32And, i32Or, i32Xor, i32Shl, i32ShrS, i64Eqz, i64Eq, i64Ne,
    i64LtS, i64GtS, i64LeS, i64GeS, i64Add, i64Sub, i64Mul, i64DivS, i64RemS, i64And,
    i64Or, i64Xor, f32Eq, f32Ne, f32Lt, f32Gt, f32Le, f32Ge, f32Neg, f32Sqrt, f32Add,
    f32Sub, f32Mul, f32Div, f64Eq, f64Ne, f64Lt, f64Gt, f64Le, f64Ge, f64Neg, f64Sqrt,
    f64Add, f64Sub, f64Mul, f64Div, i32WrapI64, i32TruncF32S, i32TruncF64S,
    i64ExtendI32S, i64TruncF32S, i64TruncF64S, f32ConvertI32S, f32ConvertI64S,
    f32DemoteF64, f64ConvertI32S, f64ConvertI64S, f64PromoteF32]

def mnemonic : NumericOp → String
  | i32Eqz => "i32.eqz"
  | i32Eq => "i32.eq"
  | i32Ne => "i32.ne"
  | i32LtS => "i32.lt_s"
  | i32GtS => "i32.gt_s"
  | i32LeS => "i32.le_s"
  | i32GeS => "i32.ge_s"
  | i32Add => "i32.add"
  | i32Sub => "i32.sub"
  | i32Mul => "i32.mul"
  | i32DivS => "i32.div_s"
  | i32RemS => "i32.rem_s"
  | i32And => "i32.and"
  | i32Or => "i32.or"
  | i32Xor => "i32.xor"
  | i32Shl => "i32.shl"
  | i32ShrS => "i32.shr_s"
  | i64Eqz => "i64.eqz"
  | i64Eq => "i64.eq"
  | i64Ne => "i64.ne"
  | i64LtS => "i64.lt_s"
  | i64GtS => "i64.gt_s"
  | i64LeS => "i64.le_s"
  | i64GeS => "i64.ge_s"
  | i64Add => "i64.add"
  | i64Sub => "i64.sub"
  | i64Mul => "i64.mul"
  | i64DivS => "i64.div_s"
  | i64RemS => "i64.rem_s"
  | i64And => "i64.and"
  | i64Or => "i64.or"
  | i64Xor => "i64.xor"
  | f32Eq => "f32.eq"
  | f32Ne => "f32.ne"
  | f32Lt => "f32.lt"
  | f32Gt => "f32.gt"
  | f32Le => "f32.le"
  | f32Ge => "f32.ge"
  | f32Neg => "f32.neg"
  | f32Sqrt => "f32.sqrt"
  | f32Add => "f32.add"
  | f32Sub => "f32.sub"
  | f32Mul => "f32.mul"
  | f32Div => "f32.div"
  | f64Eq => "f64.eq"
  | f64Ne => "f64.ne"
  | f64Lt => "f64.lt"
  | f64Gt => "f64.gt"
  | f64Le => "f64.le"
  | f64Ge => "f64.ge"
  | f64Neg => "f64.neg"
  | f64Sqrt => "f64.sqrt"
  | f64Add => "f64.add"
  | f64Sub => "f64.sub"
  | f64Mul => "f64.mul"
  | f64Div => "f64.div"
  | i32WrapI64 => "i32.wrap_i64"
  | i32TruncF32S => "i32.trunc_f32_s"
  | i32TruncF64S => "i32.trunc_f64_s"
  | i64ExtendI32S => "i64.extend_i32_s"
  | i64TruncF32S => "i64.trunc_f32_s"
  | i64TruncF64S => "i64.trunc_f64_s"
  | f32ConvertI32S => "f32.convert_i32_s"
  | f32ConvertI64S => "f32.convert_i64_s"
  | f32DemoteF64 => "f32.demote_f64"
  | f64ConvertI32S => "f64.convert_i32_s"
  | f64ConvertI64S => "f64.convert_i64_s"
  | f64PromoteF32 => "f64.promote_f32"

def opcode : NumericOp → UInt8
  | i32Eqz => 0x45
  | i32Eq => 0x46
  | i32Ne => 0x47
  | i32LtS => 0x48
  | i32GtS => 0x4A
  | i32LeS => 0x4C
  | i32GeS => 0x4E
  | i32Add => 0x6A
  | i32Sub => 0x6B
  | i32Mul => 0x6C
  | i32DivS => 0x6D
  | i32RemS => 0x6F
  | i32And => 0x71
  | i32Or => 0x72
  | i32Xor => 0x73
  | i32Shl => 0x74
  | i32ShrS => 0x75
  | i64Eqz => 0x50
  | i64Eq => 0x51
  | i64Ne => 0x52
  | i64LtS => 0x53
  | i64GtS => 0x55
  | i64LeS => 0x57
  | i64GeS => 0x59
  | i64Add => 0x7C
  | i64Sub => 0x7D
  | i64Mul => 0x7E
  | i64DivS => 0x7F
  | i64RemS => 0x81
  | i64And => 0x83
  | i64Or => 0x84
  | i64Xor => 0x85
  | f32Eq => 0x5B
  | f32Ne => 0x5C
  | f32Lt => 0x5D
  | f32Gt => 0x5E
  | f32Le => 0x5F
  | f32Ge => 0x60
  | f32Neg => 0x8C
  | f32Sqrt => 0x91
  | f32Add => 0x92
  | f32Sub => 0x93
  | f32Mul => 0x94
  | f32Div => 0x95
  | f64Eq => 0x61
  | f64Ne => 0x62
  | f64Lt => 0x63
  | f64Gt => 0x64
  | f64Le => 0x65
  | f64Ge => 0x66
  | f64Neg => 0x9A
  | f64Sqrt => 0x9F
  | f64Add => 0xA0
  | f64Sub => 0xA1
  | f64Mul => 0xA2
  | f64Div => 0xA3
  | i32WrapI64 => 0xA7
  | i32TruncF32S => 0xA8
  | i32TruncF64S => 0xAA
  | i64ExtendI32S => 0xAC
  | i64TruncF32S => 0xAE
  | i64TruncF64S => 0xB0
  | f32ConvertI32S => 0xB2
  | f32ConvertI64S => 0xB4
  | f32DemoteF64 => 0xB6
  | f64ConvertI32S => 0xB7
  | f64ConvertI64S => 0xB9
  | f64PromoteF32 => 0xBB

end NumericOp
end StructWasm.Wasm

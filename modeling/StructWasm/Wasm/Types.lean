import StructWasm.Leb128

/-!
# Types of the binary format

Value types, signatures of functions and types of blocks, with the bytes that
stand for them.
-/

namespace StructWasm.Wasm

/-- Type of a number on the operand stack. -/
inductive ValType where
  | i32
  | i64
  | f32
  | f64
  deriving DecidableEq, Repr

namespace ValType

def byte : ValType → UInt8
  | i32 => 0x7F
  | i64 => 0x7E
  | f32 => 0x7D
  | f64 => 0x7C

def size : ValType → Nat
  | i32 => 4
  | i64 => 8
  | f32 => 4
  | f64 => 8

/-- Exponent of the natural alignment: the size is `2 ^ alignExponent`. -/
def alignExponent : ValType → Nat
  | i32 => 2
  | i64 => 3
  | f32 => 2
  | f64 => 3

def isFloat : ValType → Bool
  | i32 => false
  | i64 => false
  | f32 => true
  | f64 => true

def name : ValType → String
  | i32 => "i32"
  | i64 => "i64"
  | f32 => "f32"
  | f64 => "f64"

/-- The types in the order in which the locals of a function are grouped. -/
def all : List ValType :=
  [i32, i64, f32, f64]

def ofName? : String → Option ValType
  | "i32" => some i32
  | "i64" => some i64
  | "f32" => some f32
  | "f64" => some f64
  | _ => none

end ValType

/-- Parameters and results of a function. -/
structure FuncType where
  params : List ValType
  results : List ValType
  deriving DecidableEq, Repr

def typeVector (types : List ValType) : Bytes :=
  Leb128.lengthPrefixed (types.map ValType.byte)

def FuncType.encode (type : FuncType) : Bytes :=
  0x60 :: (typeVector type.params ++ typeVector type.results)

/-- What a block leaves on the operand stack. -/
inductive BlockType where
  | empty
  | value (type : ValType)
  deriving DecidableEq, Repr

def BlockType.byte : BlockType → UInt8
  | empty => 0x40
  | value type => type.byte

end StructWasm.Wasm

import StructWasm.Program
import StructWasm.Wasm.Types

/-!
# Types of values

The type of a value is a primitive or a structure. A structure travels as the
address of its bytes.
-/

namespace StructWasm

/-- Type of a value. -/
inductive Ty where
  | i32
  | i64
  | f32
  | f64
  | bool
  | struct (name : String)
  deriving DecidableEq, Repr

namespace Ty

def valType : Ty → Wasm.ValType
  | i32 => .i32
  | i64 => .i64
  | f32 => .f32
  | f64 => .f64
  | bool => .i32
  | struct _ => .i32

def isStruct : Ty → Bool
  | struct _ => true
  | _ => false

def isInteger : Ty → Bool
  | i32 => true
  | i64 => true
  | _ => false

def isFloat : Ty → Bool
  | f32 => true
  | f64 => true
  | _ => false

def isNumeric (type : Ty) : Bool :=
  type.isInteger || type.isFloat

def structName? : Ty → Option String
  | struct name => some name
  | _ => none

def text : Ty → String
  | i32 => "i32"
  | i64 => "i64"
  | f32 => "f32"
  | f64 => "f64"
  | bool => "bool"
  | struct name => name

/-- The primitive type that a written type names; a structure name names none. -/
def primitive? : WrittenType → Option Ty
  | .i32 => some i32
  | .i64 => some i64
  | .f32 => some f32
  | .f64 => some f64
  | .bool => some bool
  | .named _ => none

end Ty

/-- Parameters and result of a function that can be called. -/
structure Signature where
  params : List Ty
  result : Option Ty
  deriving DecidableEq, Repr

namespace Signature

/-- The signature in the module. A structure result becomes a first parameter:
the address at which to put it. -/
def wasmType (signature : Signature) : Wasm.FuncType :=
  let params := signature.params.map Ty.valType
  match signature.result with
  | none => { params, results := [] }
  | some type =>
    if type.isStruct then
      { params := .i32 :: params, results := [] }
    else
      { params, results := [type.valType] }

def hasStruct (signature : Signature) : Bool :=
  signature.params.any Ty.isStruct || signature.result.any Ty.isStruct

end Signature
end StructWasm

import Mathlib
import StructWasm.Wasm.Instr

/-!
# Validation of code

The validation rules of the binary format: an instruction takes operands from the
operand stack and leaves others there. Code after an instruction that never goes on
may assume any stack. A structured instruction sees nothing of the stack around it,
and a branch to it needs the operands that its label takes.

Stacks are written with the top first.
-/

namespace StructWasm.Wasm

/-- Types of the operands on the stack, the top first. -/
abbrev StackType := List ValType

/-- What validation knows of the things that code refers to. -/
structure Surroundings (refs : Refs) where
  /-- Type of a local. -/
  localType? : refs.localVar → Option ValType
  /-- Type of a global, and whether it can be set. -/
  globalType? : refs.globalVar → Option (ValType × Bool)
  /-- Type of a function. -/
  functionType? : refs.function → Option FuncType
  /-- Whether the address of a place is known. -/
  isPlaced : refs.base → Bool
  /-- Whether there is a memory. -/
  hasMemory : Bool
  /-- Results of the function that the code is in. -/
  results : List ValType

/-- The types of locals that are declared in groups. -/
def expandGroups (groups : List (Nat × ValType)) : List ValType :=
  groups.flatMap fun group => List.replicate group.1 group.2

/-- What a block leaves on the stack. -/
def BlockType.results : BlockType → StackType
  | .empty => []
  | .value type => [type]

/-- Operands, the top first, and result of a numeric instruction. -/
def NumericOp.signature : NumericOp → StackType × ValType
  | i32Eqz => ([.i32], .i32)
  | i32Eq | i32Ne | i32LtS | i32GtS | i32LeS | i32GeS => ([.i32, .i32], .i32)
  | i32Add | i32Sub | i32Mul | i32DivS | i32RemS => ([.i32, .i32], .i32)
  | i32And | i32Or | i32Xor | i32Shl | i32ShrS => ([.i32, .i32], .i32)
  | i64Eqz => ([.i64], .i32)
  | i64Eq | i64Ne | i64LtS | i64GtS | i64LeS | i64GeS => ([.i64, .i64], .i32)
  | i64Add | i64Sub | i64Mul | i64DivS | i64RemS => ([.i64, .i64], .i64)
  | i64And | i64Or | i64Xor => ([.i64, .i64], .i64)
  | f32Eq | f32Ne | f32Lt | f32Gt | f32Le | f32Ge => ([.f32, .f32], .i32)
  | f32Neg | f32Sqrt => ([.f32], .f32)
  | f32Add | f32Sub | f32Mul | f32Div => ([.f32, .f32], .f32)
  | f64Eq | f64Ne | f64Lt | f64Gt | f64Le | f64Ge => ([.f64, .f64], .i32)
  | f64Neg | f64Sqrt => ([.f64], .f64)
  | f64Add | f64Sub | f64Mul | f64Div => ([.f64, .f64], .f64)
  | i32WrapI64 => ([.i64], .i32)
  | i32TruncF32S => ([.f32], .i32)
  | i32TruncF64S => ([.f64], .i32)
  | i64ExtendI32S => ([.i32], .i64)
  | i64TruncF32S => ([.f32], .i64)
  | i64TruncF64S => ([.f64], .i64)
  | f32ConvertI32S => ([.i32], .f32)
  | f32ConvertI64S => ([.i64], .f32)
  | f32DemoteF64 => ([.f64], .f32)
  | f64ConvertI32S => ([.i32], .f64)
  | f64ConvertI64S => ([.i64], .f64)
  | f64PromoteF32 => ([.f32], .f64)

variable {refs : Refs}

/-- An offset can be worked out. -/
def Surroundings.Knows (around : Surroundings refs) (offset : Offset refs.base) : Prop :=
  ∀ place, offset.base? = some place → around.isPlaced place = true

theorem Surroundings.knows_ofBase {around : Surroundings refs}
    (placed : around.isPlaced place = true) : around.Knows (.ofBase place) := by
  rintro _ ⟨⟩
  exact placed

/-- An access to memory is not aligned to more than the bytes that it takes. -/
def MemArg.AlignedFor (arg : MemArg refs.base) (type : ValType) : Prop :=
  2 ^ arg.alignExponent ≤ type.size

mutual

/-- An instruction turns a stack into another. The labels are those of the blocks
around it, the nearest first. -/
inductive InstrTyped (around : Surroundings refs) :
    List StackType → Instr refs → StackType → StackType → Prop where
  | block {labels body stack} {type : BlockType} :
      CodeTyped around (type.results :: labels) body [] type.results →
      InstrTyped around labels (.block type body) stack (type.results ++ stack)
  | loop {labels body stack} {type : BlockType} :
      CodeTyped around ([] :: labels) body [] type.results →
      InstrTyped around labels (.loop type body) stack (type.results ++ stack)
  | ifElse {labels thenBody elseBody stack} {type : BlockType} :
      CodeTyped around (type.results :: labels) thenBody [] type.results →
      CodeTyped around (type.results :: labels) elseBody [] type.results →
      InstrTyped around labels (.ifElse type thenBody elseBody) (.i32 :: stack)
        (type.results ++ stack)
  | branch {labels depth types stack after} :
      labels[depth]? = some types →
      InstrTyped around labels (.branch depth) (types ++ stack) after
  | branchIf {labels depth types stack} :
      labels[depth]? = some types →
      InstrTyped around labels (.branchIf depth) (.i32 :: (types ++ stack)) (types ++ stack)
  | leave {labels stack after} :
      InstrTyped around labels .leave (around.results.reverse ++ stack) after
  | unreachable {labels before after} :
      InstrTyped around labels .unreachable before after
  | nop {labels stack} :
      InstrTyped around labels .nop stack stack
  | drop {labels type stack} :
      InstrTyped around labels .drop (type :: stack) stack
  | select {labels type stack} :
      InstrTyped around labels .select (.i32 :: type :: type :: stack) (type :: stack)
  | numeric {labels stack} {op : NumericOp} :
      InstrTyped around labels (.numeric op) (op.signature.1 ++ stack) (op.signature.2 :: stack)
  | load {labels type stack} {arg : MemArg refs.base} :
      around.hasMemory = true → arg.AlignedFor type → around.Knows arg.offset →
      InstrTyped around labels (.load type arg) (.i32 :: stack) (type :: stack)
  | store {labels type stack} {arg : MemArg refs.base} :
      around.hasMemory = true → arg.AlignedFor type → around.Knows arg.offset →
      InstrTyped around labels (.store type arg) (type :: .i32 :: stack) stack
  | localGet {labels name type stack} :
      around.localType? name = some type →
      InstrTyped around labels (.localGet name) stack (type :: stack)
  | localSet {labels name type stack} :
      around.localType? name = some type →
      InstrTyped around labels (.localSet name) (type :: stack) stack
  | localTee {labels name type stack} :
      around.localType? name = some type →
      InstrTyped around labels (.localTee name) (type :: stack) (type :: stack)
  | globalGet {labels name type isMutable stack} :
      around.globalType? name = some (type, isMutable) →
      InstrTyped around labels (.globalGet name) stack (type :: stack)
  | globalSet {labels name type stack} :
      around.globalType? name = some (type, true) →
      InstrTyped around labels (.globalSet name) (type :: stack) stack
  | const {labels stack} {value : Constant} :
      InstrTyped around labels (.const value) stack (value.type :: stack)
  | offsetConst {labels offset stack} :
      around.Knows offset →
      InstrTyped around labels (.offsetConst offset) stack (.i32 :: stack)
  | call {labels name stack} {type : FuncType} :
      around.functionType? name = some type →
      InstrTyped around labels (.call name) (type.params.reverse ++ stack)
        (type.results.reverse ++ stack)

/-- Code turns a stack into another, instruction by instruction. -/
inductive CodeTyped (around : Surroundings refs) :
    List StackType → List (Instr refs) → StackType → StackType → Prop where
  | nil {labels stack} :
      CodeTyped around labels [] stack stack
  | cons {labels instr rest before mid after} :
      InstrTyped around labels instr before mid →
      CodeTyped around labels rest mid after →
      CodeTyped around labels (instr :: rest) before after

end

namespace CodeTyped

variable {after : StackType}

theorem append (firstTyped : CodeTyped around labels first before mid)
    (secondTyped : CodeTyped around labels second mid after) :
    CodeTyped around labels (first ++ second) before after := by
  induction first generalizing before with
  | nil =>
    cases firstTyped
    exact secondTyped
  | cons instr rest ih =>
    cases firstTyped with
    | cons head tail => exact .cons head (ih tail)

theorem singleton (typed : InstrTyped around labels instr before after) :
    CodeTyped around labels [instr] before after :=
  .cons typed .nil

end CodeTyped

theorem MemArg.alignedFor_natural (type : ValType) (offset : Offset refs.base) :
    (MemArg.natural type offset).AlignedFor type := by
  cases type <;> simp [AlignedFor, natural, ValType.alignExponent, ValType.size]

end StructWasm.Wasm

import StructWasm.Proofs.Wasm.Typing
import StructWasm.Wasm.Encoding

/-!
# Execution of code

The stack machine for code that does not repeat, does not leave a block early, calls
nothing and leaves the memory alone, over integers only. Words are in two's
complement: a result that does not fit wraps around. A division by zero traps, and so
does the one division whose quotient does not fit. Locals, globals and numbers of the
frame are looked up as they are when the code is encoded.
-/

namespace StructWasm

/-- Why a run ends early. -/
inductive Halt where
  /-- A trap. -/
  | trap
  /-- There is no rule for what comes next. -/
  | stuck
  deriving DecidableEq, Repr

namespace Wasm

/-- The state of a function that is executed. -/
structure Machine where
  /-- The operands, the top first. -/
  stack : List Constant
  /-- The locals, by index. -/
  locals : List Constant
  /-- The globals, by index. -/
  globals : List Constant
  deriving DecidableEq, Repr

/-! ## Numeric instructions -/

def truthWord (holds : Bool) : Constant :=
  .i32 (if holds then 1 else 0)

/-- The quotient of two words, rounded towards zero. -/
def quotient {word : Type} [DecidableEq word] [Div word] [Neg word] [OfNat word 0]
    [OfNat word 1] (least left right : word) : Except Halt word :=
  if right = 0 ∨ left = least ∧ right = -1 then .error .trap else .ok (left / right)

/-- The remainder of two words, with the sign of the first. -/
def remainder {word : Type} [DecidableEq word] [Mod word] [OfNat word 0]
    (left right : word) : Except Halt word :=
  if right = 0 then .error .trap else .ok (left % right)

/-- What a numeric instruction does to the operands. -/
def NumericOp.execute : NumericOp → List Constant → Except Halt (List Constant)
  | i32Eqz, .i32 value :: rest => .ok (truthWord (value = 0) :: rest)
  | i32Eq, .i32 right :: .i32 left :: rest => .ok (truthWord (left = right) :: rest)
  | i32Ne, .i32 right :: .i32 left :: rest => .ok (truthWord (left ≠ right) :: rest)
  | i32LtS, .i32 right :: .i32 left :: rest => .ok (truthWord (left < right) :: rest)
  | i32GtS, .i32 right :: .i32 left :: rest => .ok (truthWord (right < left) :: rest)
  | i32LeS, .i32 right :: .i32 left :: rest => .ok (truthWord (left ≤ right) :: rest)
  | i32GeS, .i32 right :: .i32 left :: rest => .ok (truthWord (right ≤ left) :: rest)
  | i32Add, .i32 right :: .i32 left :: rest => .ok (.i32 (left + right) :: rest)
  | i32Sub, .i32 right :: .i32 left :: rest => .ok (.i32 (left - right) :: rest)
  | i32Mul, .i32 right :: .i32 left :: rest => .ok (.i32 (left * right) :: rest)
  | i32DivS, .i32 right :: .i32 left :: rest => do
      return .i32 (← quotient Int32.minValue left right) :: rest
  | i32RemS, .i32 right :: .i32 left :: rest => do return .i32 (← remainder left right) :: rest
  | i32And, .i32 right :: .i32 left :: rest => .ok (.i32 (left &&& right) :: rest)
  | i32Or, .i32 right :: .i32 left :: rest => .ok (.i32 (left ||| right) :: rest)
  | i32Xor, .i32 right :: .i32 left :: rest => .ok (.i32 (left ^^^ right) :: rest)
  | i32Shl, .i32 right :: .i32 left :: rest => .ok (.i32 (left <<< right) :: rest)
  | i32ShrS, .i32 right :: .i32 left :: rest => .ok (.i32 (left >>> right) :: rest)
  | i64Eqz, .i64 value :: rest => .ok (truthWord (value = 0) :: rest)
  | i64Eq, .i64 right :: .i64 left :: rest => .ok (truthWord (left = right) :: rest)
  | i64Ne, .i64 right :: .i64 left :: rest => .ok (truthWord (left ≠ right) :: rest)
  | i64LtS, .i64 right :: .i64 left :: rest => .ok (truthWord (left < right) :: rest)
  | i64GtS, .i64 right :: .i64 left :: rest => .ok (truthWord (right < left) :: rest)
  | i64LeS, .i64 right :: .i64 left :: rest => .ok (truthWord (left ≤ right) :: rest)
  | i64GeS, .i64 right :: .i64 left :: rest => .ok (truthWord (right ≤ left) :: rest)
  | i64Add, .i64 right :: .i64 left :: rest => .ok (.i64 (left + right) :: rest)
  | i64Sub, .i64 right :: .i64 left :: rest => .ok (.i64 (left - right) :: rest)
  | i64Mul, .i64 right :: .i64 left :: rest => .ok (.i64 (left * right) :: rest)
  | i64DivS, .i64 right :: .i64 left :: rest => do
      return .i64 (← quotient Int64.minValue left right) :: rest
  | i64RemS, .i64 right :: .i64 left :: rest => do return .i64 (← remainder left right) :: rest
  | i64And, .i64 right :: .i64 left :: rest => .ok (.i64 (left &&& right) :: rest)
  | i64Or, .i64 right :: .i64 left :: rest => .ok (.i64 (left ||| right) :: rest)
  | i64Xor, .i64 right :: .i64 left :: rest => .ok (.i64 (left ^^^ right) :: rest)
  | i32WrapI64, .i64 value :: rest => .ok (.i32 value.toInt32 :: rest)
  | i64ExtendI32S, .i32 value :: rest => .ok (.i64 value.toInt64 :: rest)
  | _, _ => .error .stuck

/-! ## Instructions -/

variable {refs : Refs}

/-- A number that has to be known. -/
def known (looked : Except Fault Nat) : Except Halt Nat :=
  looked.mapError fun _ => .stuck

def fetch (values : List Constant) (index : Nat) : Except Halt Constant :=
  match values[index]? with
  | some value => .ok value
  | none => .error .stuck

def put (values : List Constant) (index : Nat) (value : Constant) :
    Except Halt (List Constant) :=
  if index < values.length then .ok (values.set index value) else .error .stuck

/-- Leave a block with what it is to leave on the stack. -/
def leaveBlock (type : BlockType) (around : List Constant) (machine : Machine) :
    Except Halt Machine :=
  if machine.stack.map Constant.type = type.results then
    .ok { machine with stack := machine.stack ++ around }
  else
    .error .stuck

mutual

/-- Execute an instruction. A block starts with no operands of its own. -/
def Instr.execute (resolver : Resolver refs) : Instr refs → Machine → Except Halt Machine
  | .ifElse type thenBody elseBody, machine =>
    match machine.stack with
    | .i32 condition :: around =>
      if condition = 0 then do
        leaveBlock type around (← executeCode resolver elseBody { machine with stack := [] })
      else do
        leaveBlock type around (← executeCode resolver thenBody { machine with stack := [] })
    | _ => .error .stuck
  | .unreachable, _ => .error .trap
  | .nop, machine => .ok machine
  | .drop, machine =>
    match machine.stack with
    | _ :: rest => .ok { machine with stack := rest }
    | [] => .error .stuck
  | .select, machine =>
    match machine.stack with
    | .i32 condition :: second :: first :: rest =>
      .ok { machine with stack := (if condition = 0 then second else first) :: rest }
    | _ => .error .stuck
  | .numeric op, machine => do return { machine with stack := ← op.execute machine.stack }
  | .localGet name, machine => do
      let value ← fetch machine.locals (← known (resolver.localIndex name))
      return { machine with stack := value :: machine.stack }
  | .localSet name, machine =>
    match machine.stack with
    | value :: rest => do
        let locals ← put machine.locals (← known (resolver.localIndex name)) value
        return { machine with stack := rest, locals }
    | [] => .error .stuck
  | .localTee name, machine =>
    match machine.stack with
    | value :: _ => do
        let locals ← put machine.locals (← known (resolver.localIndex name)) value
        return { machine with locals }
    | [] => .error .stuck
  | .globalGet name, machine => do
      let value ← fetch machine.globals (← known (resolver.globalIndex name))
      return { machine with stack := value :: machine.stack }
  | .globalSet name, machine =>
    match machine.stack with
    | value :: rest => do
        let globals ← put machine.globals (← known (resolver.globalIndex name)) value
        return { machine with stack := rest, globals }
    | [] => .error .stuck
  | .const value, machine => .ok { machine with stack := value :: machine.stack }
  | .offsetConst offset, machine => do
      let value ← known (offset.value resolver.base)
      return { machine with stack := .i32 (Int32.ofNat value) :: machine.stack }
  | _, _ => .error .stuck

/-- Execute instructions one after the other. -/
def executeCode (resolver : Resolver refs) : List (Instr refs) → Machine → Except Halt Machine
  | [], machine => .ok machine
  | instr :: rest, machine => do executeCode resolver rest (← instr.execute resolver machine)

end

/-- The value of a local before it is set. -/
def ValType.zero : ValType → Constant
  | i32 => .i32 0
  | i64 => .i64 0
  | f32 => .f32 ⟨0⟩
  | f64 => .f64 ⟨0⟩

/-- Call a function: what it leaves on the stack, and the globals afterwards. -/
def FunctionBody.call (resolver : Resolver refs) (body : FunctionBody refs)
    (arguments globals : List Constant) : Except Halt (List Constant × List Constant) :=
  let ended := executeCode resolver body.code
    { stack := []
      locals := arguments ++ (expandGroups body.locals).map ValType.zero
      globals }
  ended.map fun machine => (machine.stack, machine.globals)

theorem executeCode_append (resolver : Resolver refs) (first second : List (Instr refs))
    (machine : Machine) : executeCode resolver (first ++ second) machine =
      executeCode resolver first machine >>= executeCode resolver second := by
  induction first generalizing machine with
  | nil => rfl
  | cons instr rest ih =>
    rw [List.cons_append, executeCode, executeCode, bind_assoc]
    exact bind_congr ih

theorem executeCode_singleton (resolver : Resolver refs) (instr : Instr refs) (machine : Machine) :
    executeCode resolver [instr] machine = instr.execute resolver machine := by
  rw [executeCode]
  exact bind_pure _

/-! ## Code without floats -/

/-- Whether a numeric instruction takes or leaves floats. -/
def NumericOp.usesFloat (op : NumericOp) : Bool :=
  op.signature.2.isFloat || op.signature.1.any ValType.isFloat

mutual

/-- Whether there is an instruction for floats. -/
def Instr.usesFloat : Instr refs → Bool
  | .block _ body => codeUsesFloat body
  | .loop _ body => codeUsesFloat body
  | .ifElse _ thenBody elseBody => codeUsesFloat thenBody || codeUsesFloat elseBody
  | .numeric op => op.usesFloat
  | .load type _ => type.isFloat
  | .store type _ => type.isFloat
  | .const value => value.type.isFloat
  | _ => false

/-- Whether there is an instruction for floats in code. -/
def codeUsesFloat : List (Instr refs) → Bool
  | [] => false
  | instr :: rest => instr.usesFloat || codeUsesFloat rest

end

theorem codeUsesFloat_append (first second : List (Instr refs)) :
    codeUsesFloat (first ++ second) = (codeUsesFloat first || codeUsesFloat second) := by
  induction first with
  | nil => rfl
  | cons instr rest ih =>
    rw [List.cons_append, codeUsesFloat, codeUsesFloat, ih, Bool.or_assoc]

theorem floatFree_append {first second : List (Instr refs)} :
    codeUsesFloat (first ++ second) = false ↔
      codeUsesFloat first = false ∧ codeUsesFloat second = false := by
  rw [codeUsesFloat_append, Bool.or_eq_false_iff]

end Wasm
end StructWasm

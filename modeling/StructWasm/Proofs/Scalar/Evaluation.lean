import StructWasm.Lowering.Expression
import StructWasm.Proofs.Wasm.Execution

/-!
# Evaluation of scalar programs

What a function without calls, loops, early returns and structures means, told from
its syntax alone. Evaluation goes from left to right. Integers are numbers of their
type, and arithmetic is done on unbounded integers and then brought back into the
type. A number literal has the type that its context wants.

A block has a scope of its own: a name stands for its latest declaration in the
innermost scope that has one, and a variable ends with the block that declares it.
-/

namespace StructWasm

/-! ## Values -/

/-- A value of a primitive type without fractions. -/
inductive Scalar where
  | i32 (value : Int32)
  | i64 (value : Int64)
  | bool (value : Bool)
  deriving DecidableEq, Repr

namespace Scalar

def type : Scalar → Ty
  | i32 _ => .i32
  | i64 _ => .i64
  | bool _ => .bool

/-- The word that a value travels as. -/
def word : Scalar → Wasm.Constant
  | i32 value => .i32 value
  | i64 value => .i64 value
  | bool value => Wasm.truthWord value

/-- An integer as a number of a type, if it is one. -/
def ofInt? (value : Int) : Ty → Option Scalar
  | .i32 => if -2 ^ 31 ≤ value ∧ value < 2 ^ 31 then some (.i32 (Int32.ofInt value)) else none
  | .i64 => if -2 ^ 63 ≤ value ∧ value < 2 ^ 63 then some (.i64 (Int64.ofInt value)) else none
  | _ => none

/-- The negative of a number. -/
def negative : Scalar → Except Halt Scalar
  | i32 value => .ok (.i32 (Int32.ofInt (-value.toInt)))
  | i64 value => .ok (.i64 (Int64.ofInt (-value.toInt)))
  | bool _ => .error .stuck

end Scalar

/-- What a number literal stands for where a type is wanted. -/
def literalScalar (number? : Option Int) (want : Option Ty) : Except Halt Scalar :=
  match number?.bind fun number => Scalar.ofInt? number (want.getD .i32) with
  | some value => .ok value
  | none => .error .stuck

namespace BinaryOp

/-- What an arithmetic operator gives for signed integers of a width, before it is
brought back into the width. -/
def compute (width : Nat) : BinaryOp → Int → Int → Except Halt Int
  | add, left, right => .ok (left + right)
  | subtract, left, right => .ok (left - right)
  | multiply, left, right => .ok (left * right)
  | divide, left, right =>
    if right = 0 ∨ left.tdiv right = 2 ^ (width - 1) then
      .error .trap
    else
      .ok (left.tdiv right)
  | remainder, left, right => if right = 0 then .error .trap else .ok (left.tmod right)
  | _, _, _ => .error .stuck

/-- Whether a comparison holds. -/
def holds : BinaryOp → Int → Int → Bool
  | equal, left, right => left = right
  | notEqual, left, right => left ≠ right
  | less, left, right => left < right
  | greater, left, right => left > right
  | lessEqual, left, right => left ≤ right
  | greaterEqual, left, right => left ≥ right
  | _, _, _ => false

/-- What an operator that looks at both of its operands gives. -/
def apply (op : BinaryOp) : Scalar → Scalar → Except Halt Scalar
  | .i32 left, .i32 right =>
    if op.isComparison then
      .ok (.bool (op.holds left.toInt right.toInt))
    else
      (op.compute 32 left.toInt right.toInt).map fun result => .i32 (Int32.ofInt result)
  | .i64 left, .i64 right =>
    if op.isComparison then
      .ok (.bool (op.holds left.toInt right.toInt))
    else
      (op.compute 64 left.toInt right.toInt).map fun result => .i64 (Int64.ofInt result)
  | .bool left, .bool right =>
    match op with
    | equal => .ok (.bool (left == right))
    | notEqual => .ok (.bool (left != right))
    | _ => .error .stuck
  | _, _ => .error .stuck

end BinaryOp

/-! ## Variables -/

/-- The values of the variables in scope, innermost scope and latest name first. -/
abbrev Environment := List (List (String × Scalar))

namespace Environment

def value? (env : Environment) (name : String) : Option Scalar :=
  env.findSome? fun scope => scope.lookup name

/-- Enter a variable in the innermost scope. -/
def declare (env : Environment) (name : String) (value : Scalar) : Environment :=
  match env with
  | [] => []
  | scope :: outer => ((name, value) :: scope) :: outer

/-- Give a variable of a scope another value. -/
def assignIn (name : String) (value : Scalar) : List (String × Scalar) → List (String × Scalar)
  | [] => []
  | (other, held) :: rest =>
    if name == other then (other, value) :: rest else (other, held) :: assignIn name value rest

/-- Give a variable another value. -/
def assign? (name : String) (value : Scalar) : Environment → Option Environment
  | [] => none
  | scope :: outer =>
    if (scope.lookup name).isSome then
      some (assignIn name value scope :: outer)
    else
      (assign? name value outer).map fun changed => scope :: changed

def types (env : Environment) : Lowering.TypeEnv :=
  { layouts := .empty
    variableType? := fun name => (env.value? name).map Scalar.type
    resultType? := fun _ => none }

end Environment

abbrev Eval := StateT Environment (Except Halt)

namespace Eval

/-- End early if an operation did. -/
def check {α : Type} (outcome : Except Halt α) : Eval α :=
  fun env => outcome.map fun value => (value, env)

/-- A value that has to be there. -/
def given : Option Scalar → Eval Scalar
  | some value => pure value
  | none => throw .stuck

/-- A truth value that has to be there. -/
def truth : Option Scalar → Eval Bool
  | some (.bool value) => pure value
  | _ => throw .stuck

/-- Go on with variables that have to be there. -/
def goOnWith : Option Environment → Eval PUnit
  | some changed => set changed
  | none => throw .stuck

/-- Give a variable another value. -/
def assign (name : String) (value : Scalar) : Eval PUnit :=
  get >>= fun env => goOnWith (Environment.assign? name value env)

end Eval

/-! ## Types that contexts want -/

namespace Lowering.TypeEnv

/-- The type that is wanted of the left operand of an operator. -/
def operandHint? (types : TypeEnv) (op : BinaryOp) (want : Option Ty)
    (left right : Expr) : Option Ty :=
  match if op.isComparison then none else numericHint want with
  | some type => some type
  | none =>
    match staticType? types left with
    | some type => some type
    | none => staticType? types right

/-- The type that is wanted of the operand of a negation. -/
def negationHint? (types : TypeEnv) (want : Option Ty) (operand : Expr) : Option Ty :=
  match numericHint want with
  | some type => some type
  | none => staticType? types operand

/-- The type that is wanted of the parts of a choice. A choice without a second part
gives nothing. -/
def armHint? (types : TypeEnv) (want : Option Ty) (choice : Choice) : Option Ty :=
  if choice.otherwise.isNone then
    none
  else
    match want with
    | some type => some type
    | none => choiceType? types choice

end Lowering.TypeEnv

/-! ## Evaluation -/

mutual

/-- Evaluate an expression where a type is wanted. -/
def Expr.eval : Expr → Option Ty → Eval (Option Scalar)
  | .number _ value, want => do
      return some (← Eval.check (literalScalar value.integer? want))
  | .bool _ value, _ => return some (.bool value)
  | .var _ name, _ => do return some (← Eval.given ((← get).value? name))
  | .binary _ left .and right, _ => do
      if ← Eval.truth (← left.eval (some .bool)) then
        return some (.bool (← Eval.truth (← right.eval (some .bool))))
      else
        return some (.bool false)
  | .binary _ left .or right, _ => do
      if ← Eval.truth (← left.eval (some .bool)) then
        return some (.bool true)
      else
        return some (.bool (← Eval.truth (← right.eval (some .bool))))
  | .binary _ left op right, want => do
      let hint := (← get).types.operandHint? op want left right
      let first ← Eval.given (← left.eval hint)
      let second ← Eval.given (← right.eval (some first.type))
      return some (← Eval.check (op.apply first second))
  | .not _ operand, _ => do
      return some (.bool (!(← Eval.truth (← operand.eval (some .bool)))))
  | .negate _ (.number _ value), want => do
      return some (← Eval.check (literalScalar (value.integer?.map fun number => -number) want))
  | .negate _ operand, want => do
      let hint := (← get).types.negationHint? want operand
      let value ← Eval.given (← operand.eval hint)
      return some (← Eval.check value.negative)
  | .choice _ choice, want => choice.eval want
  | .block _ block, want => block.eval want
  | .parens _ inner, want => inner.eval want
  | _, _ => throw .stuck

/-- Evaluate a choice: the condition, and then one of the parts. -/
def Choice.eval : Choice → Option Ty → Eval (Option Scalar)
  | { condition, thenBlock, otherwise, span }, want => do
      let decided ← Eval.truth (← condition.eval (some .bool))
      let hint := (← get).types.armHint? want { condition, thenBlock, otherwise, span }
      if decided then
        let value ← thenBlock.eval hint
        return if otherwise.isNone then none else value
      else
        evalAlternative otherwise hint

/-- Evaluate the second part of a choice. -/
def evalAlternative : Option Alternative → Option Ty → Eval (Option Scalar)
  | none, _ => return none
  | some (.block block), want => block.eval want
  | some (.choice choice), want => choice.eval want

/-- Evaluate a block in a scope of its own. -/
def Block.eval : Block → Option Ty → Eval (Option Scalar)
  | { statements, tail, .. }, want => do
      modify fun env => [] :: env
      evalStatements statements
      let value ← evalTail tail want
      modify List.tail
      return value

/-- Evaluate the value of a block. -/
def evalTail : Option Expr → Option Ty → Eval (Option Scalar)
  | none, _ => return none
  | some tail, want => tail.eval want

/-- Evaluate statements one after the other. -/
def evalStatements : List Stmt → Eval Unit
  | [] => return ()
  | statement :: rest => do
      statement.eval
      evalStatements rest

def Stmt.eval : Stmt → Eval Unit
  | .declare _ name type (some initial) => do
      let value ← Eval.given (← initial.eval (type.bind fun note => Ty.primitive? note.type))
      modify fun env => env.declare name.name value
  | .assign _ [name] value => do
      let held ← Eval.given ((← get).value? name.name)
      let result ← Eval.given (← value.eval (some held.type))
      match Environment.assign? name.name result (← get) with
      | some env => set env
      | none => throw .stuck
  | .evaluate _ value => do
      let _ ← value.eval none
  | _ => throw .stuck

end

/-- What a function gives for arguments. The latest of several parameters of one name
counts. -/
def FunctionDecl.eval (decl : FunctionDecl) (result : Option Ty)
    (arguments : List Scalar) : Except Halt (Option Scalar) :=
  let names := decl.params.map fun param => param.name.name
  Prod.fst <$> (decl.body.eval result).run [(names.zip arguments).reverse]

/-! ## Scalar programs -/

/-- Whether values of a type are booleans or integers. -/
def Ty.isWord : Ty → Bool
  | i32 => true
  | i64 => true
  | bool => true
  | _ => false

/-- Whether a written type is one of booleans or integers. -/
def TypeNote.isWord (note : TypeNote) : Bool :=
  (Ty.primitive? note.type).any Ty.isWord

mutual

/-- Whether an expression is made of literals, variables, operators, choices and
blocks. -/
def Expr.isScalar : Expr → Bool
  | .number _ _ => true
  | .bool _ _ => true
  | .var _ _ => true
  | .binary _ left _ right => left.isScalar && right.isScalar
  | .negate _ operand => operand.isScalar
  | .not _ operand => operand.isScalar
  | .choice _ choice => choice.isScalar
  | .block _ block => block.isScalar
  | .parens _ inner => inner.isScalar
  | _ => false

/-- Whether the parts of a choice are scalar. -/
def Choice.isScalar : Choice → Bool
  | { condition, thenBlock, otherwise, .. } =>
    condition.isScalar && thenBlock.isScalar && alternativeIsScalar otherwise

/-- Whether the second part of a choice is scalar. -/
def alternativeIsScalar : Option Alternative → Bool
  | none => true
  | some (.block block) => block.isScalar
  | some (.choice choice) => choice.isScalar

/-- Whether the parts of a block are scalar. -/
def Block.isScalar : Block → Bool
  | { statements, tail, .. } => statementsAreScalar statements && tailIsScalar tail

/-- Whether the value of a block is scalar. -/
def tailIsScalar : Option Expr → Bool
  | none => true
  | some tail => tail.isScalar

/-- Whether statements are scalar. -/
def statementsAreScalar : List Stmt → Bool
  | [] => true
  | statement :: rest => statement.isScalar && statementsAreScalar rest

/-- Whether a statement declares or assigns a scalar variable, or drops a value. -/
def Stmt.isScalar : Stmt → Bool
  | .declare _ _ type (some initial) => type.all TypeNote.isWord && initial.isScalar
  | .assign _ [_] value => value.isScalar
  | .evaluate _ value => value.isScalar
  | _ => false

end

end StructWasm

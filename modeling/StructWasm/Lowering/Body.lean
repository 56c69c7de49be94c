import StructWasm.Lowering.Arms
import StructWasm.Lowering.Expression
import StructWasm.Lowering.Statement

/-!
# Lowering of expressions and blocks

Lowering goes through a function body once, in the order of evaluation. An
expression is lowered with the type that its context wants, which gives number
literals their types. It gives code and says what the code leaves behind.

The arms of a choice are lowered one after the other, each with copies of the
ownership of all variables and under one checkpoint of the frame. A structure
that both arms give lives in one slot that they share.
-/

namespace StructWasm.Lowering

mutual

def lowerExpr : Expr → Option Ty → Emit (Code × Value)
  | .number span value, expected => lowerNumber value expected span
  | .bool _ value, _ => return ([.const (.i32 (if value then 1 else 0))], .scalar .bool)
  | .literal span name fields, _ => do
      let layout ← literalLayout span name (fields.map FieldInit.name)
      let type := Ty.struct layout.name
      let (slot, address) ← allocateStruct type
      let code ← lowerFields layout address fields
      return (code, Temporary.value { type, address, slot })
  | .var span name, _ => lowerVariable name span
  | .call _ name arguments, _ => do
      let signature ← requestCallee name arguments.length
      let result? ← resultSlot signature
      let (code, slots) ← lowerArguments arguments signature.params
      slots.forM release
      let target := (result?.map fun temporary => temporary.address.push).getD []
      return (target ++ code ++ [.call name.name], callValue signature result?)
  | .field span object field, _ => do
      let (code, value) ← lowerExpr object none
      let (more, part) ← readField value object.span field span
      return (code ++ more, part)
  | .binary _ left op right, expected => do
      if op == .and || op == .or then
        let (leftCode, leftValue) ← lowerExpr left (some .bool)
        expectScalar leftValue .bool left.span
        let saved ← fork none
        let (rightCode, rightValue) ← lowerExpr right (some .bool)
        expectScalar rightValue .bool right.span
        joinOptional saved
        return (leftCode ++ logicalCode op rightCode, .scalar .bool)
      else
        let hint ← operandHint op expected left right
        let (leftCode, leftValue) ← lowerExpr left hint
        let type ← operandType op leftValue left.span
        let (rightCode, rightValue) ← lowerExpr right (some type)
        expectScalar rightValue type right.span
        let (instr, result) ← operatorFor op type (left.span.merge right.span)
        return (leftCode ++ rightCode ++ [.numeric instr], .scalar result)
  | .not _ operand, _ => do
      let (code, value) ← lowerExpr operand (some .bool)
      expectScalar value .bool operand.span
      return (code ++ [.numeric .i32Eqz], .scalar .bool)
  | .negate span (.number _ value), expected => lowerNumber value.negate expected span
  | .negate _ operand, expected => do
      let hint ← negationHint expected operand
      let (code, value) ← lowerExpr operand hint
      negate code value operand.span
  | .choice _ choice, expected => lowerChoice choice expected
  | .block _ block, expected => lowerBlock block expected
  | .parens _ inner, expected => lowerExpr inner expected
termination_by structural expr => expr

/-- Lower the values of a structure literal and put them in their places. -/
def lowerFields (layout : StructLayout) (address : Address) : List FieldInit → Emit Code
  | [] => return []
  | { name, value } :: rest => do
      match layout.field? name.name with
      | none => lowerFields layout address rest
      | some field =>
        let target ← check (address.advance field.offset)
        let code ← storeInto field.type target value.span (lowerExpr value)
        let more ← lowerFields layout address rest
        return code ++ more
termination_by structural fields => fields

/-- Lower the arguments of a call. The slots of temporaries among them are to be
released after the call. -/
def lowerArguments : List Expr → List Ty → Emit (Code × List Frame.Allocation)
  | argument :: rest, type :: types => do
      let (code, value) ← lowerExpr argument (some type)
      let (more, slots) ← passArgument value type argument.span
      let (others, otherSlots) ← lowerArguments rest types
      return (code ++ more ++ others, slots ++ otherSlots)
  | _, _ => return ([], [])
termination_by structural arguments => arguments

def lowerChoice : Choice → Option Ty → Emit (Code × Value)
  | { condition, thenBlock, otherwise, span }, expected => do
      let (conditionCode, conditionValue) ← lowerExpr condition (some .bool)
      expectScalar conditionValue .bool condition.span
      let env ← typeEnv
      let choice : Choice := { condition, thenBlock, otherwise, span }
      let predicted :=
        if otherwise.isNone then
          none
        else
          match expected with
          | some type => some type
          | none => choiceType? env choice
      let slot? ← choiceSlot predicted
      let checkpoint ← onFrame Frame.Allocator.checkpoint
      let saved ← fork none
      let (thenCode, thenResult) ← lowerBlock thenBlock predicted
      let (dropCode, thenKept) ←
        if otherwise.isNone then dropArm thenResult else pure ([], thenResult)
      let (thenMove, thenValue, slot?) ← settleFirst thenKept slot? thenBlock.span
      updateFrame fun frame => frame.rewind checkpoint
      let thenScopes := (← get).scopes
      restoreScopes saved
      let _ ← fork none
      let (elseCode, elseResult) ← lowerAlternative otherwise predicted
      let (elseMove, elseValue) ← settleSecond elseResult slot? span
      updateFrame fun frame => frame.rewind checkpoint
      updateFrame fun frame => frame.restore checkpoint
      joinArms thenScopes (← get).scopes thenValue.isNever elseValue.isNever
      let value ← joinValues thenValue elseValue span
      releaseUnused slot? value
      let branch := .ifElse (blockTypeOf value) (thenCode ++ dropCode ++ thenMove)
        (elseCode ++ elseMove)
      let stop := if value.isNever then [.unreachable] else []
      return (conditionCode ++ branch :: stop, value)
termination_by structural choice => choice

def lowerAlternative : Option Alternative → Option Ty → Emit (Code × Value)
  | none, _ => return ([], .nothing)
  | some (.block block), expected => lowerBlock block expected
  | some (.choice choice), expected => lowerChoice choice expected
termination_by structural otherwise => otherwise

/-- Lower a block in a scope of its own. A structure that it gives is moved out of
its variables, since they end with the block. -/
def lowerBlock : Block → Option Ty → Emit (Code × Value)
  | { statements, tail, .. }, expected => do
      pushScope
      let (code, diverges) ← lowerStatements statements
      let (tailCode, value) ← lowerTail tail expected
      if diverges then
        let dropCode ← discard value
        popScope
        return (code ++ tailCode ++ dropCode, .never)
      else
        popScope
        return (code ++ tailCode, value)
termination_by structural block => block

def lowerTail : Option Expr → Option Ty → Emit (Code × Value)
  | none, _ => return ([], .nothing)
  | some tail, expected => do
      let (code, value) ← lowerExpr tail expected
      match value with
      | .struct held =>
        let (more, temporary) ← materialize held tail.span
        return (code ++ more, temporary.value)
      | other => return (code, other)
termination_by structural tail => tail

def lowerStatements : List Stmt → Emit (Code × Bool)
  | [] => return ([], false)
  | statement :: rest => do
      let (code, diverges) ← lowerStatement statement
      let (more, othersDiverge) ← lowerStatements rest
      return (code ++ more, diverges || othersDiverge)
termination_by structural statements => statements

def lowerStatement : Stmt → Emit (Code × Bool)
  | .declare span name type none => do
      declareEmpty span name type
      return ([], false)
  | .declare span name type (some initial) => do
      let declared ← type.mapM resolveType
      let (code, value) ← lowerExpr initial declared
      checkDeclared declared value initial.span
      let (more, diverges) ← declareValue span name value initial.span
      return (code ++ more, diverges)
  | .assign span target value => do
      match ← assignmentTarget span target with
      | .scalar type place =>
        let (code, result) ← lowerExpr value (some type)
        expectScalar result type value.span
        return (code ++ [.localSet place], result.isNever)
      | .part type address node =>
        let code ← storeInto type address value.span (lowerExpr value)
        define node span
        return (code, false)
  | .loop _ condition body => do
      let checkpoint ← onFrame Frame.Allocator.checkpoint
      let saved ← fork (some .read)
      let (conditionCode, conditionValue) ← lowerExpr condition (some .bool)
      expectScalar conditionValue .bool condition.span
      restoreScopes saved
      let _ ← fork (some .write)
      let (bodyCode, bodyValue) ← lowerBlock body none
      let dropCode ← discard bodyValue
      joinOptional saved
      updateFrame fun frame => frame.rewind checkpoint
      updateFrame fun frame => frame.restore checkpoint
      let round := conditionCode ++ [.numeric .i32Eqz, .branchIf 1] ++ bodyCode ++
        dropCode ++ [.branch 0]
      return ([.block .empty [.loop .empty round]], false)
  | .leave span none => do
      let code ← lowerResult .nothing span
      return (code ++ epilogue (← read).framePointer ++ [.leave], true)
  | .leave _ (some value) => do
      let (code, result) ← lowerExpr value (← read).result.type?
      let more ← lowerResult result value.span
      return (code ++ more ++ epilogue (← read).framePointer ++ [.leave], true)
  | .evaluate _ value => do
      let (code, result) ← lowerExpr value none
      let dropCode ← discard result
      return (code ++ dropCode, result.isNever)
termination_by structural statement => statement

end

end StructWasm.Lowering

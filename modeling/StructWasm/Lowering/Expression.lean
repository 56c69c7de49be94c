import StructWasm.Lowering.Move
import StructWasm.Lowering.Operator

/-!
# Steps for expressions

What lowering an expression does around the lowering of the expressions inside
it. A primitive expression leaves its value on the operand stack; a structure
expression leaves nothing there and says where its bytes are.
-/

namespace StructWasm.Lowering

/-! ## Literals -/

def fitsInt32 (value : Binary64) : Bool :=
  match value.integer? with
  | none => false
  | some integer => -0x80000000 ≤ integer && integer < 0x80000000

def literalConstant (value : Binary64) : Ty → Except LiteralError Wasm.Constant
  | .i32 => do return .i32 (← Literal.toInt32 value)
  | .i64 => do return .i64 (← Literal.toInt64 value)
  | .f32 => do return .f32 (← Literal.toBinary32 value)
  | _ => .ok (.f64 value)

/-- The type of a number literal: the one that is wanted, or else one that holds
it. -/
def literalType (value : Binary64) (expected : Option Ty) (span : Span) : Emit Ty :=
  match expected with
  | some type =>
    if type.isNumeric then pure type else fail (.unexpectedNumber type) span
  | none => if fitsInt32 value then pure .i32 else pure .f64

def lowerNumber (value : Binary64) (expected : Option Ty) (span : Span) :
    Emit (Code × Value) := do
  let type ← literalType value expected span
  let constant ← check ((literalConstant value type).mapError Fault.literal)
  return ([.const constant], .scalar type)

/-- Check the names of the fields that a structure literal gives: each is a field
of the structure, and none is given twice. -/
def checkFieldNames (layout : StructLayout) (seen : List String) :
    List Ident → Emit Unit
  | [] => pure ()
  | field :: rest => do
      if (layout.field? field.name).isNone then
        fail (.unknownField layout.name field.name) field.span
      if seen.contains field.name then
        fail (.duplicateFieldValue field.name) field.span
      checkFieldNames layout (field.name :: seen) rest

def literalLayout (span : Span) (name : Ident) (fields : List Ident) :
    Emit StructLayout := do
  match (← read).layouts.get? name.name with
  | none => fail (.unknownStructure name.name) name.span
  | some layout =>
    checkFieldNames layout [] fields
    let given (field : FieldLayout) : Bool := fields.any fun ident =>
      ident.name == field.name
    match layout.fields.find? fun field => !given field with
    | some missing => fail (.missingField missing.name layout.name) span
    | none => return layout

def storeInto (type : Ty) (target : Address) (span : Span)
    (lower : Option Ty → Emit (Code × Value)) : Emit Code := do
  if type.isStruct then
    let (code, value) ← lower (some type)
    if value.isNever then
      return code
    let actual ← expectStruct value type span
    let moved ← moveInto actual target span
    return code ++ moved
  else
    let (code, value) ← lower (some type)
    expectScalar value type span
    let width := type.valType
    return .localGet target.base :: code ++
      [.store width (.natural width target.offset)]

/-! ## Names and calls -/

/-- A variable. Nothing is moved yet: that is up to the user of the value. -/
def lowerVariable (name : String) (span : Span) : Emit (Code × Value) := do
  match lookup? (← get).scopes name with
  | some (.scalar type place) => return ([.localGet place], .scalar type)
  | some (.struct held) =>
    return ([], .struct {
      type := held.type
      address := held.address
      source := .variable held.node })
  | none => fail (.unresolvedName name) span

/-- The signature of a function that is called with a number of arguments. The
function is asked for. -/
def requestCallee (name : Ident) (argumentCount : Nat) : Emit Signature := do
  match (← read).signature? name.name with
  | none => fail (.unknownFunction name.name) name.span
  | some none => throw (.semantic [])
  | some (some signature) =>
    modify fun work => { work with requests := work.requests ++ [name.name] }
    if argumentCount = signature.params.length then
      return signature
    else
      fail (.wrongArgumentCount name.name signature.params.length argumentCount)
        name.span

def resultSlot (signature : Signature) : Emit (Option Temporary) := do
  match signature.result with
  | none => return none
  | some type =>
    if type.isStruct then
      let (slot, address) ← allocateStruct type
      return some { type := type, address, slot }
    else
      return none

def callValue (signature : Signature) (result? : Option Temporary) : Value :=
  match result?, signature.result with
  | some temporary, _ => temporary.value
  | none, some type => .scalar type
  | none, none => .nothing

/-- Pass a value as an argument. A structure goes as its address; the slot of a
temporary is to be released after the call. -/
def passArgument (value : Value) (type : Ty) (span : Span) :
    Emit (Code × List Frame.Allocation) := do
  if type.isStruct then
    if value.isNever then
      return ([], [])
    let actual ← expectStruct value type span
    let slot? ← take actual span
    return (actual.address.push, slot?.toList)
  else
    expectScalar value type span
    return ([], [])

/-- Read a field of a value. A primitive field of a variable is copied; a field of
a temporary is taken out before the temporary gives its slot back. -/
def readField (object : Value) (objectSpan : Span) (field : Ident) (span : Span) :
    Emit (Code × Value) := do
  let layouts := (← read).layouts
  match object with
  | .struct held =>
    match layouts.field? held.type field.name with
    | none => fail (.unknownField held.type.text field.name) field.span
    | some part =>
      let address ← check (held.address.advance part.offset)
      match held.source with
      | .variable node =>
        let child ← fieldNode node held.type field.name
        if part.type.isStruct then
          return ([], .struct {
            type := part.type
            address
            source := .variable child })
        else
          checkComplete child span
          return (address.load part.type.valType, .scalar part.type)
      | .temporary slot =>
        if part.type.isStruct then
          let (copySlot, copyAddress) ← allocateStruct part.type
          let code ← copyStruct part.type address copyAddress
          release slot
          return (code, .struct {
            type := part.type
            address := copyAddress
            source := .temporary copySlot })
        else
          release slot
          return (address.load part.type.valType, .scalar part.type)
  | other => fail (.notAStructure other.found field.name) objectSpan

/-! ## Operators -/

def numericHint (expected : Option Ty) : Option Ty :=
  expected.filter Ty.isNumeric

/-- The type to lower the left operand of an operator with: what is wanted of the
result, or else the type of an operand that has one. -/
def operandHint (op : BinaryOp) (expected : Option Ty) (left right : Expr) :
    Emit (Option Ty) := do
  let env ← typeEnv
  let wanted := if op.isComparison then none else numericHint expected
  match wanted with
  | some type => return some type
  | none =>
    match staticType? env left with
    | some type => return some type
    | none => return staticType? env right

def negationHint (expected : Option Ty) (operand : Expr) : Emit (Option Ty) := do
  let env ← typeEnv
  match numericHint expected with
  | some type => return some type
  | none => return staticType? env operand

def operandType (op : BinaryOp) (value : Value) (span : Span) : Emit Ty :=
  match value with
  | .scalar type => pure type
  | other => fail (.invalidOperand op other.found) span

def operatorFor (op : BinaryOp) (operand : Ty) (span : Span) :
    Emit (Wasm.NumericOp × Ty) :=
  match binaryOp? op operand with
  | some instr => pure instr
  | none => fail (.invalidOperand op (.value operand)) span

/-- Code that combines two truth values, the second of which is only looked at if
it matters. -/
def logicalCode (op : BinaryOp) (right : Code) : Code :=
  match op with
  | .and => [.ifElse (.value .i32) right [.const (.i32 0)]]
  | _ => [.ifElse (.value .i32) [.const (.i32 1)] right]

def negate (code : Code) (value : Value) (span : Span) : Emit (Code × Value) :=
  match value with
  | .scalar .i32 =>
    return (.const (.i32 0) :: code ++ [.numeric .i32Sub], .scalar .i32)
  | .scalar .i64 =>
    return (.const (.i64 0) :: code ++ [.numeric .i64Sub], .scalar .i64)
  | .scalar .f32 => return (code ++ [.numeric .f32Neg], .scalar .f32)
  | .scalar .f64 => return (code ++ [.numeric .f64Neg], .scalar .f64)
  | other => fail (.notNegatable other.found) span

end StructWasm.Lowering

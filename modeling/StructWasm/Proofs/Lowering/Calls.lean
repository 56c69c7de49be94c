import StructWasm.Proofs.Lowering.Constructs

/-!
# How lowering goes down a function body

Lowering a part of a function body lowers the parts inside it, each in the state
that the steps before it have left.

A choice is lowered in stages: it is entered, its first arm is finished, then its
second one, and the values of the arms are joined.
-/

namespace StructWasm.Lowering

/-! ## Stages of a choice -/

/-- What is known of a choice when its arms are about to be lowered. -/
structure ChoiceEntry where
  /-- Code of the condition. -/
  conditionCode : Code
  /-- The type that the arms are lowered with. -/
  predicted : Option Ty
  /-- The slot that was made for the result. -/
  slot? : Option ResultSlot
  /-- The checkpoint of the branch. -/
  checkpoint : Frame.CheckpointId
  /-- The scopes before the arms. -/
  saved : List Scope

/-- What the first arm of a choice leaves. -/
structure FirstArm where
  /-- Its code. -/
  code : Code
  /-- Its value. -/
  value : Value
  /-- The slot of the result. -/
  slot? : Option ResultSlot
  /-- The scopes at its end. -/
  scopes : List Scope

/-- Lower the condition of a choice and open the branch. -/
def enterChoice (choice : Choice) (want : Option Ty) : Emit ChoiceEntry := do
  let (conditionCode, conditionValue) ← lowerExpr choice.condition (some .bool)
  expectScalar conditionValue .bool choice.condition.span
  let env ← typeEnv
  let predicted :=
    if choice.otherwise.isNone then
      none
    else
      match want with
      | some type => some type
      | none => choiceType? env choice
  let slot? ← choiceSlot predicted
  let checkpoint ← onFrame Frame.Allocator.checkpoint
  let saved ← fork none
  return { conditionCode, predicted, slot?, checkpoint, saved }

/-- Lower the first arm of a choice. Without a second arm its value is dropped. -/
def lowerFirst (choice : Choice) (entry : ChoiceEntry) : Emit (Code × Value) := do
  let (code, result) ← lowerBlock choice.thenBlock entry.predicted
  let (dropCode, kept) ←
    if choice.otherwise.isNone then dropArm result else pure ([], result)
  return (code ++ dropCode, kept)

/-- Lower the first arm of a choice, bring its value into place and start over for
the second arm. -/
def finishFirst (choice : Choice) (entry : ChoiceEntry) : Emit FirstArm := do
  let (code, kept) ← lowerFirst choice entry
  let (moveCode, value, slot?) ← settleFirst kept entry.slot? choice.thenBlock.span
  updateFrame fun frame => frame.rewind entry.checkpoint
  let scopes := (← get).scopes
  restoreScopes entry.saved
  let _ ← fork none
  return { code := code ++ moveCode, value, slot?, scopes }

/-- Lower the second arm of a choice, bring its value into place and leave the
branch. -/
def finishSecond (choice : Choice) (entry : ChoiceEntry) (first : FirstArm) :
    Emit (Code × Value) := do
  let (code, result) ← lowerAlternative choice.otherwise entry.predicted
  let (moveCode, value) ← settleSecond result first.slot? choice.span
  updateFrame fun frame => frame.rewind entry.checkpoint
  updateFrame fun frame => frame.restore entry.checkpoint
  joinArms first.scopes (← get).scopes first.value.isNever value.isNever
  return (code ++ moveCode, value)

/-- Join the values of the arms of a choice. -/
def joinChoice (choice : Choice) (entry : ChoiceEntry) (first : FirstArm)
    (second : Code × Value) : Emit (Code × Value) := do
  let value ← joinValues first.value second.2 choice.span
  releaseUnused first.slot? value
  let branch := .ifElse (blockTypeOf value) first.code second.1
  let stop := if value.isNever then [.unreachable] else []
  return (entry.conditionCode ++ branch :: stop, value)

theorem lowerChoice_eq (choice : Choice) (want : Option Ty) : lowerChoice choice want = (do
      let entry ← enterChoice choice want
      let first ← finishFirst choice entry
      let second ← finishSecond choice entry first
      joinChoice choice entry first second) := by
  obtain ⟨cond, thenBlock, otherwise, span⟩ := choice
  rw [lowerChoice]
  cases otherwise with
  | none =>
    simp only [enterChoice, finishFirst, lowerFirst, finishSecond, joinChoice, bind_assoc,
      pure_bind, Option.isNone_none, if_true]
  | some alternative =>
    cases want <;>
      simp only [enterChoice, finishFirst, lowerFirst, finishSecond, joinChoice, bind_assoc,
        pure_bind, Option.isNone_some, Bool.false_eq_true, if_false]

/-! ## Stages of a loop -/

/-- Open the branch of a loop. -/
def enterLoop : Emit (Frame.CheckpointId × List Scope) := do
  let checkpoint ← onFrame Frame.Allocator.checkpoint
  let saved ← fork (some .read)
  return (checkpoint, saved)

/-- Lower the condition of a loop. -/
def lowerGuard (condition : Expr) (saved : List Scope) : Emit Code := do
  let (code, value) ← lowerExpr condition (some .bool)
  expectScalar value .bool condition.span
  restoreScopes saved
  let _ ← fork (some .write)
  return code

/-- Lower the body of a loop. -/
def lowerRound (body : Block) : Emit Code := do
  let (code, value) ← lowerBlock body none
  let dropCode ← discard value
  return code ++ dropCode

/-- Leave the branch of a loop. -/
def leaveLoop (checkpoint : Frame.CheckpointId) (saved : List Scope) : Emit Unit := do
  joinOptional saved
  updateFrame fun frame => frame.rewind checkpoint
  updateFrame fun frame => frame.restore checkpoint

theorem lowerStatement_loop (span : Span) (cond : Expr) (body : Block) :
    lowerStatement (.loop span cond body) = (do
      let (mark, saved) ← enterLoop
      let conditionCode ← lowerGuard cond saved
      let roundCode ← lowerRound body
      leaveLoop mark saved
      return ([.block .empty [.loop .empty (conditionCode ++ [.numeric .i32Eqz, .branchIf 1] ++
        roundCode ++ [.branch 0])]], false)) := by
  rw [lowerStatement]
  simp only [enterLoop, lowerGuard, lowerRound, leaveLoop, bind_assoc, pure_bind, List.append_assoc]

/-! ## Stages of a block -/

/-- Leave a block. -/
def endBlock (flow : Code × Bool) (result : Code × Value) : Emit (Code × Value) := do
  if flow.2 then
    let dropCode ← discard result.2
    popScope
    return (flow.1 ++ result.1 ++ dropCode, .never)
  else
    popScope
    return (flow.1 ++ result.1, result.2)

theorem lowerBlock_eq (block : Block) (want : Option Ty) : lowerBlock block want = (do
      pushScope
      let flow ← lowerStatements block.statements
      let result ← lowerTail block.tail want
      endBlock flow result) := by
  obtain ⟨statements, tail, span⟩ := block
  rw [lowerBlock]
  rfl

/-! ## Parts of a body -/

/-- Type of what an assignment writes to. -/
def Target.type : Target → Ty
  | .scalar type _ => type
  | .part type _ _ => type

/-- A part of a function body, with what is wanted of it. -/
inductive Part where
  | expr (expr : Expr) (want : Option Ty)
  | fields (layout : StructLayout) (address : Address) (fields : List FieldInit)
  | arguments (arguments : List Expr) (types : List Ty)
  | choice (choice : Choice) (want : Option Ty)
  | alternative (otherwise : Option Alternative) (want : Option Ty)
  | block (block : Block) (want : Option Ty)
  | tail (tail : Option Expr) (want : Option Ty)
  | statements (statements : List Stmt)
  | statement (statement : Stmt)

/-- What lowering a part gives. -/
abbrev Part.Result : Part → Type
  | .fields _ _ _ => Code
  | .arguments _ _ => Code × List Frame.Allocation
  | .statements _ | .statement _ => Code × Bool
  | _ => Code × Value

/-- Lower a part. -/
def Part.lower : (part : Part) → Emit part.Result
  | .expr source want => lowerExpr source want
  | .fields layout address sources => lowerFields layout address sources
  | .arguments sources types => lowerArguments sources types
  | .choice source want => lowerChoice source want
  | .alternative source want => lowerAlternative source want
  | .block source want => lowerBlock source want
  | .tail source want => lowerTail source want
  | .statements sources => lowerStatements sources
  | .statement source => lowerStatement source

/-- Lowering a part in a state lowers another part in a later state. The premises
are the steps in between, in their order. -/
inductive Calls (ctx : Context) : Part × Workspace → Part × Workspace → Prop where
  | literal {fields : List FieldInit}
      (finds : Runs (literalLayout span name (fields.map FieldInit.name)) ctx work layout found)
      (allocates : Runs (allocateStruct (.struct layout.name)) ctx found place mid) :
      Calls ctx (.expr (.literal span name fields) want, work)
        (.fields layout place.2 fields, mid)
  | call {arguments : List Expr}
      (asks : Runs (requestCallee name arguments.length) ctx work sig asked)
      (allocates : Runs (resultSlot sig) ctx asked result? mid) :
      Calls ctx (.expr (.call span name arguments) want, work)
        (.arguments arguments sig.params, mid)
  | object : Calls ctx (.expr (.field span object field) want, work) (.expr object none, work)
  | logicalLeft (logical : (op == .and || op == .or) = true) :
      Calls ctx (.expr (.binary span left op right) want, work)
        (.expr left (some .bool), work)
  | logicalRight (logical : (op == .and || op == .or) = true)
      (decides : Runs (lowerExpr left (some .bool)) ctx work leftResult decided)
      (checks : Runs (expectScalar leftResult.2 .bool left.span) ctx decided () checked)
      (forks : Runs (fork none) ctx checked saved mid) :
      Calls ctx (.expr (.binary span left op right) want, work)
        (.expr right (some .bool), mid)
  | operandLeft (numeric : ¬(op == .and || op == .or) = true)
      (hints : Runs (operandHint op want left right) ctx work hint mid) :
      Calls ctx (.expr (.binary span left op right) want, work) (.expr left hint, mid)
  | operandRight (numeric : ¬(op == .and || op == .or) = true)
      (hints : Runs (operandHint op want left right) ctx work hint hinted)
      (computes : Runs (lowerExpr left hint) ctx hinted leftResult computed)
      (checks : Runs (operandType op leftResult.2 left.span) ctx computed type mid) :
      Calls ctx (.expr (.binary span left op right) want, work)
        (.expr right (some type), mid)
  | not : Calls ctx (.expr (.not span operand) want, work) (.expr operand (some .bool), work)
  | negate (notLiteral : ∀ span value, operand ≠ .number span value)
      (hints : Runs (negationHint want operand) ctx work hint mid) :
      Calls ctx (.expr (.negate span operand) want, work) (.expr operand hint, mid)
  | choice : Calls ctx (.expr (.choice span choice) want, work) (.choice choice want, work)
  | block : Calls ctx (.expr (.block span block) want, work) (.block block want, work)
  | parens {inner} : Calls ctx (.expr (.parens span inner) want, work) (.expr inner want, work)
  | fieldSkipped {layout : StructLayout} {address : Address} {name : Ident} {value : Expr}
      (unknown : layout.field? name.name = none) :
      Calls ctx (.fields layout address ({ name, value } :: rest), work)
        (.fields layout address rest, work)
  | fieldValue {layout : StructLayout} {address target : Address} {name : Ident} {value : Expr}
      {field : FieldLayout} (known : layout.field? name.name = some field)
      (advances : address.advance field.offset = .ok target) :
      Calls ctx (.fields layout address ({ name, value } :: rest), work)
        (.expr value (some field.type), work)
  | fieldRest {layout : StructLayout} {address target : Address} {name : Ident} {value : Expr}
      {field : FieldLayout} (known : layout.field? name.name = some field)
      (advances : address.advance field.offset = .ok target)
      (stores : Runs (storeInto field.type target value.span (lowerExpr value)) ctx work
        code mid) :
      Calls ctx (.fields layout address ({ name, value } :: rest), work)
        (.fields layout address rest, mid)
  | argument : Calls ctx (.arguments (argument :: rest) (type :: types), work)
        (.expr argument (some type), work)
  | argumentRest (computes : Runs (lowerExpr argument (some type)) ctx work result computed)
      (passes : Runs (passArgument result.2 type argument.span) ctx computed passed mid) :
      Calls ctx (.arguments (argument :: rest) (type :: types), work)
        (.arguments rest types, mid)
  | condition : Calls ctx (.choice choice want, work) (.expr choice.condition (some .bool), work)
  | firstArm (enters : Runs (enterChoice choice want) ctx work entry mid) :
      Calls ctx (.choice choice want, work) (.block choice.thenBlock entry.predicted, mid)
  | secondArm (enters : Runs (enterChoice choice want) ctx work entry entered)
      (finishes : Runs (finishFirst choice entry) ctx entered first mid) :
      Calls ctx (.choice choice want, work)
        (.alternative choice.otherwise entry.predicted, mid)
  | otherwiseBlock : Calls ctx (.alternative (some (.block block)) want, work)
        (.block block want, work)
  | otherwiseChoice : Calls ctx (.alternative (some (.choice choice)) want, work)
        (.choice choice want, work)
  | blockStatements (opens : Runs pushScope ctx work () mid) :
      Calls ctx (.block block want, work) (.statements block.statements, mid)
  | blockTail {block : Block} (opens : Runs pushScope ctx work () opened)
      (lowers : Runs (lowerStatements block.statements) ctx opened result mid) :
      Calls ctx (.block block want, work) (.tail block.tail want, mid)
  | tail : Calls ctx (.tail (some tail) want, work) (.expr tail want, work)
  | statement : Calls ctx (.statements (statement :: rest), work) (.statement statement, work)
  | statementRest (lowers : Runs (lowerStatement statement) ctx work result mid) :
      Calls ctx (.statements (statement :: rest), work) (.statements rest, mid)
  | initial {type : Option TypeNote}
      (resolves : Runs (type.mapM resolveType) ctx work declared mid) :
      Calls ctx (.statement (.declare span name type (some initial)), work)
        (.expr initial declared, mid)
  | assigned (finds : Runs (assignmentTarget span path) ctx work target mid) :
      Calls ctx (.statement (.assign span path value), work)
        (.expr value (some target.type), mid)
  | guard (enters : Runs enterLoop ctx work entry mid) :
      Calls ctx (.statement (.loop span condition body), work)
        (.expr condition (some .bool), mid)
  | round (enters : Runs enterLoop ctx work entry entered)
      (decides : Runs (lowerGuard condition entry.2) ctx entered code mid) :
      Calls ctx (.statement (.loop span condition body), work) (.block body none, mid)
  | left : Calls ctx (.statement (.leave span (some value)), work)
        (.expr value ctx.result.type?, work)
  | evaluated : Calls ctx (.statement (.evaluate span value), work) (.expr value none, work)

/-- Lowering a part comes to another part. -/
abbrev Reaches (ctx : Context) : Part × Workspace → Part × Workspace → Prop :=
  Relation.ReflTransGen (Calls ctx)

variable {α β : Type} {rest : α → Emit β}

theorem Stops.first (stops : Stops step ctx work fault) : Stops (step >>= rest) ctx work fault :=
  stops_bind.mpr (.inl stops)

theorem stops_after (runs : Runs step ctx work value mid)
    (stops : Stops (rest value) ctx mid fault) : Stops (step >>= rest) ctx work fault :=
  stops_bind.mpr (.inr ⟨value, mid, runs, stops⟩)

end StructWasm.Lowering

import StructWasm.Proofs.Lowering.Calls
import StructWasm.Proofs.Lowering.Composed

/-!
# The functions that a body calls

Lowering a function asks for the functions that its body calls, in the order in which the
calls are written, wherever they stand.
-/

namespace StructWasm

open List Frame.Allocator

/-! ## Calls in the text -/

mutual

/-- The functions that an expression calls. -/
def Expr.callees : Expr → List String
  | .number _ _ => []
  | .bool _ _ => []
  | .literal _ _ fields => calleesOfFields fields
  | .var _ _ => []
  | .call _ name arguments => name.name :: calleesOfArguments arguments
  | .field _ object _ => object.callees
  | .binary _ left _ right => left.callees ++ right.callees
  | .negate _ operand => operand.callees
  | .not _ operand => operand.callees
  | .choice _ choice => choice.callees
  | .block _ block => block.callees
  | .parens _ inner => inner.callees

/-- The functions that the values of a structure literal call. -/
def calleesOfFields : List FieldInit → List String
  | [] => []
  | { value, .. } :: rest => value.callees ++ calleesOfFields rest

/-- The functions that the arguments of a call call. -/
def calleesOfArguments : List Expr → List String
  | [] => []
  | argument :: rest => argument.callees ++ calleesOfArguments rest

/-- The functions that a choice calls. -/
def Choice.callees : Choice → List String
  | { condition, thenBlock, otherwise, .. } =>
    condition.callees ++ thenBlock.callees ++ calleesOfAlternative otherwise

/-- The functions that the second part of a choice calls. -/
def calleesOfAlternative : Option Alternative → List String
  | none => []
  | some (.block block) => block.callees
  | some (.choice choice) => choice.callees

/-- The functions that a block calls, also after it was left. -/
def Block.callees : Block → List String
  | { statements, tail, .. } => calleesOfStatements statements ++ calleesOfTail tail

/-- The functions that the value of a block calls. -/
def calleesOfTail : Option Expr → List String
  | none => []
  | some tail => tail.callees

/-- The functions that statements call. -/
def calleesOfStatements : List Stmt → List String
  | [] => []
  | statement :: rest => statement.callees ++ calleesOfStatements rest

/-- The functions that a statement calls. -/
def Stmt.callees : Stmt → List String
  | .declare _ _ _ none => []
  | .declare _ _ _ (some initial) => initial.callees
  | .assign _ _ value => value.callees
  | .loop _ condition body => condition.callees ++ body.callees
  | .leave _ none => []
  | .leave _ (some value) => value.callees
  | .evaluate _ value => value.callees

end

namespace Lowering

/-! ## Checks before the parts of an expression -/

variable {choice : Choice} {left right : Expr}

theorem known_of_checkFieldNames {seen ctx work next result}
    (runs : Runs (checkFieldNames layout seen fields) ctx work result next) :
    ∀ field ∈ fields, layout.field? field.name ≠ none := by
  induction fields generalizing seen work with
  | nil => exact forall_mem_nil _
  | cons field rest ih =>
    unfold checkFieldNames at runs
    dsimp only at runs
    split at runs
    · obtain ⟨_, _, fails, -⟩ := runs.bind
      exact fails.fail
    · rename_i known
      split at runs
      · obtain ⟨_, _, fails, -⟩ := runs.bind
        exact fails.fail
      · intro other mem
        rcases mem_cons.mp mem with rfl | mem
        · simpa [Option.isNone_iff_eq_none] using known
        · exact ih runs other mem

theorem known_of_literalLayout {span name} (gives : Gives (literalLayout span name fields) layout) :
    ∀ field ∈ fields, layout.field? field.name ≠ none := by
  obtain ⟨ctx, work, next, runs⟩ := gives
  replace runs := runs_read_bind.mp runs
  split at runs
  · exact runs.fail
  · obtain ⟨_, _, checks, runs⟩ := runs.bind
    dsimp only at runs
    split at runs
    · exact runs.fail
    · obtain ⟨rfl, -⟩ := runs.pure
      exact known_of_checkFieldNames checks

/-! ## All parts -/

theorem composed_mapM_resolveType (type : Option TypeNote) :
    Composed [] (type.mapM resolveType) := by
  cases type with
  | none => exact .pure none
  | some note => exact (onOwnership_resolveType note).composed.map some

section

variable (leftComposed : ∀ want, Composed left.callees (lowerExpr left want))
include leftComposed

variable (rightComposed : ∀ want, Composed right.callees (lowerExpr right want))
include rightComposed

variable (span : Span) (want : Option Ty)

theorem composed_logical (logical : (op == .and || op == .or) = true) :
    Composed (left.callees ++ right.callees) (lowerExpr (.binary span left op right) want) := by
  rw [lowerExpr, if_pos logical]
  refine .bind (leftComposed _) fun result _ => ?_
  refine (onOwnership_expectScalar _ _ _).composed.after fun _ => ?_
  refine (composed_fork none).after fun saved => ?_
  refine (rightComposed _).before fun other => ?_
  refine (onOwnership_expectScalar _ _ _).composed.after fun _ => ?_
  exact (composed_joinOptional saved).after fun _ => .pure _

theorem composed_operands (logical : ¬(op == .and || op == .or) = true) :
    Composed (left.callees ++ right.callees) (lowerExpr (.binary span left op right) want) := by
  rw [lowerExpr, if_neg logical]
  refine (onOwnership_operandHint _ _ _ _).composed.after fun hint => ?_
  refine .bind (leftComposed _) fun result _ => ?_
  refine (onOwnership_operandType _ _ _).composed.after fun type => ?_
  refine (rightComposed _).before fun other => ?_
  refine (onOwnership_expectScalar _ _ _).composed.after fun _ => ?_
  exact (onOwnership_operatorFor _ _ _).composed.after fun _ => .pure _

end

theorem composed_call
    (argumentsComposed : ∀ types : List Ty, args.length = types.length →
      Composed (calleesOfArguments args) (lowerArguments args types)) (span : Span)
    (name : Ident) (want : Option Ty) : Composed (name.name :: calleesOfArguments args)
      (lowerExpr (.call span name args) want) := by
  rw [lowerExpr]
  refine .bind (.request name _) fun sig gives => ?_
  obtain ⟨ctx, work, next, runs⟩ := gives
  refine (slotwise_resultSlot sig).composed.after fun result? => ?_
  refine (argumentsComposed _ (runs_requestCallee runs).2.1).before fun passed => ?_
  exact (composed_forM composed_release _).after fun _ => .pure _

theorem begins_enterChoice (choice : Choice) (want : Option Ty) :
    Begins (lowerExpr choice.condition (some .bool)) (enterChoice choice want) := by
  refine .first .here fun decided => ?_
  refine (onOwnership_expectScalar _ _ _).composed.after fun _ => ?_
  refine onOwnership_typeEnv.composed.after fun env => ?_
  refine (slotwise_choiceSlot _).composed.after fun slot? => ?_
  refine (Composed.onFrame eases_checkpoint).after fun mark => ?_
  exact (composed_fork none).after fun saved => .pure _

theorem begins_finishFirst (choice : Choice) (entry : ChoiceEntry) :
    Begins (lowerBlock choice.thenBlock entry.predicted) (finishFirst choice entry) := by
  have first : Begins (lowerBlock choice.thenBlock entry.predicted) (lowerFirst choice entry) := by
    refine .first .here fun result => ?_
    dsimp only
    split
    · exact (composed_dropArm _).after fun _ => .pure _
    · exact (Composed.pure _).after fun _ => .pure _
  refine first.first fun kept => ?_
  refine (composed_settleFirst _ _ _).after fun settled => ?_
  refine (Composed.onFrame (eases_rewind _)).after fun _ => ?_
  refine .look (fun _ _ _ => rfl) fun seen => ?_
  refine (Composed.basic (basic_restoreScopes _)).after fun _ => ?_
  exact (composed_fork none).after fun _ => .pure _

theorem begins_finishSecond (choice : Choice) (entry : ChoiceEntry) (first : FirstArm) :
    Begins (lowerAlternative choice.otherwise entry.predicted)
      (finishSecond choice entry first) := by
  refine .first .here fun second => ?_
  refine (composed_settleSecond _ _ _).after fun settled => ?_
  refine (Composed.onFrame (eases_rewind _)).after fun _ => ?_
  refine (Composed.onFrame (eases_restore _)).after fun _ => ?_
  refine .look (fun _ _ _ => rfl) fun seen => ?_
  exact (composed_joinArms _ _ _ _).after fun _ => .pure _

theorem composed_joinChoice (choice : Choice) (entry : ChoiceEntry) (first : FirstArm)
    (second : Code × Value) : Composed [] (joinChoice choice entry first second) := by
  refine (onOwnership_joinValues _ _ _).composed.after fun value => ?_
  exact (slotwise_releaseUnused _ value).composed.after fun _ => .pure _

theorem composed_choice (conditionComposed : ∀ want,
      Composed choice.condition.callees (lowerExpr choice.condition want))
    (firstComposed : ∀ want, Composed choice.thenBlock.callees (lowerBlock choice.thenBlock want))
    (secondComposed : ∀ want,
      Composed (calleesOfAlternative choice.otherwise) (lowerAlternative choice.otherwise want))
    (want : Option Ty) : Composed choice.callees (lowerChoice choice want) := by
  have callees_eq : choice.callees = choice.condition.callees ++
      (choice.thenBlock.callees ++ calleesOfAlternative choice.otherwise) := by
    obtain ⟨cond, thenBlock, otherwise, span⟩ := choice
    rw [Choice.callees, append_assoc]
  rw [lowerChoice_eq, callees_eq]
  refine .bind ((begins_enterChoice choice want).composed (conditionComposed _)) ?_
  refine fun entry _ => .bind ((begins_finishFirst choice entry).composed (firstComposed _)) ?_
  refine fun first _ =>
    ((begins_finishSecond choice entry first).composed (secondComposed _)).before ?_
  exact composed_joinChoice choice entry first

theorem composed_endBlock (flow : Code × Bool) (result : Code × Value) :
    Composed [] (endBlock flow result) := by
  unfold endBlock
  split
  · refine (slotwise_discard _).composed.after fun _ => ?_
    exact composed_popScope.after fun _ => .pure _
  · exact composed_popScope.after fun _ => .pure _

theorem composed_block (statementsComposed : Composed (calleesOfStatements block.statements)
      (lowerStatements block.statements))
    (tailComposed : ∀ want, Composed (calleesOfTail block.tail) (lowerTail block.tail want))
    (want : Option Ty) : Composed block.callees (lowerBlock block want) := by
  have callees_eq : block.callees = calleesOfStatements block.statements ++
      calleesOfTail block.tail := by
    obtain ⟨statements, tail, span⟩ := block
    rw [Block.callees]
  rw [lowerBlock_eq, callees_eq]
  refine (Composed.basic basic_pushScope).after fun _ => ?_
  refine .bind statementsComposed fun flow _ => ?_
  exact (tailComposed want).before fun result => composed_endBlock flow result

theorem composed_leaveLoop (mark : Frame.CheckpointId) (saved : List Scope) :
    Composed [] (leaveLoop mark saved) := by
  refine (composed_joinOptional saved).after fun _ => ?_
  refine (Composed.onFrame (eases_rewind mark)).after fun _ => ?_
  exact .onFrame (eases_restore mark)

theorem begins_lowerGuard (cond : Expr) (saved : List Scope) :
    Begins (lowerExpr cond (some .bool)) (lowerGuard cond saved) := by
  refine .first .here fun decided => ?_
  refine (onOwnership_expectScalar _ _ _).composed.after fun _ => ?_
  refine (Composed.basic (basic_restoreScopes saved)).after fun _ => ?_
  exact (composed_fork (some .write)).after fun _ => .pure _

theorem begins_lowerRound (body : Block) : Begins (lowerBlock body none) (lowerRound body) :=
  .first .here fun _ => (slotwise_discard _).composed.after fun _ => .pure _

theorem composed_loop {cond body}
    (conditionComposed : ∀ want, Composed cond.callees (lowerExpr cond want))
    (bodyComposed : ∀ want, Composed body.callees (lowerBlock body want)) (span : Span) :
    Composed (cond.callees ++ body.callees) (lowerStatement (.loop span cond body)) := by
  rw [lowerStatement_loop]
  have enters : Composed [] enterLoop :=
    (Composed.onFrame eases_checkpoint).after fun _ => (composed_fork _).after fun _ => .pure _
  refine enters.after fun entry => ?_
  refine .bind ((begins_lowerGuard cond _).composed (conditionComposed _)) fun _ _ => ?_
  refine ((begins_lowerRound body).composed (bodyComposed _)).before fun _ => ?_
  exact (composed_leaveLoop _ _).after fun _ => .pure _

theorem composed_assign
    (composed : ∀ want, Composed value.callees (lowerExpr value want)) (span : Span)
    (target : List Ident) :
    Composed value.callees (lowerStatement (.assign span target value)) := by
  rw [lowerStatement]
  refine (onOwnership_assignmentTarget span target).composed.after fun target => ?_
  cases target with
  | scalar type place =>
    refine (composed _).before fun result => ?_
    exact (onOwnership_expectScalar _ _ _).composed.after fun _ => .pure _
  | part type address node =>
    refine ((begins_storeInto _ type address value.span).composed (composed _)).before
      fun code => ?_
    exact (onOwnership_define node span).composed.after fun _ => .pure _

mutual

/-- Lowering an expression asks for the functions that it calls. -/
theorem composed_lowerExpr (expr : Expr) (want : Option Ty) :
    Composed expr.callees (lowerExpr expr want) := by
  cases expr with
  | number span value =>
    rw [lowerExpr]
    exact (onOwnership_lowerNumber value want span).composed
  | bool span value => exact .pure _
  | literal span name fields =>
    rw [lowerExpr, Expr.callees]
    refine .bind (onOwnership_literalLayout span name _).composed fun layout gives => ?_
    refine (composed_allocateStruct _).after fun place => ?_
    refine (composed_lowerFields fields layout place.2 fun field mem => ?_).before fun code =>
      .pure _
    exact known_of_literalLayout gives field.name (mem_map_of_mem mem)
  | var span name =>
    rw [lowerExpr]
    exact (onOwnership_lowerVariable name span).composed
  | call span name args =>
    exact composed_call (composed_lowerArguments args) span name want
  | field span object field =>
    rw [lowerExpr, Expr.callees]
    refine (composed_lowerExpr object none).before fun result => ?_
    exact (slotwise_readField _ _ _ _).composed.after fun _ => .pure _
  | binary span left op right =>
    by_cases logical : (op == .and || op == .or) = true
    · exact composed_logical (composed_lowerExpr left) (composed_lowerExpr right) _ _ logical
    · exact composed_operands (composed_lowerExpr left) (composed_lowerExpr right) _ _ logical
  | not span operand =>
    rw [lowerExpr, Expr.callees]
    refine (composed_lowerExpr operand _).before fun result => ?_
    exact (onOwnership_expectScalar _ _ _).composed.after fun _ => .pure _
  | negate span operand =>
    by_cases literal : ∃ span value, operand = .number span value
    · obtain ⟨innerSpan, value, rfl⟩ := literal
      rw [lowerExpr]
      exact (onOwnership_lowerNumber value.negate want span).composed
    · rw [lowerExpr, Expr.callees]
      · refine (onOwnership_negationHint _ _).composed.after fun hint => ?_
        refine (composed_lowerExpr operand hint).before fun result => ?_
        exact (onOwnership_negate _ _ _).composed
      · exact fun span value operand_eq => literal ⟨span, value, operand_eq⟩
  | choice span choice =>
    rw [lowerExpr]
    exact composed_lowerChoice choice want
  | block span block =>
    rw [lowerExpr]
    exact composed_lowerBlock block want
  | parens span inner =>
    rw [lowerExpr]
    exact composed_lowerExpr inner want

theorem composed_lowerFields (fields : List FieldInit) (layout : StructLayout) (address : Address)
    (known : ∀ field ∈ fields, layout.field? field.name.name ≠ none) :
    Composed (calleesOfFields fields) (lowerFields layout address fields) := by
  match fields with
  | [] => exact .pure _
  | { name, value } :: rest =>
    rw [lowerFields, calleesOfFields]
    cases found : layout.field? name.name with
    | none => exact absurd found (known _ mem_cons_self)
    | some field =>
      refine (Emit.OnOwnership.check (failsPlainly_advance _ _)).composed.after fun target => ?_
      refine .bind ((begins_storeInto _ _ _ _).composed (composed_lowerExpr value _))
        fun code _ => ?_
      refine (composed_lowerFields rest layout address fun field mem => ?_).before fun _ =>
        .pure _
      exact known field (mem_cons_of_mem _ mem)

theorem composed_lowerArguments (args : List Expr) (types : List Ty)
    (asMany : args.length = types.length) :
    Composed (calleesOfArguments args) (lowerArguments args types) := by
  match args with
  | [] => exact .pure _
  | argument :: rest =>
    cases types with
    | nil => exact absurd asMany (Nat.succ_ne_zero _)
    | cons type types =>
      rw [lowerArguments, calleesOfArguments]
      refine .bind (composed_lowerExpr argument _) fun result _ => ?_
      refine (onOwnership_passArgument _ _ _).composed.after fun passed => ?_
      exact (composed_lowerArguments rest types (Nat.succ.inj asMany)).before fun _ =>
        .pure _

theorem composed_lowerChoice (choice : Choice) (want : Option Ty) :
    Composed choice.callees (lowerChoice choice want) := by
  match choice with
  | { condition, thenBlock, otherwise, span } =>
    exact composed_choice (composed_lowerExpr condition) (composed_lowerBlock thenBlock)
      (composed_lowerAlternative otherwise) want

theorem composed_lowerAlternative (otherwise : Option Alternative) (want : Option Ty) :
    Composed (calleesOfAlternative otherwise) (lowerAlternative otherwise want) := by
  match otherwise with
  | none => exact .pure _
  | some (.block block) =>
    rw [lowerAlternative]
    exact composed_lowerBlock block want
  | some (.choice choice) =>
    rw [lowerAlternative]
    exact composed_lowerChoice choice want

theorem composed_lowerBlock (block : Block) (want : Option Ty) :
    Composed block.callees (lowerBlock block want) := by
  match block with
  | { statements, tail, span } =>
    exact composed_block (composed_lowerStatements statements) (composed_lowerTail tail) want

theorem composed_lowerTail (tail : Option Expr) (want : Option Ty) :
    Composed (calleesOfTail tail) (lowerTail tail want) := by
  match tail with
  | none => exact .pure _
  | some tail =>
    rw [lowerTail]
    refine (composed_lowerExpr tail want).before fun result => ?_
    dsimp only
    split
    · exact (slotwise_materialize _ _).composed.after fun _ => .pure _
    · exact .pure _

theorem composed_lowerStatements (statements : List Stmt) :
    Composed (calleesOfStatements statements) (lowerStatements statements) := by
  match statements with
  | [] => exact .pure _
  | stmt :: rest =>
    rw [lowerStatements, calleesOfStatements]
    refine .bind (composed_lowerStatement stmt) fun result _ => ?_
    exact (composed_lowerStatements rest).before fun _ => .pure _

theorem composed_lowerStatement (stmt : Stmt) : Composed stmt.callees (lowerStatement stmt) := by
  match stmt with
  | .declare span name type none =>
    rw [lowerStatement]
    exact (composed_declareEmpty span name type).after fun _ => .pure _
  | .declare span name type (some initial) =>
    rw [lowerStatement]
    refine (composed_mapM_resolveType type).after fun declared => ?_
    refine (composed_lowerExpr initial declared).before fun result => ?_
    refine (onOwnership_checkDeclared _ _ _).composed.after fun _ => ?_
    exact (composed_declareValue _ _ _ _).after fun _ => .pure _
  | .assign span target value => exact composed_assign (composed_lowerExpr value) span target
  | .loop span cond body =>
    exact composed_loop (composed_lowerExpr cond) (composed_lowerBlock body) span
  | .leave span none =>
    rw [lowerStatement]
    refine (composed_lowerResult _ span).after fun code => ?_
    exact Emit.OnOwnership.read.composed.after fun _ => .pure _
  | .leave span (some value) =>
    rw [lowerStatement]
    refine Emit.OnOwnership.read.composed.after fun ctx => ?_
    refine (composed_lowerExpr value _).before fun result => ?_
    refine (composed_lowerResult _ _).after fun code => ?_
    exact Emit.OnOwnership.read.composed.after fun _ => .pure _
  | .evaluate span value =>
    rw [lowerStatement]
    refine (composed_lowerExpr value none).before fun result => ?_
    exact (slotwise_discard _).composed.after fun _ => .pure _

end

theorem composed_bindParams (pos : Nat) (span : Span) (params : List (String × Ty)) :
    Composed [] (bindParams pos span params) := by
  induction params generalizing pos with
  | nil => exact .pure _
  | cons param rest ih =>
    unfold bindParams
    dsimp only
    split
    · refine (onOwnership_newValue _ _).composed.after fun node => ?_
      refine (onOwnership_define _ span).composed.after fun _ => ?_
      exact (Composed.basic (basic_declare _ _)).after fun _ => ih _
    · exact (Composed.basic (basic_declare _ _)).after fun _ => ih _

/-! ## What a composed step does -/

variable {α : Type} {ctx : Context} {work next : Workspace}

theorem Emit.Basic.requests_eq (basic : step.Basic) (runs : Runs step ctx work value next) :
    next.requests = work.requests := by
  have apart := basic.apart ctx work work.frame work.requests
  rw [show work.aside work.frame work.requests = work from rfl,
    show step ctx work = .ok value next from runs] at apart
  injection apart with _ same
  rw [same]
  rfl

namespace Composed

theorem of_runs (composed : Composed asked step) (runs : Runs step ctx work value next) :
    work.arena.Leads next.arena ∧ next.requests = work.requests ++ asked := by
  induction composed generalizing work next with
  | basic basic =>
    exact ⟨basic.leads runs, by rw [basic.requests_eq runs, append_nil]⟩
  | bind _ _ firstHypothesis secondHypothesis =>
    obtain ⟨value, mid, firstRuns, secondRuns⟩ := runs.bind
    obtain ⟨leads, middle_eq⟩ := firstHypothesis firstRuns
    obtain ⟨leadsOn, next_eq⟩ := secondHypothesis value ⟨_, _, _, firstRuns⟩ secondRuns
    exact ⟨leads.trans leadsOn, by rw [next_eq, middle_eq, append_assoc]⟩
  | look _ _ ih =>
    replace runs := runs_get_bind.mp runs
    exact ih _ runs
  | onFrame eases =>
    obtain ⟨frame, steps, rfl⟩ := runs_onFrame.mp runs
    exact ⟨.refl _, (append_nil _).symm⟩
  | request name argumentCount =>
    obtain ⟨-, -, rfl⟩ := runs_requestCallee runs
    exact ⟨.refl _, rfl⟩

/-- A composed step that stops says something, unless it asked for a function whose
declaration is faulty. -/
theorem of_stops (composed : Composed asked step) (stops : Stops step ctx work fault)
    (called : work.arena.Called) :
    fault.Loud ∨ fault = .semantic [] ∧ ∃ name ∈ asked, ctx.signature? name = some none := by
  induction composed generalizing work with
  | basic basic => exact .inl (basic.loud stops called)
  | bind first _ firstHypothesis secondHypothesis =>
    rcases stops_bind.mp stops with stops | ⟨value, mid, runs, stops⟩
    · refine (firstHypothesis stops called).imp_right ?_
      rintro ⟨silent, name, mem, faulty⟩
      exact ⟨silent, name, mem_append_left _ mem, faulty⟩
    · have middleCalled := called.trans (first.of_runs runs).1
      refine (secondHypothesis value ⟨_, _, _, runs⟩ stops middleCalled).imp_right ?_
      rintro ⟨silent, name, mem, faulty⟩
      exact ⟨silent, name, mem_append_right _ mem, faulty⟩
  | look _ _ ih =>
    exact ih _ (stops_get_bind.mp stops) called
  | onFrame _ =>
    replace stops := stops_get_bind.mp stops
    split at stops
    · simp at stops
    · obtain rfl := stops_throw.mp stops
      exact .inl trivial
  | request name argumentCount =>
    replace stops := stops_read_bind.mp stops
    split at stops
    · obtain rfl := stops_fail.mp stops
      exact .inl (cons_ne_nil _ _)
    · obtain rfl := stops_throw.mp stops
      exact .inr ⟨rfl, name.name, mem_singleton_self _, by assumption⟩
    · simp only [stops_bind, not_stops_modify, false_or, runs_modify] at stops
      obtain ⟨_, _, rfl, stops⟩ := stops
      split at stops
      · exact absurd stops not_stops_pure
      · obtain rfl := stops_fail.mp stops
        exact .inl (cons_ne_nil _ _)

end Composed

/-! ## Functions -/

/-- Lower the parameters and the body of a function. -/
def lowerParts (decl : FunctionDecl) (sig : Signature) : Emit (Code × Code) := do
  let names := decl.params.map fun param => param.name.name
  let first := if sig.result.any Ty.isStruct then 1 else 0
  bindParams first decl.span (names.zip sig.params)
  let (code, value) ← lowerBlock decl.body sig.result
  let resultCode ← lowerResult value decl.body.span
  return (code, resultCode)

/-- Lay out the frame of a function and number its locals. -/
def closeParts (parts : Code × Code) : Emit Body := do
  let ctx ← read
  let work ← get
  let (frame, outcome) := work.frame.resolve
  check (outcome.mapError Fault.frame)
  let (locals, _) ← check work.locals.finish
  return {
    locals := locals
    frame
    code := prologue ctx.framePointer ++ parts.1 ++ parts.2 ++
      epilogue ctx.framePointer }

theorem lowerDeclaration_eq (decl : FunctionDecl) (sig : Signature) :
    lowerDeclaration decl sig = lowerParts decl sig >>= closeParts := by
  have read_bind : ∀ {α β : Type} (step : Emit α) (rest : Context → α → Emit β),
      (read >>= fun ctx => step >>= rest ctx) =
        step >>= fun value => read >>= fun ctx => rest ctx value := by
    intro α β step rest
    rfl
  unfold lowerDeclaration lowerParts closeParts
  simp only [bind_assoc, pure_bind, read_bind]

theorem composed_lowerParts (decl : FunctionDecl) (sig : Signature) :
    Composed decl.body.callees (lowerParts decl sig) := by
  refine (composed_bindParams _ _ _).after fun _ => ?_
  refine (composed_lowerBlock decl.body sig.result).before fun result => ?_
  exact (composed_lowerResult _ _).after fun _ => .pure _

theorem closeParts_apply (parts : Code × Code) (ctx : Context) (work : Workspace) :
    closeParts parts ctx work = match work.frame.resolve.2 with
      | .error cause => .error (.frame cause) work
      | .ok _ =>
        match work.locals.finish with
        | .error fault => .error fault work
        | .ok (locals, _) => .ok
            { locals
              frame := work.frame.resolve.1
              code := prologue ctx.framePointer ++ parts.1 ++ parts.2 ++
                epilogue ctx.framePointer } work := by
  unfold closeParts
  rw [read_bind_apply, get_bind_apply]
  dsimp only
  cases work.frame.resolve.2 with
  | error cause => rfl
  | ok _ => cases work.locals.finish <;> rfl

section Function

variable {layouts : Layouts}

theorem requests_of_lowerFunction
    (lowered : (lowerFunction config layouts signatures decl sig).body = .ok body) :
    (lowerFunction config layouts signatures decl sig).requests = decl.body.callees := by
  obtain ⟨next, runs, requests_eq⟩ := runs_of_lowerFunction lowered
  rw [lowerDeclaration_eq] at runs
  obtain ⟨parts, mid, lowers, closes⟩ := runs.bind
  have asked := ((composed_lowerParts decl sig).of_runs lowers).2
  have kept : next.requests = mid.requests := by
    have closed := (closeParts_apply parts _ mid).symm.trans closes
    split at closed
    · cases closed
    · split at closed
      · cases closed
      · injection closed with _ same
        rw [same]
  rw [requests_eq, kept, asked]
  rfl

/-- A function that is refused is refused with a fault that says something, unless it asks
for a function whose declaration is faulty. -/
theorem loud_of_lowerFunction
    (refused : (lowerFunction config layouts signatures decl sig).body = .error fault) :
    fault.Loud ∨ fault = .semantic [] ∧
      ∃ name ∈ decl.body.callees, signatures.lookup name = some none := by
  have stops := stops_of_lowerFunction refused
  rw [lowerDeclaration_eq] at stops
  rcases stops_bind.mp stops with stops | ⟨parts, mid, -, next, closes⟩
  · exact (composed_lowerParts decl sig).of_stops stops (.refl _)
  · refine .inl ?_
    have closed := (closeParts_apply parts _ mid).symm.trans closes
    split at closed
    · injection closed with same
      subst same
      trivial
    · split at closed
      · rename_i failed
        injection closed with same
        subst same
        unfold LocalPool.finish at failed
        split at failed
        · injection failed with same
          subst same
          trivial
        · cases failed
      · cases closed

end Function

end Lowering
end StructWasm

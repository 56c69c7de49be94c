import StructWasm.Proofs.Scalar.Agreement

/-!
# Types that contexts want

Lowering and evaluation give number literals the same types. The type of a scalar
expression follows from the types of the variables alone, and these are the same for
both.
-/

namespace StructWasm.Lowering

theorem resolve_of_isWord {note : TypeNote} (isWord : note.isWord = true) (layouts : Layouts) :
    ∃ type, Ty.primitive? note.type = some type ∧ layouts.resolve note.type = .ok type := by
  obtain ⟨written, span⟩ := note
  cases written with
  | named name => cases isWord
  | _ => exact ⟨_, rfl, rfl⟩

section Types

variable {types others : TypeEnv}

mutual

theorem staticType?_eq (same : types.variableType? = others.variableType?)
    (expr : Expr) (scalar : expr.isScalar = true) :
    staticType? types expr = staticType? others expr := by
  match expr with
  | .number _ _ => rfl
  | .bool _ _ => rfl
  | .literal _ _ _ => cases scalar
  | .var _ name => exact congrFun same name
  | .call _ _ _ => cases scalar
  | .field _ _ _ => cases scalar
  | .binary _ left op right =>
    obtain ⟨leftScalar, rightScalar⟩ := (Bool.and_eq_true _ _).mp scalar
    rw [staticType?, staticType?, staticType?_eq same left leftScalar,
      staticType?_eq same right rightScalar]
  | .not _ _ => rfl
  | .negate _ operand => exact staticType?_eq same operand scalar
  | .choice _ choice => exact choiceType?_eq same choice scalar
  | .block _ block => exact blockType?_eq same block scalar
  | .parens _ inner => exact staticType?_eq same inner scalar

theorem choiceType?_eq (same : types.variableType? = others.variableType?)
    (choice : Choice) (scalar : choice.isScalar = true) :
    choiceType? types choice = choiceType? others choice := by
  match choice with
  | { condition, thenBlock, otherwise, span } =>
    obtain ⟨scalar, otherwiseScalar⟩ := (Bool.and_eq_true _ _).mp scalar
    obtain ⟨-, thenScalar⟩ := (Bool.and_eq_true _ _).mp scalar
    rw [choiceType?, choiceType?, blockType?_eq same thenBlock thenScalar,
      alternativeType?_eq same otherwise otherwiseScalar]

theorem alternativeType?_eq (same : types.variableType? = others.variableType?)
    (otherwise : Option Alternative) (scalar : alternativeIsScalar otherwise = true) :
    alternativeType? types otherwise = alternativeType? others otherwise := by
  match otherwise with
  | none => rfl
  | some (.block block) => exact blockType?_eq same block scalar
  | some (.choice choice) => exact choiceType?_eq same choice scalar

theorem blockType?_eq (same : types.variableType? = others.variableType?)
    (block : Block) (scalar : block.isScalar = true) :
    blockType? types block = blockType? others block := by
  match block with
  | { statements, tail := none, span } => rfl
  | { statements, tail := some tail, span } =>
    obtain ⟨statementsScalar, tailScalar⟩ := (Bool.and_eq_true _ _).mp scalar
    have tailType := staticType?_eq same tail tailScalar
    have declaredTypes (name : String) := declaredType?_eq same name statements statementsScalar
    cases tail with
    | var _ name => rw [blockType?, blockType?, declaredTypes name, congrFun same name]
    | _ => exact tailType

theorem declaredType?_eq (same : types.variableType? = others.variableType?)
    (name : String) (statements : List Stmt) (scalar : statementsAreScalar statements = true) :
    declaredType? types name statements = declaredType? others name statements := by
  match statements with
  | [] => rfl
  | stmt :: rest =>
    obtain ⟨statementScalar, restScalar⟩ := (Bool.and_eq_true _ _).mp scalar
    rw [declaredType?, declaredType?, declaredType?_eq same name rest restScalar,
      statementType?_eq same name stmt statementScalar]

theorem statementType?_eq (same : types.variableType? = others.variableType?)
    (name : String) (stmt : Stmt) (scalar : stmt.isScalar = true) :
    statementType? types name stmt = statementType? others name stmt := by
  match stmt with
  | .declare _ declared (some note) (some initial) =>
    obtain ⟨isWord, -⟩ := (Bool.and_eq_true _ _).mp scalar
    obtain ⟨type, primitive, resolved⟩ := resolve_of_isWord isWord types.layouts
    obtain ⟨other, primitiveToo, resolvedToo⟩ := resolve_of_isWord isWord others.layouts
    obtain rfl : type = other := Option.some.inj (primitive.symm.trans primitiveToo)
    rw [statementType?, statementType?, resolved, resolvedToo]
  | .declare _ declared none (some initial) =>
    rw [statementType?, statementType?, staticType?_eq same initial scalar]
  | .declare _ _ (some _) none => cases scalar
  | .declare _ _ none none => cases scalar
  | .assign _ _ _ => rfl
  | .loop _ _ _ => rfl
  | .leave _ _ => rfl
  | .evaluate _ _ => rfl

end

section

variable (same : types.variableType? = others.variableType?)
include same

theorem operandHint?_eq (leftScalar : left.isScalar = true)
    (rightScalar : right.isScalar = true) (op : BinaryOp) (want : Option Ty) :
    types.operandHint? op want left right = others.operandHint? op want left right := by
  unfold TypeEnv.operandHint?
  rw [staticType?_eq same left leftScalar, staticType?_eq same right rightScalar]

theorem negationHint?_eq (scalar : operand.isScalar = true) (want : Option Ty) :
    types.negationHint? want operand = others.negationHint? want operand := by
  unfold TypeEnv.negationHint?
  rw [staticType?_eq same operand scalar]

theorem armHint?_eq (scalar : choice.isScalar = true) (want : Option Ty) :
    types.armHint? want choice = others.armHint? want choice := by
  unfold TypeEnv.armHint?
  rw [choiceType?_eq same choice scalar]

end

end Types

/-! ## Hints in lowering -/

/-- What names stand for in lowering. -/
def Context.types (ctx : Context) (scopes : List Scope) : TypeEnv :=
  { layouts := ctx.layouts
    variableType? := fun name => (lookup? scopes name).map Binding.type
    resultType? := fun name => (ctx.signature? name).join.bind Signature.result }

theorem Placing.Agrees.variableType?_eq {placing : Placing} {env : Environment}
    (agrees : placing.Agrees base scopes env locals) (ctx : Context) :
    env.types.variableType? = (ctx.types scopes).variableType? :=
  agrees.types_eq.symm

variable {next : Workspace}

theorem eq_of_runs_operandHint (runs : Runs (operandHint op want left right) ctx work hint next) :
    (ctx.types work.scopes).operandHint? op want left right = hint ∧ work = next := by
  unfold operandHint at runs
  obtain ⟨_, _, reads, runs⟩ := runs.bind
  obtain ⟨rfl, rfl⟩ := runs_typeEnv.mp reads
  unfold TypeEnv.operandHint?
  dsimp only at runs
  cases wanted : if op.isComparison then none else numericHint want with
  | some type =>
    rw [wanted] at runs
    exact runs.pure
  | none =>
    rw [wanted] at runs
    dsimp only at runs ⊢
    cases typed : staticType? (ctx.types work.scopes) left with
    | some type =>
      rw [Context.types] at typed
      rw [typed] at runs
      exact runs.pure
    | none =>
      rw [Context.types] at typed
      rw [typed] at runs
      exact runs.pure

theorem eq_of_runs_negationHint (runs : Runs (negationHint want operand) ctx work hint next) :
    (ctx.types work.scopes).negationHint? want operand = hint ∧ work = next := by
  unfold negationHint at runs
  obtain ⟨_, _, reads, runs⟩ := runs.bind
  obtain ⟨rfl, rfl⟩ := runs_typeEnv.mp reads
  unfold TypeEnv.negationHint?
  cases wanted : numericHint want with
  | some type =>
    rw [wanted] at runs
    exact runs.pure
  | none =>
    rw [wanted] at runs
    exact runs.pure

theorem predictedType_eq (ctx : Context) (scopes : List Scope) (choice : Choice)
    (want : Option Ty) : predictedType ctx scopes choice want =
      (ctx.types scopes).armHint? want choice :=
  rfl

end StructWasm.Lowering

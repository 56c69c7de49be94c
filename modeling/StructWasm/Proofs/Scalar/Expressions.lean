import StructWasm.Proofs.Scalar.Following
import StructWasm.Proofs.Scalar.Hints

/-!
# Scalar expressions are lowered to code that follows them

One result for each form of a scalar expression: if its parts are lowered to code that
follows them, so is the whole. Lowering an expression leaves the names as they are and
says whether a value is left on the operand stack.
-/

namespace StructWasm.Lowering

open Follows

open Wasm (Constant executeCode codeUsesFloat)

variable {ctx : Context} {work next : Workspace} {code : Code} {value : Value}

/-- A placing that has the locals of a state. -/
structure Placing.Serves (placing : Placing) (ctx : Context) (work : Workspace) : Prop where
  framePointer_eq : placing.framePointer = ctx.framePointer
  locals : work.locals.Extends placing.pool

variable {placing : Placing} {type : Ty} {left right : Expr} {step : Eval (Option Scalar)}

theorem Placing.Serves.of_extends (serves : placing.Serves ctx next)
    (grows : work.locals.Extends next.locals) : placing.Serves ctx work :=
  ⟨serves.framePointer_eq, grows.trans serves.locals⟩

/-- A value that an expression without structures and early returns may have. -/
def Value.IsPlain (value : Value) : Prop :=
  (∃ type, value = .scalar type) ∨ value = .nothing

theorem Value.IsPlain.scalar_of_isScalar (plain : value.IsPlain) (isScalar : value.IsScalar type) :
    value = .scalar type := by
  rcases isScalar with rfl | same
  · rcases plain with ⟨_, impossible⟩ | impossible <;> cases impossible
  · exact same

/-- What comes of lowering an expression: code that follows its evaluation. -/
structure Lowered (ctx : Context) (work next : Workspace) (code : Code) (value : Value)
    (step : Eval (Option Scalar)) : Prop where
  plain : Plain ctx next
  scopes_eq : next.scopes = work.scopes
  grows : work.locals.Extends next.locals
  isOpen : work.frame.resolved = false → next.frame.resolved = false
  isPlain : value.IsPlain
  follows : ∀ placing : Placing, placing.Serves ctx next →
    Follows placing work.scopes work.scopes [] code resultWords
      (fun result => resultValue result = value) step

/-- Whenever an expression is lowered without floats, its code follows its evaluation. -/
def Correct (ctx : Context) (lower : Emit (Code × Value)) (step : Eval (Option Scalar)) :
    Prop :=
  ∀ ⦃work next code value⦄, Plain ctx work →
    Runs lower ctx work (code, value) next → codeUsesFloat code = false →
      Lowered ctx work next code value step

/-! ## Literals and variables -/

theorem lowered_const (plain : Plain ctx work) (scalar : Scalar) :
    Lowered ctx work work [.const scalar.word] (.scalar scalar.type) (pure (some scalar)) where
  plain := plain
  scopes_eq := rfl
  grows := .refl _
  isOpen := id
  isPlain := .inl ⟨_, rfl⟩
  follows := fun placing _ => by
    refine instr (.ok (some scalar)) (fun stack locals globals => rfl) ?_ nofun
    rintro _ ⟨⟩
    rfl

variable {span : Span} {want : Option Ty}

theorem correct_number {integer? : Option Int} (integer_eq : number.integer? = integer?) :
    Correct ctx (lowerNumber number want span)
      (do return some (← Eval.check (literalScalar integer? want))) := by
  intro work next code value plain runs floatFree
  obtain ⟨scalar, literal_eq, rfl, rfl, rfl⟩ := literalScalar_of_lowerNumber runs floatFree
  rw [← integer_eq, literal_eq]
  exact lowered_const plain scalar

theorem correct_bool : Correct ctx (lowerExpr (.bool span holds) want)
      ((Expr.bool span holds).eval want) := by
  intro work next code value plain runs floatFree
  rw [lowerExpr] at runs
  obtain ⟨⟨rfl, rfl⟩, rfl⟩ := runs.pair
  exact lowered_const plain (.bool holds)

theorem correct_variable :
    Correct ctx (lowerExpr (.var span name) want) ((Expr.var span name).eval want) := by
  intro work next code value plain runs floatFree
  rw [lowerExpr, lowerVariable] at runs
  replace runs := runs_get_bind.mp runs
  split at runs
  · rename_i type place bound
    obtain ⟨⟨rfl, rfl⟩, rfl⟩ := runs.pair
    refine ⟨plain, rfl, .refl _, id, .inl ⟨_, rfl⟩, ?_⟩
    intro placing serves
    have reads : Follows placing work.scopes work.scopes [] [.localGet place] resultWords
        (fun result => resultValue result = .scalar type)
        ((get >>= fun env => Eval.given (env.value? name)) >>= fun value => pure (some value)) :=
      (localGet bound).map (fun value typed => congrArg Value.scalar typed) fun value _ => rfl
    rwa [bind_assoc] at reads
  · rename_i held bound
    obtain ⟨type, place, impossible⟩ := plain.scalars.of_lookup? bound
    cases impossible
  · exact runs.fail

/-! ## Operators -/

theorem correct_not (operandCorrect : ∀ want, Correct ctx (lowerExpr operand want)
      (operand.eval want)) :
    Correct ctx (lowerExpr (.not span operand) want) ((Expr.not span operand).eval want) := by
  intro work next code value plain runs floatFree
  rw [lowerExpr] at runs
  obtain ⟨⟨operandCode, operandValue⟩, lowered, lowers, runs⟩ := runs.bind
  obtain ⟨isScalar, runs⟩ := runs_expectScalar_bind.mp runs
  obtain ⟨⟨rfl, rfl⟩, rfl⟩ := runs.pair
  have result := operandCorrect _ plain lowers (Wasm.floatFree_append.mp floatFree).1
  obtain rfl := result.isPlain.scalar_of_isScalar isScalar
  refine ⟨result.plain, result.scopes_eq, result.grows, result.isOpen, .inl ⟨_, rfl⟩, ?_⟩
  intro placing serves
  refine (result.follows placing serves).bind fun given fit => ?_
  refine truth fit fun holds => ?_
  refine instr (.ok (some (Scalar.bool !holds))) ?_ ?_ (by rintro _ ⟨⟩)
  · intro stack locals globals
    cases holds <;> rfl
  · rintro _ ⟨⟩
    rfl

theorem Lowered.given (lowered : Lowered ctx work next code (.scalar type) step)
    (serves : placing.Serves ctx next) :
    Follows placing work.scopes work.scopes [] code (fun value => [value.word])
      (fun value => value.type = type) (step >>= Eval.given) := by
  rw [← List.append_nil code]
  refine (lowered.follows placing serves).bind fun result fit => ?_
  rw [← bind_pure (Eval.given result)]
  exact Follows.given fit fun value typed => .pure typed rfl

theorem floatFree_of_negate
    (runs : Runs (negate operandCode operandValue span) ctx work (code, value) next)
    (floatFree : codeUsesFloat code = false) : codeUsesFloat operandCode = false := by
  unfold negate at runs
  split at runs
  all_goals first
    | exact runs.fail
    | obtain ⟨same, -⟩ := runs.pure
      obtain ⟨rfl, -⟩ := Prod.mk.inj same
      exact (Wasm.floatFree_append.mp floatFree).1

/-- Lowering takes a number from zero. -/
theorem Lowered.negate (lowered : Lowered ctx work mid operandCode operandValue step)
    (runs : Runs (negate operandCode operandValue span) ctx mid (code, value) next)
    (floatFree : codeUsesFloat code = false) : Lowered ctx work next code value
      (do return some (← Eval.check (← Eval.given (← step)).negative)) := by
  unfold Lowering.negate at runs
  split at runs
  iterate 2
    · obtain ⟨⟨rfl, rfl⟩, rfl⟩ := runs.pair
      refine ⟨lowered.plain, lowered.scopes_eq, lowered.grows, lowered.isOpen, .inl ⟨_, rfl⟩, ?_⟩
      intro placing serves
      rw [← bind_assoc]
      refine const (((lowered.given serves).above _).bind fun operand typed => ?_)
      cases operand <;> cases typed
      exact .numeric (by first | exact execute_negate32 _ | exact execute_negate64 _) rfl
  iterate 2
    · obtain ⟨⟨rfl, rfl⟩, rfl⟩ := runs.pair
      cases (Wasm.floatFree_append.mp floatFree).2
  · exact runs.fail

theorem correct_negate (scalar : operand.isScalar = true)
    (operandCorrect : ∀ want, Correct ctx (lowerExpr operand want) (operand.eval want)) :
    Correct ctx (lowerExpr (.negate span operand) want) ((Expr.negate span operand).eval want) := by
  by_cases isNumber : ∃ numberSpan number, operand = .number numberSpan number
  · -- the negative of a literal is itself a literal
    obtain ⟨numberSpan, number, rfl⟩ := isNumber
    rw [lowerExpr, Expr.eval]
    exact correct_number number.integer?_negate
  · have notNumber (numberSpan : Span) (number : Binary64) :
        operand = .number numberSpan number → False :=
      fun same => isNumber ⟨numberSpan, number, same⟩
    have lowers_eq : lowerExpr (.negate span operand) want = (do
        let hint ← negationHint want operand
        let lowered ← lowerExpr operand hint
        negate lowered.1 lowered.2 operand.span) := by
      rw [lowerExpr]
      exact notNumber
    have evaluated : (Expr.negate span operand).eval want = get >>= fun env => do
        let value ← Eval.given (← operand.eval (env.types.negationHint? want operand))
        return some (← Eval.check value.negative) := by
      rw [Expr.eval]
      exact notNumber
    intro work next code value plain runs floatFree
    rw [lowers_eq] at runs
    obtain ⟨hint, _, hints, runs⟩ := runs.bind
    obtain ⟨rfl, rfl⟩ := eq_of_runs_negationHint hints
    obtain ⟨⟨operandCode, operandValue⟩, mid, lowers, negates⟩ := runs.bind
    have operandFree := floatFree_of_negate negates floatFree
    have lowered := (operandCorrect _ plain lowers operandFree).negate negates floatFree
    refine { lowered with follows := fun placing serves => ?_ }
    rw [evaluated]
    refine ofGet _ ?_ (lowered.follows placing serves)
    intro base env locals agrees
    rw [negationHint?_eq (agrees.variableType?_eq ctx) scalar]

variable (leftCorrect : ∀ want, Correct ctx (lowerExpr left want) (left.eval want))
  (rightCorrect : ∀ want, Correct ctx (lowerExpr right want) (right.eval want))
include leftCorrect rightCorrect

/-- The second operand is only looked at if it matters. -/
theorem correct_logical (logical : op = .and ∨ op = .or) :
    Correct ctx (lowerExpr (.binary span left op right) want)
      ((Expr.binary span left op right).eval want) := by
  intro work next code value plain runs floatFree
  have isLogical : (op == .and || op == .or) = true := by
    rcases logical with rfl | rfl <;> rfl
  rw [lowerExpr, if_pos isLogical] at runs
  obtain ⟨⟨leftCode, leftValue⟩, leftEnd, leftRuns, runs⟩ := runs.bind
  obtain ⟨leftScalar, runs⟩ := runs_expectScalar_bind.mp runs
  obtain ⟨_, rightStart, forks, runs⟩ := runs.bind
  obtain ⟨rfl, rfl⟩ := runs_fork.mp forks
  obtain ⟨⟨rightCode, rightValue⟩, rightEnd, rightRuns, runs⟩ := runs.bind
  obtain ⟨rightScalar, runs⟩ := runs_expectScalar_bind.mp runs
  obtain ⟨_, _, joins, runs⟩ := runs.bind
  obtain rfl := runs_joinOptional.mp joins
  obtain ⟨⟨rfl, rfl⟩, rfl⟩ := runs.pair
  obtain ⟨leftFree, rightFree⟩ := Wasm.floatFree_append.mp floatFree
  replace rightFree : codeUsesFloat rightCode = false := by
    rcases logical with rfl | rfl <;> simpa [logicalCode, codeUsesFloat, Wasm.Instr.usesFloat,
      Constant.type, Wasm.ValType.isFloat] using rightFree
  have leftLowered := leftCorrect _ plain leftRuns leftFree
  obtain rfl := leftLowered.isPlain.scalar_of_isScalar leftScalar
  rw [leftLowered.plain.forked_eq] at rightRuns
  have rightLowered := rightCorrect _ leftLowered.plain rightRuns rightFree
  obtain rfl := rightLowered.isPlain.scalar_of_isScalar rightScalar
  rw [rightLowered.plain.joinedOptional_eq rightLowered.scopes_eq.symm]
  refine ⟨rightLowered.plain, rightLowered.scopes_eq.trans leftLowered.scopes_eq,
    leftLowered.grows.trans rightLowered.grows,
    fun isOpen => rightLowered.isOpen (leftLowered.isOpen isOpen), .inl ⟨_, rfl⟩, ?_⟩
  intro placing serves
  have leftFollows := leftLowered.follows placing (serves.of_extends rightLowered.grows)
  have rightFollows := rightLowered.follows placing serves
  rw [leftLowered.scopes_eq] at rightFollows
  have rightArm : Follows placing work.scopes work.scopes [] rightCode resultWords
      (fun result => resultValue result = .scalar .bool)
      (do return some (.bool (← Eval.truth (← right.eval (some .bool))))) := by
    rw [← List.append_nil rightCode]
    refine rightFollows.bind fun given fit => truth fit fun holds => ?_
    exact .pure rfl rfl
  have constantArm (holds : Bool) := (lowered_const plain (.bool holds)).follows placing
    ⟨serves.framePointer_eq, (leftLowered.grows.trans rightLowered.grows).trans serves.locals⟩
  rcases logical with rfl | rfl
  · rw [Expr.eval]
    refine leftFollows.bind fun given fit => truth fit fun holds => ?_
    exact ifElse rightArm (constantArm false) (fun _ => types_resultWords) holds
  · rw [Expr.eval]
    refine leftFollows.bind fun given fit => truth fit fun holds => ?_
    exact ifElse (constantArm true) rightArm (fun _ => types_resultWords) holds

/-- Both operands are evaluated, the left one first. -/
theorem correct_binary (notAnd : op ≠ .and) (notOr : op ≠ .or) (leftScalar : left.isScalar = true)
    (rightScalar : right.isScalar = true) :
    Correct ctx (lowerExpr (.binary span left op right) want)
      ((Expr.binary span left op right).eval want) := by
  intro work next code value plain runs floatFree
  have notLogical : ¬(op == .and || op == .or) = true := by
    simp [notAnd, notOr]
  rw [lowerExpr, if_neg notLogical] at runs
  obtain ⟨hint, _, hints, runs⟩ := runs.bind
  obtain ⟨rfl, rfl⟩ := eq_of_runs_operandHint hints
  obtain ⟨⟨leftCode, leftValue⟩, leftEnd, leftRuns, runs⟩ := runs.bind
  obtain ⟨type, _, types, runs⟩ := runs.bind
  obtain ⟨rfl, rfl⟩ := runs_operandType.mp types
  obtain ⟨⟨rightCode, rightValue⟩, rightEnd, rightRuns, runs⟩ := runs.bind
  obtain ⟨isScalar, runs⟩ := runs_expectScalar_bind.mp runs
  obtain ⟨⟨instr, result⟩, _, finds, runs⟩ := runs.bind
  obtain ⟨found, rfl⟩ := runs_operatorFor.mp finds
  obtain ⟨⟨rfl, rfl⟩, rfl⟩ := runs.pair
  obtain ⟨operandsFree, -⟩ := Wasm.floatFree_append.mp floatFree
  obtain ⟨leftFree, rightFree⟩ := Wasm.floatFree_append.mp operandsFree
  have leftLowered := leftCorrect _ plain leftRuns leftFree
  have rightLowered := rightCorrect _ leftLowered.plain rightRuns rightFree
  obtain rfl := rightLowered.isPlain.scalar_of_isScalar isScalar
  refine ⟨rightLowered.plain, rightLowered.scopes_eq.trans leftLowered.scopes_eq,
    leftLowered.grows.trans rightLowered.grows,
    fun isOpen => rightLowered.isOpen (leftLowered.isOpen isOpen), .inl ⟨_, rfl⟩, ?_⟩
  intro placing serves
  have leftFollows := leftLowered.given (serves.of_extends rightLowered.grows)
  have rightFollows := rightLowered.given serves
  rw [leftLowered.scopes_eq] at rightFollows
  have evaluated : (Expr.binary span left op right).eval want = get >>= fun env => do
      let first ← Eval.given (← left.eval (env.types.operandHint? op want left right))
      let second ← Eval.given (← right.eval (some first.type))
      return some (← Eval.check (op.apply first second)) := by
    rw [Expr.eval]
    · exact notAnd
    · exact notOr
  rw [evaluated, List.append_assoc]
  refine ofGet (do
    let first ← left.eval ((ctx.types work.scopes).operandHint? op want left right) >>= Eval.given
    let second ← right.eval (some first.type) >>= Eval.given
    return some (← Eval.check (op.apply first second))) ?_ ?_
  · intro base env locals agrees
    rw [operandHint?_eq (agrees.variableType?_eq ctx) leftScalar rightScalar]
    simp only [bind_assoc]
  · refine leftFollows.bind fun first typed => ?_
    subst typed
    refine (rightFollows.above _).bind fun second typed => ?_
    obtain ⟨-, allows⟩ := execute_binaryOp found typed []
    exact .numeric (fun rest => (execute_binaryOp found typed rest).1) allows

end StructWasm.Lowering

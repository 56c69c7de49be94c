import StructWasm.Proofs.Scalar.Choices

/-!
# Scalar blocks and statements are lowered to code that follows them

A block declares variables in locals that are free, and gives them back at its end. A
statement may enter a name in the innermost scope, and leaves the outer ones as they
are.
-/

namespace StructWasm.Lowering

open Wasm (Constant executeCode codeUsesFloat)

variable {ctx : Context} {work next : Workspace} {code : Code} {value : Value}

/-- What comes of lowering statements: code that follows their evaluation. -/
structure LoweredFlow (ctx : Context) (work next : Workspace) (code : Code)
    (diverges : Bool) (step : Eval Unit) : Prop where
  plain : Plain ctx next
  tail_eq : next.scopes.tail = work.scopes.tail
  grows : work.locals.Extends next.locals
  isOpen : work.frame.resolved = false → next.frame.resolved = false
  reached : diverges = false
  follows : ∀ placing : Placing, placing.Serves ctx next →
    Follows placing work.scopes next.scopes [] code (fun _ => []) (fun _ => True) step

/-- Whenever statements are lowered without floats, their code follows their
evaluation. -/
def CorrectFlow (ctx : Context) (lower : Emit (Code × Bool)) (step : Eval Unit) : Prop :=
  ∀ ⦃work next code diverges⦄, Plain ctx work →
    Runs lower ctx work (code, diverges) next → codeUsesFloat code = false →
      LoweredFlow ctx work next code diverges step

/-! ## Blocks -/

theorem lowered_nothing (plain : Plain ctx work) :
    Lowered ctx work work [] .nothing (pure none) where
  plain := plain
  scopes_eq := rfl
  grows := .refl _
  isOpen := id
  isPlain := .inr rfl
  follows := fun _ _ => .pure rfl rfl

theorem correct_noAlternative :
    Correct ctx (lowerAlternative none want) (evalAlternative none want) := by
  intro work next code value plain runs floatFree
  unfold lowerAlternative at runs
  obtain ⟨⟨rfl, rfl⟩, rfl⟩ := runs.pair
  exact lowered_nothing plain

theorem correct_noTail : Correct ctx (lowerTail none want) (evalTail none want) := by
  intro work next code value plain runs floatFree
  unfold lowerTail at runs
  obtain ⟨⟨rfl, rfl⟩, rfl⟩ := runs.pair
  exact lowered_nothing plain

variable {span : Span} {want : Option Ty}

theorem correct_tail (tailCorrect : Correct ctx (lowerExpr tail want) (tail.eval want)) :
    Correct ctx (lowerTail (some tail) want) (evalTail (some tail) want) := by
  intro work next code value plain runs floatFree
  unfold lowerTail at runs
  obtain ⟨⟨tailCode, tailValue⟩, mid, lowers, runs⟩ := runs.bind
  dsimp only at runs
  split at runs
  · rename_i held
    obtain ⟨⟨more, temp⟩, _, rfl, rfl⟩ := runs.bindPair
    have lowered := tailCorrect plain lowers (Wasm.floatFree_append.mp floatFree).1
    rcases lowered.isPlain with ⟨_, impossible⟩ | impossible <;> cases impossible
  · obtain ⟨⟨rfl, rfl⟩, rfl⟩ := runs.pair
    exact tailCorrect plain lowers floatFree

variable {placing : Placing} {statements : List Stmt} {tail : Option Expr}
variable {type : Option TypeNote} {declared : Option Ty} {name : Ident}

theorem Placing.Agrees.leave (agrees : placing.Agrees base scopes env locals) :
    placing.Agrees base scopes.tail env.tail locals := by
  obtain ⟨sized, base_eq, keeps⟩ := agrees
  refine ⟨sized, base_eq, ?_⟩
  cases keeps with
  | nil => exact .nil
  | cons _ tail => exact tail

/-- A block is evaluated in a scope of its own. -/
theorem follows_block {before inner statementsCode tailCode} (inner_eq : inner.tail = before)
    (statementsFollow : Follows placing ([] :: before) inner [] statementsCode (fun _ => [])
      (fun _ => True) (evalStatements statements))
    (tailFollows : Follows placing inner inner [] tailCode resultWords
      (fun result => resultValue result = value) (evalTail tail want)) :
    Follows placing before before [] (statementsCode ++ tailCode) resultWords
      (fun result => resultValue result = value) (Block.eval { statements, tail, span } want) := by
  subst inner_eq
  rw [Block.eval]
  have enters : Follows placing inner.tail ([] :: inner.tail) [] [] (fun _ => [])
      (fun _ => True) (modify fun env => [] :: env) := by
    refine .changes fun base env locals agrees => ?_
    exact ⟨agrees.sized, agrees.base_eq, .cons .nil agrees.keeps⟩
  have leaves (result : Option Scalar) (fit : resultValue result = value) :
      Follows placing inner inner.tail (resultWords result) [] resultWords
        (fun result => resultValue result = value) (do modify List.tail; return result) := by
    refine Follows.bind (.changes fun base env locals agrees => agrees.leave) fun _ _ => ?_
    exact .pure fit rfl
  rw [← List.nil_append (statementsCode ++ tailCode), ← List.append_nil tailCode]
  exact enters.bind fun _ _ => statementsFollow.bind fun _ _ => tailFollows.bind leaves

theorem correct_block (statementsCorrect : CorrectFlow ctx (lowerStatements statements)
      (evalStatements statements))
    (tailCorrect : Correct ctx (lowerTail tail want) (evalTail tail want)) :
    Correct ctx (lowerBlock { statements, tail, span } want)
      (Block.eval { statements, tail, span } want) := by
  intro work next code value plain runs floatFree
  unfold lowerBlock at runs
  obtain ⟨_, entered, pushes, runs⟩ := runs.bind
  obtain rfl := runs_pushScope.mp pushes
  obtain ⟨⟨statementsCode, diverges⟩, mid, lowers, runs⟩ := runs.bind
  obtain ⟨⟨tailCode, tailValue⟩, last, lowersTail, runs⟩ := runs.bind
  have flow (statementsFree : codeUsesFloat statementsCode = false) :=
    statementsCorrect plain.pushScope lowers statementsFree
  dsimp only at runs
  split at runs
  · -- nothing in a scalar block ends the function
    rename_i isDiverging
    obtain ⟨dropCode, dropped, _, runs⟩ := runs.bind
    obtain ⟨_, _, rfl, rfl⟩ := runs.bindPair
    obtain ⟨parts, -⟩ := Wasm.floatFree_append.mp floatFree
    cases (flow (Wasm.floatFree_append.mp parts).1).reached.symm.trans isDiverging
  · obtain ⟨_, pops, rfl, rfl⟩ := runs.bindPair
    obtain ⟨statementsFree, tailFree⟩ := Wasm.floatFree_append.mp floatFree
    have statementsLowered := flow statementsFree
    have tailLowered := tailCorrect statementsLowered.plain lowersTail tailFree
    obtain ⟨plainAfter, frame_eq⟩ := tailLowered.plain.popScope pops
    obtain ⟨grows, popped_eq⟩ := grows_of_popScope pops
    have inner_eq : mid.scopes.tail = work.scopes := statementsLowered.tail_eq
    have scopes_eq : next.scopes = work.scopes := by
      rw [popped_eq, tailLowered.scopes_eq, inner_eq]
    refine ⟨plainAfter, scopes_eq, statementsLowered.grows.trans (tailLowered.grows.trans
      grows.locals), ?_, tailLowered.isPlain, ?_⟩
    · intro isOpen
      rw [frame_eq]
      exact tailLowered.isOpen (statementsLowered.isOpen isOpen)
    · intro placing serves
      have servesTail := serves.of_extends grows.locals
      exact follows_block inner_eq (statementsLowered.follows placing (servesTail.of_extends
        tailLowered.grows)) (tailLowered.follows placing servesTail)

/-! ## Statements -/

theorem correct_noStatements : CorrectFlow ctx (lowerStatements []) (evalStatements []) := by
  intro work next code diverges plain runs floatFree
  unfold lowerStatements at runs
  obtain ⟨⟨rfl, rfl⟩, rfl⟩ := runs.pair
  exact ⟨plain, rfl, .refl _, id, rfl, fun _ _ => .pure trivial rfl⟩

theorem correct_statements (statementCorrect : CorrectFlow ctx (lowerStatement stmt) stmt.eval)
    (restCorrect : CorrectFlow ctx (lowerStatements rest) (evalStatements rest)) :
    CorrectFlow ctx (lowerStatements (stmt :: rest)) (evalStatements (stmt :: rest)) := by
  intro work next code diverges plain runs floatFree
  unfold lowerStatements at runs
  obtain ⟨⟨firstCode, firstDiverges⟩, mid, lowers, runs⟩ := runs.bind
  obtain ⟨⟨more, othersDiverge⟩, lowersRest, rfl, rfl⟩ := runs.bindPair
  obtain ⟨firstFree, moreFree⟩ := Wasm.floatFree_append.mp floatFree
  have first := statementCorrect plain lowers firstFree
  have others := restCorrect first.plain lowersRest moreFree
  refine ⟨others.plain, others.tail_eq.trans first.tail_eq, first.grows.trans others.grows,
    fun isOpen => others.isOpen (first.isOpen isOpen), ?_, ?_⟩
  · rw [first.reached, others.reached]
    rfl
  · intro placing serves
    rw [evalStatements]
    exact (first.follows placing (serves.of_extends others.grows)).bind fun _ _ =>
      others.follows placing serves

theorem correct_evaluate
    (exprCorrect : ∀ want, Correct ctx (lowerExpr expr want) (expr.eval want)) :
    CorrectFlow ctx (lowerStatement (.evaluate span expr)) (Stmt.eval (.evaluate span expr)) := by
  intro work next code diverges plain runs floatFree
  unfold lowerStatement at runs
  obtain ⟨⟨valueCode, result⟩, mid, lowers, runs⟩ := runs.bind
  obtain ⟨dropCode, drops, rfl, rfl⟩ := runs.bindPair
  have lowered := exprCorrect _ plain lowers (Wasm.floatFree_append.mp floatFree).1
  obtain ⟨rfl, dropFollows⟩ := lowered.isPlain.discard drops
  refine ⟨lowered.plain, by rw [lowered.scopes_eq], lowered.grows, lowered.isOpen, ?_, ?_⟩
  · rcases lowered.isPlain with ⟨type, rfl⟩ | rfl <;> rfl
  · intro placing serves
    rw [Stmt.eval, lowered.scopes_eq]
    exact (lowered.follows placing serves).bind fun given fit =>
      dropFollows placing _ given fit trivial rfl

theorem eq_of_runs_resolveTypes (isWord : type.all TypeNote.isWord = true)
    (runs : Runs (type.mapM resolveType) ctx work declared next) :
    declared = type.bind (fun note => Ty.primitive? note.type) ∧ work = next := by
  cases type with
  | none =>
    obtain ⟨rfl, rfl⟩ := runs.pure
    exact ⟨rfl, rfl⟩
  | some note =>
    obtain ⟨written, primitive, resolved⟩ := resolve_of_isWord isWord ctx.layouts
    obtain ⟨type, resolves, rfl⟩ := runs_map.mp runs
    obtain ⟨found, rfl⟩ := runs_resolveType.mp resolves
    obtain rfl : written = type := Except.ok.inj (resolved.symm.trans found)
    exact ⟨primitive.symm, rfl⟩

theorem eq_of_runs_checkDeclared
    (runs : Runs (checkDeclared declared value span) ctx work result next) : work = next := by
  unfold checkDeclared at runs
  split at runs
  · split at runs
    · exact runs.pure.2
    · exact runs.fail
  · exact runs.pure.2

/-- A variable is declared in a local that no other variable has. -/
theorem correct_declare (isWord : type.all TypeNote.isWord = true)
    (initialCorrect : ∀ want, Correct ctx (lowerExpr initial want) (initial.eval want)) :
    CorrectFlow ctx (lowerStatement (.declare span name type (some initial)))
      (Stmt.eval (.declare span name type (some initial))) := by
  intro work next code diverges plain runs floatFree
  unfold lowerStatement at runs
  obtain ⟨declared, _, resolves, runs⟩ := runs.bind
  obtain ⟨rfl, rfl⟩ := eq_of_runs_resolveTypes isWord resolves
  obtain ⟨⟨initialCode, value⟩, lowered, lowers, runs⟩ := runs.bind
  obtain ⟨_, _, checks, runs⟩ := runs.bind
  obtain rfl := eq_of_runs_checkDeclared checks
  obtain ⟨⟨more, never⟩, declares, rfl, rfl⟩ := runs.bindPair
  have result := initialCorrect _ plain lowers (Wasm.floatFree_append.mp floatFree).1
  rcases result.isPlain with ⟨scalarType, rfl⟩ | rfl
  · unfold declareValue at declares
    obtain ⟨place, _, allocates, declares⟩ := declares.bind
    obtain ⟨locals, alloc, rfl⟩ := runs_allocateLocal.mp allocates
    obtain ⟨_, _, enters, declares⟩ := declares.bind
    obtain rfl := runs_declare.mp enters
    obtain ⟨⟨rfl, rfl⟩, rfl⟩ := declares.pair
    obtain ⟨ordered, held, fresh⟩ := result.plain.ordered.allocate alloc
    have grows := (LocalPool.allocate_spec alloc).1
    refine ⟨result.plain.enter name.name scalarType ordered held ?_, ?_,
      result.grows.trans grows, result.isOpen, rfl, ?_⟩
    · intro other mem
      exact fresh other (result.plain.held other mem)
    · rw [← result.scopes_eq]
      cases lowered.scopes <;> rfl
    · intro placing serves
      have servesInitial : placing.Serves ctx lowered :=
        ⟨serves.framePointer_eq, grows.trans serves.locals⟩
      have unused : place ∉ placing.framePointer :: placesOf work.scopes := by
        rw [serves.framePointer_eq, ← result.scopes_eq]
        intro mem
        exact (fresh place (result.plain.held place mem)).2 rfl
      rw [Stmt.eval]
      refine (result.follows placing servesInitial).bind fun given fit => ?_
      refine Follows.given fit fun value typed => ?_
      subst typed
      rw [result.scopes_eq]
      exact .declare (held.has.mono serves.locals) unused name.name value
  · exact declares.fail

/-- An assignment changes the local of the variable that the name stands for. -/
theorem correct_assign (exprCorrect : ∀ want, Correct ctx (lowerExpr expr want) (expr.eval want)) :
    CorrectFlow ctx (lowerStatement (.assign span [name] expr))
      (Stmt.eval (.assign span [name] expr)) := by
  intro work next code diverges plain runs floatFree
  unfold lowerStatement at runs
  obtain ⟨target, _, finds, runs⟩ := runs.bind
  replace finds := runs_get_bind.mp finds
  dsimp only at finds
  split at finds
  · exact finds.fail
  · rename_i type place bound _
    obtain ⟨rfl, rfl⟩ := finds.pure
    obtain ⟨⟨valueCode, result⟩, last, lowers, runs⟩ := runs.bind
    obtain ⟨isScalar, runs⟩ := runs_expectScalar_bind.mp runs
    obtain ⟨⟨rfl, rfl⟩, rfl⟩ := runs.pair
    have lowered := exprCorrect _ plain lowers (Wasm.floatFree_append.mp floatFree).1
    obtain rfl := lowered.isPlain.scalar_of_isScalar isScalar
    refine ⟨lowered.plain, by rw [lowered.scopes_eq], lowered.grows, lowered.isOpen, rfl, ?_⟩
    intro placing serves
    have inScope := Placing.mem_placesOf_of_lookup? bound
    have held := plain.held place (List.mem_cons_of_mem _ inScope)
    have distinct := plain.distinct
    rw [← serves.framePointer_eq] at distinct
    rw [Stmt.eval, lowered.scopes_eq]
    refine Follows.ofGet (expr.eval (some type) >>= fun given => Eval.given given >>= fun result =>
      Eval.assign name.name result) ?_ ?_
    · intro base env locals agrees
      have found := agrees.found name.name
      rw [bound] at found
      cases known : env.value? name.name with
      | none =>
        rw [known] at found
        exact found.elim
      | some value =>
        rw [known] at found
        obtain ⟨_, same, -⟩ := found
        injection same with type_eq
        rw [type_eq]
        rfl
    · refine (lowered.follows placing serves).bind fun given fit => ?_
      refine Follows.given fit fun value typed => ?_
      subst typed
      exact .assign bound distinct (held.has.mono (lowered.grows.trans serves.locals))
  · rename_i impossible
    cases impossible
  · rename_i held bound
    obtain ⟨type, place, impossible⟩ := plain.scalars.of_lookup? bound
    cases impossible

/-! ## All scalar programs -/

mutual

/-- The code of a scalar expression follows its evaluation. -/
theorem correct_lowerExpr (expr : Expr) (scalar : expr.isScalar = true) (want : Option Ty) :
    Correct ctx (lowerExpr expr want) (expr.eval want) := by
  match expr with
  | .number _ value =>
    rw [lowerExpr, Expr.eval]
    exact correct_number rfl
  | .bool _ _ => exact correct_bool
  | .var _ _ => exact correct_variable
  | .binary _ left op right =>
    obtain ⟨leftScalar, rightScalar⟩ := (Bool.and_eq_true _ _).mp scalar
    have leftCorrect := correct_lowerExpr left leftScalar
    have rightCorrect := correct_lowerExpr right rightScalar
    by_cases logical : op = .and ∨ op = .or
    · exact correct_logical leftCorrect rightCorrect logical
    · rw [not_or] at logical
      exact correct_binary leftCorrect rightCorrect logical.1 logical.2 leftScalar rightScalar
  | .not _ operand => exact correct_not (correct_lowerExpr operand scalar)
  | .negate _ operand => exact correct_negate scalar (correct_lowerExpr operand scalar)
  | .choice _ choice =>
    rw [lowerExpr, Expr.eval]
    exact correct_lowerChoice choice scalar want
  | .block _ block =>
    rw [lowerExpr, Expr.eval]
    exact correct_lowerBlock block scalar want
  | .parens _ inner =>
    rw [lowerExpr, Expr.eval]
    exact correct_lowerExpr inner scalar want
  | .literal _ _ _ => cases scalar
  | .call _ _ _ => cases scalar
  | .field _ _ _ => cases scalar

theorem correct_lowerChoice (choice : Choice) (scalar : choice.isScalar = true) (want : Option Ty) :
    Correct ctx (lowerChoice choice want) (choice.eval want) := by
  match choice with
  | { condition, thenBlock, otherwise, span } =>
    obtain ⟨parts, otherwiseScalar⟩ := (Bool.and_eq_true _ _).mp scalar
    obtain ⟨conditionScalar, thenScalar⟩ := (Bool.and_eq_true _ _).mp parts
    exact correct_choice scalar (correct_lowerExpr condition conditionScalar)
      (correct_lowerBlock thenBlock thenScalar) (correct_lowerAlternative otherwise otherwiseScalar)

theorem correct_lowerAlternative (otherwise : Option Alternative)
    (scalar : alternativeIsScalar otherwise = true) (want : Option Ty) :
    Correct ctx (lowerAlternative otherwise want) (evalAlternative otherwise want) := by
  match otherwise with
  | none => exact correct_noAlternative
  | some (.block block) =>
    rw [lowerAlternative, evalAlternative]
    exact correct_lowerBlock block scalar want
  | some (.choice choice) =>
    rw [lowerAlternative, evalAlternative]
    exact correct_lowerChoice choice scalar want

theorem correct_lowerBlock (block : Block) (scalar : block.isScalar = true) (want : Option Ty) :
    Correct ctx (lowerBlock block want) (block.eval want) := by
  match block with
  | { statements, tail, span } =>
    obtain ⟨statementsScalar, tailScalar⟩ := (Bool.and_eq_true _ _).mp scalar
    exact correct_block (correct_lowerStatements statements statementsScalar)
      (correct_lowerTail tail tailScalar want)

theorem correct_lowerTail (tail : Option Expr) (scalar : tailIsScalar tail = true)
    (want : Option Ty) : Correct ctx (lowerTail tail want) (evalTail tail want) := by
  match tail with
  | none => exact correct_noTail
  | some tail => exact correct_tail (correct_lowerExpr tail scalar want)

theorem correct_lowerStatements (statements : List Stmt)
    (scalar : statementsAreScalar statements = true) :
    CorrectFlow ctx (lowerStatements statements) (evalStatements statements) := by
  match statements with
  | [] => exact correct_noStatements
  | stmt :: rest =>
    obtain ⟨statementScalar, restScalar⟩ := (Bool.and_eq_true _ _).mp scalar
    exact correct_statements (correct_lowerStatement stmt statementScalar)
      (correct_lowerStatements rest restScalar)

theorem correct_lowerStatement (stmt : Stmt) (scalar : stmt.isScalar = true) :
    CorrectFlow ctx (lowerStatement stmt) stmt.eval := by
  match stmt with
  | .declare _ _ type (some initial) =>
    obtain ⟨isWord, initialScalar⟩ := (Bool.and_eq_true _ _).mp scalar
    exact correct_declare isWord (correct_lowerExpr initial initialScalar)
  | .assign _ [_] value => exact correct_assign (correct_lowerExpr value scalar)
  | .evaluate _ value => exact correct_evaluate (correct_lowerExpr value scalar)
  | .declare _ _ _ none => cases scalar
  | .assign _ [] _ => cases scalar
  | .assign _ (_ :: _ :: _) _ => cases scalar
  | .loop _ _ _ => cases scalar
  | .leave _ _ => cases scalar

end

end StructWasm.Lowering

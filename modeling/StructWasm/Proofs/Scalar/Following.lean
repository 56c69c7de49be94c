import StructWasm.Proofs.Scalar.Agreement

/-!
# Code that follows an evaluation

Code follows a step of evaluation if, from locals that agree with the variables, it
leaves the words of what the step gives and locals that agree with the variables
afterwards, or traps where the step traps. The step never comes to something that
evaluation has no rule for.

Following is compositional: code after code follows a step after a step.
-/

namespace StructWasm.Lowering

open Wasm (Constant executeCode)

variable {α β : Type}

theorem execute_localSet {placing : Placing} (has : placing.pool.Has place)
    {locals : List Constant} (inside : placing.number place < locals.length) (word : Constant)
    (stack globals : List Constant) :
    executeCode placing.resolver [.localSet place] ⟨[word] ++ stack, locals, globals⟩ =
      .ok ⟨stack, locals.set (placing.number place) word, globals⟩ := by
  rw [Wasm.executeCode_singleton, Wasm.Instr.execute]
  change (Wasm.known (placing.resolver.localIndex place) >>= fun index =>
    Wasm.put locals index word >>= _) = _
  rw [placing.localIndex_eq has]
  change (Wasm.put locals (placing.number place) word >>= _) = _
  rw [Wasm.put, if_pos inside]
  rfl

/-- What comes of executing code is what comes of an evaluation. -/
inductive Matches (placing : Placing) (base : Constant) (scopes : List Scope)
    (left : α → List Constant) (fits : α → Prop) (stack globals : List Constant) :
    Except Halt (α × Environment) → Except Halt Wasm.Machine → Prop where
  | done {result : α} {env : Environment} {locals : List Constant} :
      fits result → placing.Agrees base scopes env locals →
      Matches placing base scopes left fits stack globals (.ok (result, env))
        (.ok { stack := left result ++ stack, locals, globals })
  | trap : Matches placing base scopes left fits stack globals (.error .trap) (.error .trap)

/-- Code follows a step of evaluation. It takes some operands and leaves others. -/
def Follows (placing : Placing) (before after : List Scope) (taken : List Constant)
    (code : Code) (left : α → List Constant) (fits : α → Prop) (step : Eval α) : Prop :=
  ∀ (base : Constant) (env : Environment) (stack locals globals : List Constant),
    placing.Agrees base before env locals →
      Matches placing base after left fits stack globals (step env)
        (executeCode placing.resolver code { stack := taken ++ stack, locals, globals })

namespace Follows

variable {placing : Placing} {before after : List Scope} {taken : List Constant} {code : Code}
  {left : α → List Constant} {fits : α → Prop} {step : Eval α} {leftMore : β → List Constant}
  {fitsMore : β → Prop}

/-! ## Steps after each other -/

theorem pure (fit : fits result) (left_eq : left result = taken) :
    Follows placing before before taken [] left fits (pure result) := by
  intro base env stack locals globals agrees
  rw [← left_eq]
  exact .done fit agrees

theorem bind {rest : α → Eval β} (first : Follows placing before mid taken code left fits step)
    (second : ∀ result, fits result →
      Follows placing mid after (left result) more leftMore fitsMore (rest result)) :
    Follows placing before after taken (code ++ more) leftMore fitsMore (step >>= rest) := by
  intro base env stack locals globals agrees
  have firstMatches := first base env stack locals globals agrees
  rw [Wasm.executeCode_append]
  change Matches _ _ _ _ _ _ _ ((step env).bind fun out => rest out.1 out.2) _
  generalize step env = evaluated at firstMatches
  generalize executeCode placing.resolver code _ = executed at firstMatches
  cases firstMatches with
  | done fit agrees => exact second _ fit _ _ _ _ _ agrees
  | trap => exact .trap

section

variable (follows : Follows placing before after taken code left fits step)
include follows

theorem map {change : α → β} (fit : ∀ result, fits result → fitsMore (change result))
    (left_eq : ∀ result, fits result → leftMore (change result) = left result) :
    Follows placing before after taken code leftMore fitsMore
      (step >>= fun result => Pure.pure (change result)) := by
  rw [← List.append_nil code]
  exact follows.bind fun result fits => .pure (fit result fits) (left_eq result fits)

theorem above (below : List Constant) :
    Follows placing before after (taken ++ below) code (fun result => left result ++ below) fits
      step := by
  intro base env stack locals globals agrees
  have matching := follows base env (below ++ stack) locals globals agrees
  rw [List.append_assoc]
  generalize step env = evaluated at matching ⊢
  generalize executeCode placing.resolver code _ = executed at matching ⊢
  cases matching with
  | done fit agrees =>
    rw [← List.append_assoc]
    exact .done fit agrees
  | trap => exact .trap

end

theorem ofGet {rest : Environment → Eval α} (step : Eval α)
    (same : ∀ base env locals, placing.Agrees base before env locals → rest env = step)
    (follows : Follows placing before after taken code left fits step) :
    Follows placing before after taken code left fits (get >>= rest) := by
  intro base env stack locals globals agrees
  change Matches _ _ _ _ _ _ _ (rest env env) _
  rw [same base env locals agrees]
  exact follows base env stack locals globals agrees

theorem changes {change : Environment → Environment}
    (agree : ∀ base env locals, placing.Agrees base before env locals →
      placing.Agrees base after (change env) locals) :
    Follows placing before after taken [] (fun _ => taken) (fun _ => True) (modify change) := by
  intro base env stack locals globals agrees
  change Matches _ _ _ _ _ _ _ (.ok (PUnit.unit, change env)) _
  exact .done trivial (agree base env locals agrees)

/-! ## Single instructions -/

theorem instr {instr} (out : Except Halt α) (executes : ∀ stack locals globals,
      instr.execute placing.resolver { stack := taken ++ stack, locals, globals } =
        out.map fun result => { stack := left result ++ stack, locals, globals })
    (fit : ∀ result, out = .ok result → fits result)
    (traps : ∀ halt, out = .error halt → halt = .trap) :
    Follows placing before before taken [instr] left fits (Eval.check out) := by
  intro base env stack locals globals agrees
  rw [Wasm.executeCode_singleton, executes]
  cases out with
  | ok result => exact .done (fit result rfl) agrees
  | error halt =>
    obtain rfl := traps halt rfl
    exact .trap

theorem const (follows : Follows placing before after (word :: taken) code left fits step) :
    Follows placing before after taken (.const word :: code) left fits step :=
  follows

/-- A branch follows the choice between two steps. -/
theorem ifElse (thenFollows : Follows placing before after [] thenCode left fits thenStep)
    (elseFollows : Follows placing before after [] elseCode left fits elseStep)
    (typed : ∀ result, fits result → (left result).map Constant.type = type.results)
    (holds : Bool) :
    Follows placing before after [Wasm.truthWord holds] [.ifElse type thenCode elseCode] left fits
      (if holds then thenStep else elseStep) := by
  have arm {code : Code} {step : Eval α}
      (follows : Follows placing before after [] code left fits step)
      (base : Constant) (env : Environment) (stack locals globals : List Constant)
      (agrees : placing.Agrees base before env locals) :
      Matches placing base after left fits stack globals (step env)
        (executeCode placing.resolver code { stack := [], locals, globals } >>=
          Wasm.leaveBlock type stack) := by
    have matching := follows base env [] locals globals agrees
    rw [List.append_nil] at matching
    generalize step env = evaluated at matching ⊢
    generalize executeCode placing.resolver code _ = executed at matching ⊢
    cases matching with
    | @done result env locals fit agrees =>
      have left_eq : Wasm.leaveBlock type stack ⟨left result ++ [], locals, globals⟩ =
          .ok ⟨left result ++ stack, locals, globals⟩ := by
        rw [List.append_nil, Wasm.leaveBlock, if_pos (typed result fit)]
      change Matches _ _ _ _ _ _ _ _ (Wasm.leaveBlock type stack _)
      rw [left_eq]
      exact .done fit agrees
    | trap => exact .trap
  intro base env stack locals globals agrees
  rw [Wasm.executeCode_singleton]
  cases holds with
  | true => exact arm thenFollows base env stack locals globals agrees
  | false => exact arm elseFollows base env stack locals globals agrees

/-! ## Variables -/

variable {name : String}

theorem localGet (bound : lookup? before name = some (.scalar type place)) :
    Follows placing before before [] [.localGet place] (fun value => [value.word])
      (fun value => value.type = type) (get >>= fun env => Eval.given (env.value? name)) := by
  intro base env stack locals globals agrees
  have found := agrees.found name
  rw [bound] at found
  cases held : env.value? name with
  | none =>
    rw [held] at found
    exact found.elim
  | some value =>
    rw [held] at found
    obtain ⟨_, same, has, value_eq⟩ := found
    injection same with type_eq place_eq
    subst place_eq
    have executes : executeCode placing.resolver [.localGet place] ⟨[] ++ stack, locals, globals⟩ =
        .ok ⟨[value.word] ++ stack, locals, globals⟩ := by
      rw [Wasm.executeCode_singleton, Wasm.Instr.execute, placing.localIndex_eq has]
      change (Wasm.fetch locals (placing.number place) >>= _) = _
      rw [Wasm.fetch, value_eq]
      rfl
    rw [executes]
    change Matches _ _ _ _ _ _ _ (Eval.given (env.value? name) env) _
    rw [held]
    exact .done type_eq.symm agrees

theorem declare (has : placing.pool.Has place)
    (unused : place ∉ placing.framePointer :: placesOf before) (name : String) (value : Scalar) :
    Follows placing before (enter before name (.scalar value.type place)) [value.word]
      [.localSet place] (fun _ => []) (fun _ => True)
      (modify fun env => env.declare name value) := by
  intro base env stack locals globals agrees
  rw [execute_localSet has (agrees.sized place has)]
  exact .done trivial (agrees.declare name value has unused)

theorem assign {value : Scalar} (bound : lookup? before name = some (.scalar value.type place))
    (distinct : (placing.framePointer :: placesOf before).Nodup) (has : placing.pool.Has place) :
    Follows placing before before [value.word] [.localSet place] (fun _ => []) (fun _ => True)
      (Eval.assign name value) := by
  intro base env stack locals globals agrees
  obtain ⟨changed, assigned, agreesAfter⟩ := agrees.assign bound distinct has
  rw [execute_localSet has (agrees.sized place has)]
  change Matches _ _ _ _ _ _ _ (Eval.goOnWith (Environment.assign? name value env) env) _
  rw [assigned]
  exact .done trivial agreesAfter

end Follows

/-! ## Results of expressions -/

/-- What an expression leaves on the operand stack. -/
def resultWords (result : Option Scalar) : List Constant :=
  result.toList.map Scalar.word

/-- What lowering says of the result of an expression. -/
def resultValue : Option Scalar → Value
  | some value => .scalar value.type
  | none => .nothing

theorem type_word (value : Scalar) : value.word.type = value.type.valType := by
  cases value <;> rfl

theorem types_resultWords (fit : resultValue result = value) :
    (resultWords result).map Constant.type = (blockTypeOf value).results := by
  subst fit
  cases result with
  | none => rfl
  | some value => exact congrArg (· :: []) (type_word value)

namespace Follows

variable {placing : Placing} {before after : List Scope} {code : Code} {left : α → List Constant}
  {fits : α → Prop}

theorem given {rest : Scalar → Eval α} (fit : resultValue result = .scalar type)
    (follows : ∀ value : Scalar, value.type = type →
      Follows placing before after [value.word] code left fits (rest value)) :
    Follows placing before after (resultWords result) code left fits
      (Eval.given result >>= rest) := by
  cases result with
  | none => cases fit
  | some value =>
    injection fit with typed
    exact follows value typed

theorem numeric
    (executes : ∀ rest, op.execute (taken ++ rest) = out.map fun value => value.word :: rest)
    (allows : Halt.Allows type out) : Follows placing before before taken [.numeric op] resultWords
      (fun result => resultValue result = .scalar type)
      (Eval.check out >>= fun value => Pure.pure (some value)) := by
  have follows : Follows placing before before taken [.numeric op] (fun value => [value.word])
      (fun value => value.type = type) (Eval.check out) := by
    refine .instr out ?_ ?_ ?_
    · intro stack locals globals
      rw [Wasm.Instr.execute, executes]
      cases out <;> rfl
    · rintro value rfl
      exact allows
    · rintro halt rfl
      exact allows
  exact follows.map (fun value typed => congrArg Value.scalar typed) fun _ _ => rfl

theorem truth {rest : Bool → Eval α} (fit : resultValue result = .scalar .bool)
    (follows : ∀ holds : Bool,
      Follows placing before after [Wasm.truthWord holds] code left fits (rest holds)) :
    Follows placing before after (resultWords result) code left fits
      (Eval.truth result >>= rest) := by
  cases result with
  | none => cases fit
  | some value =>
    cases value with
    | bool holds => exact follows holds
    | i32 value => cases fit
    | i64 value => cases fit

end Follows

end StructWasm.Lowering

import StructWasm.Proofs.Scalar.Statements

/-!
# Scalar functions are lowered correctly

The parameters of a function come in its first locals. Around the code of its body a
function takes a frame from the stack and gives it back, so that the stack pointer is
what it was. What a call leaves on the operand stack is what evaluation gives, and a
call traps where evaluation does.
-/

namespace StructWasm.Lowering

open List Nat Except Int32 Scalar

open Wasm (Constant executeCode codeUsesFloat)

variable {next : Workspace} {code : Code} {value : Value}

/-! ## Parameters -/

/-- The local of a parameter. -/
def paramPlace (type : Ty) (pos : Nat) : LocalRef :=
  { type := type.valType, place := .param pos }

/-- Scopes with primitive parameters entered from a position on. -/
def enterParams (pos : Nat) : List (String × Ty) → List Scope → List Scope
  | [], scopes => scopes
  | (name, type) :: rest, scopes =>
    enterParams (pos + 1) rest
      (enter scopes name (.scalar type (paramPlace type pos)))

variable {params : List (String × Ty)} {span : Span} {scopes : List Scope}

theorem eq_of_runs_bindParams (scalar : ∀ param ∈ params, param.2.isStruct = false)
    (runs : Runs (bindParams pos span params) ctx work result next) :
    next = { work with scopes := enterParams pos params work.scopes } := by
  induction params generalizing pos work with
  | nil => exact runs.pure.2.symm
  | cons param rest ih =>
    obtain ⟨name, type⟩ := param
    have isScalar : ¬type.isStruct = true :=
      Bool.eq_false_iff.mp (scalar (name, type) mem_cons_self)
    unfold bindParams at runs
    dsimp only at runs
    rw [if_neg isScalar] at runs
    obtain ⟨_, _, declares, runs⟩ := runs.bind
    obtain rfl := runs_declare.mp declares
    exact ih (fun other mem => scalar other (mem_cons_of_mem _ mem))
      runs

theorem mem_placesOf_enter {type}
    (mem : other ∈ placesOf (enter scopes name (.scalar type place))) :
    other = place ∨ other ∈ placesOf scopes := by
  cases scopes with
  | nil => exact .inr mem
  | cons scope outer => exact mem_cons.mp mem

/-- Every parameter has a local of its own. -/
theorem Plain.enterParams (plain : Plain ctx work)
    (typed : ∀ index param, params[index]? = some param →
      work.locals.params[pos + index]? = some param.2.valType)
    (earlier : ∀ place ∈ ctx.framePointer :: placesOf work.scopes, ∀ later,
      place.place = .param later → later < pos) :
    Plain ctx { work with scopes := enterParams pos params work.scopes } := by
  induction params generalizing pos work with
  | nil => exact plain
  | cons param rest ih =>
    obtain ⟨name, type⟩ := param
    have held : work.locals.Holds (paramPlace type pos) := typed 0 (name, type) rfl
    have entered := plain.enter name type plain.ordered held fun other mem =>
      ⟨plain.held other mem, by
        rintro rfl
        exact lt_irrefl _ (earlier _ mem pos rfl)⟩
    refine ih entered ?_ ?_
    · intro index param found
      rw [add_assoc, add_comm 1 index]
      exact typed (index + 1) param found
    · intro place mem later same
      rcases mem_cons.mp mem with rfl | mem
      · exact lt_succ_of_lt (earlier _ mem_cons_self later same)
      · rcases mem_placesOf_enter mem with rfl | mem
        · injection same with same
          exact same ▸ lt_succ_self pos
        · exact lt_succ_of_lt (earlier _ (mem_cons_of_mem _ mem) later same)

/-- The locals of the parameters hold the arguments. -/
theorem Placing.Agrees.enterParams {placing : Placing} {env : Environment}
    (agrees : placing.Agrees base scopes env locals) (pos : Nat) (held : List (String × Scalar))
    (given : ∀ index entry, held[index]? = some entry →
      placing.pool.Has (paramPlace entry.2.type (pos + index)) ∧
        locals[placing.number (paramPlace entry.2.type (pos + index))]? = some entry.2.word) :
    placing.Agrees base
      (Lowering.enterParams pos (held.map fun entry => (entry.1, entry.2.type)) scopes)
      (held.foldl (fun env entry => env.declare entry.1 entry.2) env) locals := by
  induction held generalizing pos scopes env with
  | nil => exact agrees
  | cons entry rest ih =>
    obtain ⟨name, value⟩ := entry
    obtain ⟨has, value_eq⟩ := given 0 (name, value) rfl
    have entered : placing.Agrees base
        (enter scopes name (.scalar value.type (paramPlace value.type pos)))
        (env.declare name value) locals := by
      refine ⟨agrees.sized, agrees.base_eq, ?_⟩
      cases agrees.keeps with
      | nil => exact .nil
      | cons head tail => exact .cons (.cons ⟨rfl, _, rfl, has, value_eq⟩ head) tail
    refine ih entered (pos + 1) fun index entry found => ?_
    rw [add_assoc, add_comm 1 index]
    exact given (index + 1) entry found

theorem foldl_declare (held scope : List (String × Scalar)) :
    held.foldl (fun env entry => Environment.declare env entry.1 entry.2) [scope] =
      [held.reverse ++ scope] := by
  induction held generalizing scope with
  | nil => rfl
  | cons entry rest ih =>
    rw [foldl_cons, reverse_cons, append_assoc]
    exact ih (entry :: scope)

/-! ## Frames -/

section Frames

variable {placing : Placing} {size pointer : Nat} {locals globals : List Constant}

variable {top : Int32}

section

variable (size_eq : (Wasm.Offset.ofBase FrameNumber.size).value placing.resolver.base = .ok size)
include size_eq

variable (pointer_eq : placing.resolver.globalIndex .stackPointer = .ok pointer)
include pointer_eq

theorem execute_prologue (pointed : globals[pointer]? = some (.i32 top))
    (inside : placing.number placing.framePointer < locals.length) :
    executeCode placing.resolver (prologue placing.framePointer) ⟨[], locals, globals⟩ =
      .ok ⟨[], locals.set (placing.number placing.framePointer) (.i32 (top - Int32.ofNat size)),
        globals.set pointer (.i32 (top - Int32.ofNat size))⟩ := by
  have index_eq := placing.localIndex_eq placing.hasFramePointer
  have pointerInside := (List.getElem?_eq_some_iff.mp pointed).1
  have subtracts : Wasm.NumericOp.i32Sub.execute [.i32 (Int32.ofNat size), .i32 top] =
      .ok [.i32 (top - Int32.ofNat size)] := rfl
  simp only [prologue, executeCode, Wasm.Instr.execute, Wasm.known, Wasm.fetch, Wasm.put,
    pointer_eq, pointed, size_eq, subtracts, index_eq, inside, pointerInside, if_true,
    Except.mapError, bind, Except.bind, pure, Except.pure]

theorem execute_epilogue
    (base_eq : locals[placing.number placing.framePointer]? = some (.i32 bottom))
    (pointerInside : pointer < globals.length) (stack : List Constant) :
    executeCode placing.resolver (epilogue placing.framePointer) ⟨stack, locals, globals⟩ =
      .ok ⟨stack, locals, globals.set pointer (.i32 (bottom + Int32.ofNat size))⟩ := by
  have index_eq := placing.localIndex_eq placing.hasFramePointer
  have adds : Wasm.NumericOp.i32Add.execute (.i32 (Int32.ofNat size) :: .i32 bottom :: stack) =
      .ok (.i32 (bottom + Int32.ofNat size) :: stack) := rfl
  simp only [epilogue, executeCode, Wasm.Instr.execute, Wasm.known, Wasm.fetch, Wasm.put,
    index_eq, base_eq, size_eq, adds, pointer_eq, pointerInside, if_true, Except.mapError, bind,
    Except.bind, pure, Except.pure]

end

theorem set_set_pointer (pointed : globals[pointer]? = some (.i32 top)) (moved : Int32) :
    (globals.set pointer (.i32 (top - moved))).set pointer (.i32 (top - moved + moved)) =
      globals := by
  obtain ⟨inside, top_eq⟩ := List.getElem?_eq_some_iff.mp pointed
  rw [set_set, Int32.sub_add_cancel, ← top_eq, set_getElem_self]

/-- Around code that follows an evaluation a frame is taken and given back. -/
theorem execute_framed (placing : Placing)
    (size_eq : (Wasm.Offset.ofBase FrameNumber.size).value placing.resolver.base = .ok size)
    (pointer_eq : placing.resolver.globalIndex .stackPointer = .ok pointer)
    (pointed : globals[pointer]? = some (.i32 top))
    (inside : placing.number placing.framePointer < locals.length)
    (agrees : ∀ base, placing.Agrees base scopes env
      (locals.set (placing.number placing.framePointer) base))
    (follows : Follows placing scopes scopes [] code resultWords
      (fun result => resultValue result = value) step) :
    ((executeCode placing.resolver
        (prologue placing.framePointer ++ code ++ epilogue placing.framePointer)
        ⟨[], locals, globals⟩).map fun machine => (machine.stack, machine.globals)) =
      ((step env).map fun out => (resultWords out.1, globals)) ∧ step env ≠ .error .stuck ∧
    ∀ out, step env = .ok out → resultValue out.1 = value := by
  have matching := follows (.i32 (top - Int32.ofNat size)) env [] _
    (globals.set pointer (.i32 (top - Int32.ofNat size))) (agrees _)
  have stillInside : pointer < (globals.set pointer (.i32 (top - Int32.ofNat size))).length := by
    rw [length_set]
    exact (List.getElem?_eq_some_iff.mp pointed).1
  rw [Wasm.executeCode_append, Wasm.executeCode_append,
    execute_prologue size_eq pointer_eq pointed inside]
  change Except.map _ (executeCode placing.resolver code _ >>= _) = _ ∧ _
  rw [append_nil] at matching
  generalize step env = evaluated at matching ⊢
  generalize executeCode placing.resolver code _ = executed at matching ⊢
  cases matching with
  | @done result after locals fit agrees =>
    refine ⟨?_, nofun, ?_⟩
    · change Except.map _ (executeCode placing.resolver (epilogue placing.framePointer) _) = _
      rw [execute_epilogue size_eq pointer_eq agrees.base_eq stillInside,
        set_set_pointer pointed, append_nil]
      rfl
    · rintro _ ⟨⟩
      exact fit
  | trap => exact ⟨rfl, nofun, nofun⟩

end Frames

/-! ## Functions -/

/-- A scalar function hands its value over as it is. -/
theorem eq_of_runs_lowerResult (planned : ctx.result = resultPlan result)
    (plain : value.IsPlain) (runs : Runs (lowerResult value span) ctx work resultCode next) :
    resultCode = [] ∧ work = next ∧ result.any Ty.isStruct = false ∧
      ∀ given, resultValue given = value → given.map type = result := by
  unfold lowerResult at runs
  replace runs := runs_read_bind.mp runs
  rw [planned] at runs
  cases result with
  | none =>
    rcases plain with ⟨type, rfl⟩ | rfl
    · exact runs.fail
    · obtain ⟨rfl, rfl⟩ := runs.pure
      refine ⟨rfl, rfl, rfl, ?_⟩
      rintro (_ | given) fit
      · rfl
      · cases fit
  | some wanted =>
    unfold resultPlan at runs
    cases isStruct : wanted.isStruct with
    | true =>
      simp only [isStruct, if_true] at runs
      rcases plain with ⟨type, rfl⟩ | rfl
      · obtain ⟨_, _, expects, runs⟩ := runs.bind
        cases (runs_expectStruct expects).1
      · exact runs.fail
    | false =>
      simp only [isStruct, Bool.false_eq_true, if_false] at runs
      rcases plain with ⟨type, rfl⟩ | rfl
      · obtain ⟨isScalar, runs⟩ := runs_expectScalar_bind.mp runs
        obtain ⟨rfl, rfl⟩ := runs.pure
        refine ⟨rfl, rfl, isStruct, ?_⟩
        rintro (_ | given) fit
        · cases fit
        · rcases isScalar with impossible | same
          · cases impossible
          · injection fit.trans same with typed
            exact congrArg some typed
      · exact runs.fail

/-- The locals of a function once they are numbered. -/
def Body.placing (body : Body) (functionIndex : String → Except Fault Nat)
    (globalIndex : GlobalName → Nat) (framePointer : LocalRef)
    (finished : body.locals.finished = true) (has : body.locals.Has framePointer) : Placing where
  pool := body.locals
  framePointer := framePointer
  resolver := body.resolver functionIndex globalIndex
  number := body.locals.number
  localIndex_eq := fun _ => by
    change (body.locals.index _).get.mapError Fault.deferred = _
    rw [LocalPool.get_index finished]
    rfl
  injective := LocalPool.number_injective
  hasFramePointer := has

theorem Body.value_frameSize {body : Body} {size} (size_eq : body.frame.frameSize = some size)
    (small : size < Frame.addressLimit) (functionIndex : String → Except Fault Nat)
    (globalIndex : GlobalName → Nat) :
    (Wasm.Offset.ofBase FrameNumber.size).value (body.resolver functionIndex globalIndex).base =
      .ok size := by
  have base_eq : (body.resolver functionIndex globalIndex).base .size = .ok size := by
    change (body.frameNumber .size).get.mapError Fault.deferred = _
    rw [Body.frameNumber, Deferred.get, size_eq]
    rfl
  change ((body.resolver functionIndex globalIndex).base .size >>= _) = _
  rw [base_eq]
  exact if_pos small

section Function

variable {config : Config} {layouts : Layouts} {signatures : List (String × Option Signature)}
  {decl : FunctionDecl} {sig : Signature} {body : Body}

theorem plain_functionStart :
    Plain (functionContext config layouts signatures sig) (functionStart config sig) where
  scalars := by
    rintro scope inScopes entry inScope
    obtain rfl := mem_singleton.mp inScopes
    cases inScope
  held := by
    intro place mem
    obtain rfl := mem_singleton.mp mem
    rfl
  distinct := pairwise_singleton _ _
  ordered := ⟨nodup_nil, nofun⟩

/-- The arguments of a function by the names of its parameters. -/
def namedArguments (decl : FunctionDecl) (arguments : List Scalar) : List (String × Scalar) :=
  (decl.params.map fun param => param.name.name).zip arguments

theorem getElem?_wasmParams {type} (param : sig.params[index]? = some type) :
    sig.wasmType.params[firstParam sig + index]? = some type.valType := by
  have placed : (sig.params.map Ty.valType)[index]? = some type.valType := by
    rw [getElem?_map, param]
    rfl
  unfold Signature.wasmType firstParam
  cases sig.result with
  | none => simpa using placed
  | some result =>
    cases isStruct : result.isStruct with
    | true => simpa [isStruct, add_comm 1 index] using placed
    | false => simpa [isStruct] using placed

theorem wasmParams_eq (notStruct : sig.result.any Ty.isStruct = false) :
    firstParam sig = 0 ∧ sig.wasmType.params = sig.params.map Ty.valType := by
  unfold Signature.wasmType firstParam
  cases result_eq : sig.result with
  | none => exact ⟨rfl, rfl⟩
  | some result =>
    rw [result_eq] at notStruct
    have isScalar : ¬result.isStruct = true := Bool.eq_false_iff.mp notStruct
    simp [isScalar]

section Arguments

variable {arguments : List Scalar}

section

variable (typed : arguments.map type = sig.params)
include typed

theorem paramsOf_eq : paramsOf decl sig =
      (namedArguments decl arguments).map fun entry => (entry.1, entry.2.type) := by
  unfold paramsOf namedArguments
  rw [← typed, zip_map_right]
  rfl

theorem getElem?_params_of_namedArguments {index : Nat} {entry : String × Scalar}
    (named : (namedArguments decl arguments)[index]? = some entry) :
    arguments[index]? = some entry.2 ∧ sig.params[index]? = some entry.2.type := by
  have given := (getElem?_zip_eq_some.mp named).2
  refine ⟨given, ?_⟩
  rw [← typed, getElem?_map, given]
  rfl

theorem enterParams_of_run (run : DeclarationRun
    (functionContext config layouts signatures sig) decl sig
      (functionStart config sig) next body) :
    run.bound = { functionStart config sig with
      scopes := enterParams (firstParam sig)
        ((namedArguments decl arguments).map fun entry => (entry.1, entry.2.type)) [[]] } ∧
    Plain (functionContext config layouts signatures sig) run.bound := by
  have scalars : ∀ param ∈ paramsOf decl sig, param.2.isStruct = false := by
    rw [paramsOf_eq typed]
    intro param mem
    obtain ⟨⟨name, value⟩, -, rfl⟩ := mem_map.mp mem
    cases value <;> rfl
  have binds := eq_of_runs_bindParams scalars run.binds
  rw [paramsOf_eq typed] at binds
  refine ⟨binds, ?_⟩
  rw [binds]
  refine plain_functionStart.enterParams ?_ ?_
  · intro index param found
    rw [getElem?_map, Option.map_eq_some_iff] at found
    obtain ⟨entry, named, rfl⟩ := found
    exact getElem?_wasmParams (getElem?_params_of_namedArguments typed named).2
  · intro place mem later same
    obtain rfl := mem_singleton.mp mem
    cases same

end

/-- When a frame is taken, the first locals of a function hold its arguments. -/
theorem agrees_arguments (decl : FunctionDecl) (placing : Placing) {locals : List Constant}
    (typed : arguments.map Scalar.type = sig.params)
    (params_eq : placing.pool.params = sig.params.map Ty.valType)
    (number_eq : placing.number = placing.pool.number)
    (notParam : placing.framePointer.isParam = false) (locals_eq : arguments.map Scalar.word ++
      (Wasm.expandGroups placing.pool.groups).map Wasm.ValType.zero = locals) :
    placing.number placing.framePointer < locals.length ∧ ∀ base, placing.Agrees base
      (enterParams 0 ((namedArguments decl arguments).map fun entry => (entry.1, entry.2.type))
        [[]])
      [(namedArguments decl arguments).reverse]
      (locals.set (placing.number placing.framePointer) base) := by
  have sized (ref : LocalRef) (has : placing.pool.Has ref) :
      placing.number ref < locals.length := by
    have inside := (List.getElem?_eq_some_iff.mp (LocalPool.getElem?_number has)).1
    rw [params_eq, ← typed] at inside
    rw [number_eq, ← locals_eq]
    simpa using inside
  refine ⟨sized _ placing.hasFramePointer, ?_⟩
  intro base
  have start : placing.Agrees base [[]] [[]]
      (locals.set (placing.number placing.framePointer) base) := by
    refine ⟨?_, getElem?_set_self (sized _ placing.hasFramePointer), .cons .nil .nil⟩
    intro ref has
    rw [length_set]
    exact sized ref has
  have entered := start.enterParams 0 (namedArguments decl arguments) ?_
  · rw [foldl_declare, append_nil] at entered
    exact entered
  · intro index entry named
    obtain ⟨given, param⟩ := getElem?_params_of_namedArguments typed named
    rw [Nat.zero_add]
    have has : placing.pool.Has (paramPlace entry.2.type index) := by
      change placing.pool.params[index]? = _
      rw [params_eq, getElem?_map, param]
      rfl
    have ne : paramPlace entry.2.type index ≠ placing.framePointer := by
      intro same
      rw [← same] at notParam
      cases notParam
    refine ⟨has, ?_⟩
    rw [Placing.getElem?_set_of_ne placing.hasFramePointer has ne, number_eq, ← locals_eq]
    change (arguments.map Scalar.word ++ _)[index]? = _
    have inside : index < (arguments.map Scalar.word).length := by
      rw [length_map]
      exact (List.getElem?_eq_some_iff.mp given).1
    rw [getElem?_append_left inside, getElem?_map, given]
    rfl

end Arguments

/-- Calling a scalar function gives what evaluating it gives, or traps as evaluating it
does. There is always a rule for what is evaluated next. -/
theorem call_eq_eval
    (lowered : (lowerFunction config layouts signatures decl signature).body = .ok body)
    (scalar : decl.body.isScalar = true)
    (floatFree : codeUsesFloat body.code = false)
    (functionIndex : String → Except Fault Nat)
    (globalIndex : GlobalName → Nat)
    (arguments : List Scalar)
    (typed : arguments.map Scalar.type = signature.params)
    (globals : List Constant)
    {top : Int32}
    (pointed : globals[globalIndex .stackPointer]? = some (.i32 top)) :
    Wasm.FunctionBody.call (body.resolver functionIndex globalIndex)
        { locals := body.locals.groups, code := body.code } (arguments.map Scalar.word) globals =
      ((decl.eval signature.result arguments).map
        fun value => (value.toList.map Scalar.word, globals)) ∧
    decl.eval signature.result arguments ≠ .error .stuck ∧
    ∀ value, decl.eval signature.result arguments = .ok value →
      value.map Scalar.type = signature.result := by
  obtain ⟨next, runs, -⟩ := runs_of_lowerFunction lowered
  obtain ⟨run⟩ := declarationRun_of_runs runs
  obtain ⟨bound_eq, boundPlain⟩ := enterParams_of_run typed run
  have codeFree : codeUsesFloat run.code = false := by
    have free := floatFree
    rw [run.code_eq] at free
    simp only [Wasm.floatFree_append] at free
    exact free.1.1.2
  have result := correct_lowerBlock decl.body scalar signature.result boundPlain run.lowers codeFree
  obtain ⟨resultCode_eq, lowered_eq, notStruct, typedResult⟩ :=
    eq_of_runs_lowerResult rfl result.isPlain run.gives
  obtain ⟨first_eq, wasmParams_eq⟩ := wasmParams_eq notStruct
  -- the locals of the body are those that lowering left
  have finished : body.locals.finished = true := by rw [run.locals_eq]
  have extends_ : run.lowered.locals.Extends body.locals := by
    rw [run.locals_eq, lowered_eq]
    exact ⟨rfl, List.prefix_rfl⟩
  have hasPointer : body.locals.Has (functionContext config layouts signatures
    signature).framePointer :=
    (result.plain.held _ List.mem_cons_self).has.mono extends_
  have params_eq : body.locals.params = signature.params.map Ty.valType := by
    rw [extends_.params_eq, result.grows.params_eq, bound_eq]
    exact wasmParams_eq
  -- the frame has a size
  have isOpen : next.frame.resolved = false := by
    rw [← lowered_eq]
    refine result.isOpen ?_
    rw [bound_eq]
    rfl
  obtain ⟨size, size_eq, small⟩ := Frame.Allocator.exists_frameSize_of_resolve isOpen run.resolves
  have frame_eq := Body.value_frameSize size_eq small functionIndex globalIndex
  -- the code is that of the body between the taking and the giving back of the frame
  let placing := body.placing functionIndex globalIndex _ finished hasPointer
  have follows := result.follows placing ⟨rfl, extends_⟩
  rw [bound_eq, first_eq] at follows
  obtain ⟨inside, agrees⟩ := agrees_arguments decl placing typed params_eq rfl rfl rfl
  obtain ⟨executed, notStuck, fits⟩ :=
    execute_framed placing frame_eq rfl pointed inside agrees follows
  have code_eq : body.code = prologue placing.framePointer ++ run.code ++
      epilogue placing.framePointer := by
    rw [run.code_eq, resultCode_eq, List.append_nil]
    rfl
  rw [← code_eq] at executed
  have eval_eq : decl.eval signature.result arguments =
      (decl.body.eval signature.result [(namedArguments decl arguments).reverse]).map Prod.fst :=
    rfl
  rw [eval_eq]
  generalize decl.body.eval signature.result _ = evaluated at executed notStuck fits ⊢
  cases evaluated with
  | ok outcome =>
      refine ⟨executed, nofun, ?_⟩
      rintro _ ⟨⟩
      exact typedResult _ (fits outcome rfl)
  | error halt =>
      refine ⟨executed, ?_, nofun⟩
      rintro ⟨⟩
      exact notStuck rfl

/-- A function that halves a variable, changes it in a choice and shadows it in a block. -/
def shadowing : FunctionDecl :=
  let here : Span := .ofLines 1 1 1 1
  let ident (name : String) : Ident := { name, span := here }
  let number (value : Int) : Expr := .number here (.ofInt value)
  let x : Expr := .var here "x"
  let inner : Block :=
    { statements :=
        [.declare here (ident "x") none (some (.binary here x .multiply (number 3)))]
      tail := some x
      span := here }
  let choice : Choice :=
    { condition := .binary here (.binary here x .greater (number 3)) .and
        (.binary here (.var here "b") .equal (number 7))
      thenBlock :=
        { statements := [.assign here [ident "x"] (.negate here x)], tail := none, span := here }
      otherwise := none
      span := here }
  { name := ident "shadowing"
    params := [⟨ident "a", ⟨.i32, here⟩, here⟩, ⟨ident "b", ⟨.i64, here⟩, here⟩]
    result := some ⟨.i32, here⟩
    body :=
      { statements :=
          [.declare here (ident "x") none
            (some (.binary here (.var here "a") .divide (number 2))),
            .evaluate here (.choice here choice)]
        tail := some (.binary here (.block here inner) .add x)
        span := here }
    exported := true
    span := here }

theorem call_shadowing :
    ∃ body,
      (lowerFunction .standard .empty [] shadowing ⟨[.i32, .i64], some .i32⟩).body = .ok body ∧
      Wasm.FunctionBody.call (body.resolver (fun _ => .ok 0) fun _ => 0)
        { locals := body.locals.groups, code := body.code } [.i32 9, .i64 7] [.i32 65536] =
        .ok ([.i32 (-16)], [.i32 65536]) := by
  have accepted : (match (lowerFunction .standard .empty [] shadowing
      ⟨[.i32, .i64], some .i32⟩).body with
      | .ok body => !codeUsesFloat body.code
      | .error _ => false) = true := by
    decide +kernel
  have evaluated : shadowing.eval (some .i32) [.i32 9, .i64 7] = .ok (some (.i32 (-16))) := by
    decide +kernel
  cases lowered : (lowerFunction .standard .empty [] shadowing
      ⟨[.i32, .i64], some .i32⟩).body with
  | error fault =>
      rw [lowered] at accepted
      cases accepted
  | ok body =>
      rw [lowered, Bool.not_eq_true'] at accepted
      obtain ⟨called, -, -⟩ := call_eq_eval lowered (by decide +kernel) accepted
        (fun _ => .ok 0) (fun _ => 0) [.i32 9, .i64 7] rfl [.i32 65536] rfl
      rw [evaluated] at called
      exact ⟨body, rfl, called⟩

end Function

end StructWasm.Lowering

import StructWasm.Proofs.Lowering.EmissionSteps

/-!
# All code stays in its areas

One lemma for each kind of expression and statement, and then all kinds together: the
code accesses memory inside the slots of the frame and the structures of the caller only,
and it leaves the frame pointer alone.
-/

namespace StructWasm.Lowering

open Wasm List Frame.Allocator Layouts Emission

/-! ## What is shown -/

/-- What a function can see is in order: results are of known types, and the address for
a structure result is passed. -/
structure Grounded (ctx : Context) (passed : List Ty) : Prop where
  built : ctx.layouts.Built
  results : ∀ name sig, ctx.signature? name = some (some sig) →
    ∀ type, sig.result = some type → ctx.layouts.Known type
  result : ∀ type base, ctx.result = .struct type base →
    ctx.layouts.Known type ∧ type.isStruct = true ∧ ∃ pos,
      base = { type := .i32, place := .param pos } ∧ passed[pos]? = some type

/-- A lowering step gives code that stays in its areas. -/
def Emits (ctx : Context) (passed : List Ty) (step : Emit (Code × Value)) : Prop :=
  ∀ ⦃work next : Workspace⦄ ⦃code : Code⦄ ⦃value : Value⦄,
    Supported ctx work work.scopes → Sited ctx passed work →
    Runs step ctx work (code, value) next → Emission ctx passed work next code value

/-- A lowering step for statements gives code that stays in its areas. -/
def EmitsFlow (ctx : Context) (passed : List Ty) (step : Emit (Code × Bool)) : Prop :=
  ∀ ⦃work next : Workspace⦄ ⦃code : Code⦄ ⦃diverges : Bool⦄,
    Supported ctx work work.scopes → Sited ctx passed work →
    Runs step ctx work (code, diverges) next →
    Emission ctx passed work next code (flow diverges)

/-- The values of a structure literal are put inside its slot. -/
def EmitsFields (ctx : Context) (passed : List Ty) (fields : List FieldInit) : Prop :=
  ∀ ⦃layout : StructLayout⦄ ⦃address : Address⦄ ⦃work next : Workspace⦄ ⦃code : Code⦄,
    Supported ctx work work.scopes → Sited ctx passed work →
    ctx.layouts.get? layout.name = some layout → address.Within work →
    address.Spans ctx passed work.frame (.struct layout.name) →
    Runs (lowerFields layout address fields) ctx work code next →
    Emission ctx passed work next code .nothing

/-- What lowering arguments came to. -/
structure ArgumentEmission (ctx : Context) (passed : List Ty) (work next : Workspace)
    (code : Code) (types : List Ty) : Prop extends ArgumentTyping ctx work next code types where
  onward : work.frame.Onward next.frame
  sited : Sited ctx passed next
  emitted : Emitted ctx passed next code

def EmitsArguments (ctx : Context) (passed : List Ty) (arguments : List Expr) : Prop :=
  ∀ ⦃types : List Ty⦄ ⦃work next : Workspace⦄ ⦃code : Code⦄ ⦃slots : List Frame.Allocation⦄,
    arguments.length = types.length → Supported ctx work work.scopes →
    Sited ctx passed work → Runs (lowerArguments arguments types) ctx work (code, slots) next →
    ArgumentEmission ctx passed work next code types

variable {ctx : Context} {passed : List Ty} {work mid next : Workspace}
variable {code : Code} {value : Value}

variable {left right operand : Expr}

theorem Grounded.spans (grounded : Grounded ctx passed)
    (plan : ctx.result = .struct type base) (frame : Frame.Allocator) :
    Address.Spans ctx passed frame { base, offset := .fixed 0 } type := by
  obtain ⟨known, isStruct, pos, rfl, given⟩ := grounded.result type base plan
  refine ⟨known, fun _ => ⟨_, _, .param given isStruct, ?_, Nat.dvd_zero _, Nat.le_refl _⟩⟩
  exact Nat.le_of_eq (Nat.zero_add _)

/-! ## States in between -/

namespace Emission

section

variable (emit : Emission ctx passed work mid code value)
include emit

theorem withFrame (onward : mid.frame.Onward frame) :
    Emission ctx passed work { mid with frame } code value :=
  have grows := grows_withFrame onward.toExtends
  { emit.toTyping.grow grows
      (emit.supported.mono grows (emit.supported.scopes.mono grows)) with
    onward := emit.onward.trans onward
    sited := emit.sited.withFrame onward
    valueSited := emit.valueSited.mono onward
    emitted := emit.emitted.mono ⟨grows, onward⟩ }

theorem resume (later : Later mid last) (sited : Sited ctx passed last) (arena : Ownership.Arena) :
    Emission ctx passed work { last with scopes := mid.scopes, arena } code value :=
  have grows : Grows mid { last with scopes := mid.scopes, arena } :=
    ⟨later.grows.locals, later.grows.requests, later.grows.frame⟩
  { emit.toTyping.grow grows
      (emit.supported.mono grows (emit.supported.scopes.mono grows)) with
    onward := emit.onward.trans later.onward
    sited := sited.withScopes (emit.sited.scopes.mono later.onward) arena
    valueSited := emit.valueSited.mono later.onward
    emitted := emit.emitted.mono ⟨grows, later.onward⟩ }

theorem forked (loan : Option Ownership.Loan) :
    Emission ctx passed work (forked loan mid) code value :=
  have grows := grows_forked loan mid
  { emit.toTyping.grow grows (emit.supported.forked loan) with
    onward := emit.onward
    sited := emit.sited.withScopes (emit.sited.scopes.of_same
      (sameScopes_forkedScopes loan mid.scopes mid.arena)
      fun _ _ same sited => sited.of_same same) _
    valueSited := emit.valueSited
    emitted := emit.emitted.mono ⟨grows, .refl emit.sited.proper⟩ }

end

/-- Handing a value over as the result. -/
theorem lowerResult (grounded : Grounded ctx passed) {span}
    (emit : Emission ctx passed work mid code value)
    (runs : Runs (lowerResult value span) ctx mid more next) :
    Emission ctx passed work next (code ++ more) ctx.result.left := by
  have sitedLeft : ∀ frame, ctx.result.left.Sited ctx passed frame := by
    intro frame
    cases ctx.result <;> trivial
  unfold Lowering.lowerResult at runs
  replace runs := runs_read_bind.mp runs
  split at runs
  · obtain ⟨rfl, rfl⟩ := runs.pure
    rw [append_nil]
    exact emit.never (ctx.result.within_left _) (sitedLeft _)
  · rename_i plan
    obtain ⟨rfl, rfl⟩ := runs.pure
    rw [append_nil, plan]
    exact emit
  · exact runs.fail
  · exact runs.fail
  · exact runs.fail
  · rename_i type base plan _ _
    obtain ⟨held, _, expects, moves⟩ := runs.bind
    obtain ⟨rfl, rfl, rfl⟩ := runs_expectStruct expects
    rw [plan]
    obtain ⟨has, typed⟩ := emit.supported.result _ base plan
    exact emit.moveInto grounded.built moves ⟨has, typed, by rintro _ ⟨⟩⟩ (grounded.spans plan _)
  · rename_i type plan _ _
    obtain ⟨scalar, runs⟩ := runs_expectScalar_bind.mp runs
    obtain ⟨rfl, rfl⟩ := runs.pure
    rw [append_nil, plan]
    exact emit.isScalar scalar

end Emission

/-! ## Expressions -/

theorem emits_bool {span truth} (want : Option Ty) :
    Emits ctx passed (lowerExpr (.bool span truth) want) := by
  intro work next code value supported sited runs
  unfold lowerExpr at runs
  obtain ⟨⟨rfl, rfl⟩, rfl⟩ := runs.pair
  refine { nil supported sited with
    within := trivial, leaves := ?_, valueSited := trivial, emitted := .single rfl }
  rintro around covers labels before _ rfl
  exact .singleton .const

variable {span : Span} {name : Ident}

theorem get?_of_literalLayout (runs : Runs (literalLayout span name fields) ctx work layout next) :
    ctx.layouts.get? layout.name = some layout := by
  unfold literalLayout at runs
  replace runs := runs_read_bind.mp runs
  split at runs
  · exact runs.fail
  · rename_i found
    obtain ⟨_, _, -, runs⟩ := runs.bind
    dsimp only at runs
    split at runs
    · exact runs.fail
    · obtain ⟨rfl, -⟩ := runs.pure
      rw [name_of_get? found]
      exact found

theorem emits_literal (fieldsEmit : EmitsFields ctx passed fields) (want : Option Ty) :
    Emits ctx passed (lowerExpr (.literal span name fields) want) := by
  intro work next code value supported sited runs
  unfold lowerExpr at runs
  obtain ⟨layout, found, finds, runs⟩ := runs.bind
  obtain ⟨⟨slot, address⟩, alloc, allocates, runs⟩ := runs.bind
  obtain ⟨stored, stores, rfl, rfl⟩ := runs.bindPair
  have started := ((nil supported sited).calm
    ((onOwnership_literalLayout _ _ _).isCalm finds)).calm (isCalm_allocateStruct _ allocates)
  have mem := get?_of_literalLayout finds
  have seat := seat_of_allocateStruct allocates (known_struct (Option.isSome_of_eq_some mem))
  have within := seat.toStall.within started.supported
  have emit := fieldsEmit started.supported started.sited mem within seat.spans stores
  have stored := started.andThen emit
  exact { stored with
    within := within.mono emit.grows
    leaves := stored.leaves
    valueSited := seat.mono emit.onward }

theorem emits_field (built : ctx.layouts.Built)
    (objectEmits : ∀ want, Emits ctx passed (lowerExpr object want)) (want : Option Ty) :
    Emits ctx passed (lowerExpr (.field span object field) want) := by
  intro work next code value supported sited runs
  unfold lowerExpr at runs
  obtain ⟨⟨objectCode, objectValue⟩, mid, lowers, runs⟩ := runs.bind
  obtain ⟨⟨more, part⟩, finds, rfl, rfl⟩ := runs.bindPair
  exact (objectEmits none supported sited lowers).readField built finds

theorem sited_callValue {result? : Option Temporary}
    (known : ∀ type, sig.result = some type → ctx.layouts.Known type)
    (supported : Supported ctx work work.scopes)
    (runs : Runs (resultSlot sig) ctx work result? next) : (callValue sig result?).Within next ∧
      (callValue sig result?).Sited ctx passed next.frame ∧
      ∀ temp ∈ result?, temp.address.Within next := by
  unfold resultSlot at runs
  split at runs
  · rename_i noResult
    obtain ⟨rfl, -⟩ := runs.pure
    simp [callValue, noResult, Value.Within, Value.Sited]
  · rename_i type result
    split at runs
    · obtain ⟨⟨slot, address⟩, allocates, rfl⟩ := runs.bindPure
      have within := within_of_allocateStruct allocates supported
      refine ⟨within, seat_of_allocateStruct allocates (known type result), ?_⟩
      rintro _ ⟨⟩
      exact within
    · obtain ⟨rfl, -⟩ := runs.pure
      simp [callValue, result, Value.Within, Value.Sited]

theorem emits_call (grounded : Grounded ctx passed)
    (argumentsEmit : EmitsArguments ctx passed args) (want : Option Ty) :
    Emits ctx passed (lowerExpr (.call span name args) want) := by
  intro work next code value supported sited runs
  unfold lowerExpr at runs
  obtain ⟨sig, asked, asks, runs⟩ := runs.bind
  obtain ⟨result?, slotted, slots, runs⟩ := runs.bind
  obtain ⟨⟨passCode, taken⟩, last, passes, runs⟩ := runs.bind
  obtain ⟨_, releases, rfl, rfl⟩ := runs.bindPair
  obtain ⟨found, length_eq, rfl⟩ := runs_requestCallee asks
  have asking : Grows work { work with requests := work.requests ++ [name.name] } :=
    ⟨.refl _, fun _ mem => mem_append_left _ mem, .refl _⟩
  have askedSupported := supported.mono asking (supported.scopes.mono asking)
  have slotting := (slotwise_resultSlot _).isCalm slots
  have started := (nil askedSupported
    ⟨sited.proper, sited.ordered, sited.held, sited.scopes⟩).calm slotting
  obtain ⟨valueWithin, valueSited, addressWithin⟩ :=
    sited_callValue (grounded.results _ _ found) askedSupported slots
  have emit := argumentsEmit length_eq started.supported started.sited passes
  have releasing := isCalm_forM_release _ releases
  have later := releasing.later emit.sited.proper
  have grows := emit.grows.trans later.grows
  have requested : name.name ∈ next.requests := by
    apply grows.requests
    rw [slotting.requests_eq]
    exact mem_append_right _ (mem_singleton.mpr rfl)
  have calls : Emitted ctx passed next [.call name.name] := .single rfl
  refine {
    supported := emit.supported.of_calm releasing
    grows := (asking.trans started.grows).trans grows
    within := valueWithin.mono grows
    leaves := ?_
    onward := (started.onward.trans emit.onward).trans later.onward
    sited := emit.sited.calm releasing
    valueSited := (valueSited.mono emit.onward).mono later.onward
    emitted := Emitted.append (Emitted.append ?_ (emit.emitted.mono later)) calls }
  · intro around covers labels before after left
    exact typed_call slots (covers.functions name.name requested sig found)
      (fun temp given => covers.push ((addressWithin temp given).mono grows) labels _)
      (emit.leaves (covers.of_grows later.grows) labels) left
  · cases result? with
    | none => exact .nil
    | some temp => exact .push _

section Binary

variable (leftEmits : ∀ want, Emits ctx passed (lowerExpr left want))
  (rightEmits : ∀ want, Emits ctx passed (lowerExpr right want)) (want : Option Ty)
include leftEmits rightEmits

theorem emits_logical (logical : (op == .and || op == .or) = true) :
    Emits ctx passed (lowerExpr (.binary span left op right) want) := by
  intro work next code value supported sited runs
  unfold lowerExpr at runs
  rw [if_pos logical] at runs
  obtain ⟨⟨leftCode, leftValue⟩, evaluated, lowersLeft, runs⟩ := runs.bind
  obtain ⟨leftBool, runs⟩ := runs_expectScalar_bind.mp runs
  obtain ⟨_, _, forks, runs⟩ := runs.bind
  obtain ⟨rfl, rfl⟩ := runs_fork.mp forks
  obtain ⟨⟨rightCode, rightValue⟩, last, lowersRight, runs⟩ := runs.bind
  obtain ⟨rightBool, runs⟩ := runs_expectScalar_bind.mp runs
  obtain ⟨_, _, joins, runs⟩ := runs.bind
  obtain rfl := runs_joinOptional.mp joins
  obtain ⟨⟨rfl, rfl⟩, rfl⟩ := runs.pair
  have leftEmission := (leftEmits _ supported sited lowersLeft).isScalar leftBool
  have entry := leftEmission.forked none
  have rightEmission := (rightEmits _ entry.supported entry.sited lowersRight).isScalar rightBool
  have later : Later evaluated last :=
    ⟨(grows_forked none evaluated).trans rightEmission.grows, rightEmission.onward⟩
  have joined : Emission ctx passed work (joinedOptional evaluated.scopes last) leftCode _ :=
    leftEmission.resume later rightEmission.sited _
  have joinGrows := grows_joinedOptional evaluated.scopes last
  have rightEmitted : Emitted ctx passed (joinedOptional evaluated.scopes last) rightCode :=
    rightEmission.emitted.mono ⟨joinGrows, .refl rightEmission.sited.proper⟩
  refine { joined with within := trivial, leaves := ?_, emitted := joined.emitted.append ?_ }
  · rintro around covers labels before _ rfl
    have rightLeaves := rightEmission.leaves (covers.of_grows joinGrows) ([.i32] :: labels) [] _ rfl
    exact (joined.leaves covers labels before _ rfl).append (typed_logicalCode op rightLeaves)
  · unfold logicalCode
    split
    · exact .ifElse rightEmitted (.single rfl)
    · exact .ifElse (.single rfl) rightEmitted

theorem emits_arithmetic (arithmetic : ¬(op == .and || op == .or) = true) :
    Emits ctx passed (lowerExpr (.binary span left op right) want) := by
  intro work next code value supported sited runs
  unfold lowerExpr at runs
  rw [if_neg arithmetic] at runs
  obtain ⟨hint, hinted, hints, runs⟩ := runs.bind
  obtain ⟨⟨leftCode, leftValue⟩, evaluated, lowersLeft, runs⟩ := runs.bind
  obtain ⟨type, typed, types, runs⟩ := runs.bind
  obtain ⟨rfl, rfl⟩ := runs_operandType.mp types
  obtain ⟨⟨rightCode, rightValue⟩, last, lowersRight, runs⟩ := runs.bind
  obtain ⟨rightScalar, runs⟩ := runs_expectScalar_bind.mp runs
  obtain ⟨⟨instr, result⟩, _, chooses, runs⟩ := runs.bind
  obtain ⟨chosen, rfl⟩ := runs_operatorFor.mp chooses
  obtain ⟨⟨rfl, rfl⟩, rfl⟩ := runs.pair
  have entry := (nil supported sited).calm ((onOwnership_operandHint _ _ _ _).isCalm hints)
  have leftEmission := leftEmits _ entry.supported entry.sited lowersLeft
  have rightEmission := (rightEmits _ leftEmission.supported leftEmission.sited
    lowersRight).isScalar rightScalar
  have later := (entry.later.trans leftEmission.later).trans rightEmission.later
  refine { rightEmission with
    grows := later.grows
    leaves := ?_
    onward := later.onward
    emitted := ((leftEmission.emitted.mono rightEmission.later).append
      rightEmission.emitted).append (.single rfl) }
  rintro around covers labels before _ rfl
  have leftLeaves := leftEmission.leaves (covers.of_grows rightEmission.grows) labels before _ rfl
  have rightLeaves := rightEmission.leaves covers labels (type.valType :: before) _ rfl
  have operates : InstrTyped around labels (.numeric instr)
      (instr.signature.1 ++ before) (instr.signature.2 :: before) := .numeric
  rw [signature_binaryOp? chosen] at operates
  exact (leftLeaves.append rightLeaves).append (.singleton operates)

end Binary

section

variable (operandEmits : ∀ want, Emits ctx passed (lowerExpr operand want))
include operandEmits

theorem emits_not (want : Option Ty) : Emits ctx passed (lowerExpr (.not span operand) want) := by
  intro work next code value supported sited runs
  unfold lowerExpr at runs
  obtain ⟨⟨operandCode, operandValue⟩, last, lowers, runs⟩ := runs.bind
  obtain ⟨isBool, runs⟩ := runs_expectScalar_bind.mp runs
  obtain ⟨⟨rfl, rfl⟩, rfl⟩ := runs.pair
  have emit := (operandEmits _ supported sited lowers).isScalar isBool
  refine { emit with leaves := ?_, emitted := emit.emitted.append (.single rfl) }
  rintro around covers labels before _ rfl
  exact (emit.leaves covers labels before _ rfl).append (.singleton .numeric)

theorem emits_negate (want : Option Ty) :
    Emits ctx passed (lowerExpr (.negate span operand) want) := by
  intro work next code value supported sited runs
  by_cases isNumber : ∃ numberSpan number, operand = .number numberSpan number
  · obtain ⟨numberSpan, number, rfl⟩ := isNumber
    rw [lowerExpr] at runs
    exact .lowerNumber supported sited runs
  · rw [lowerExpr] at runs
    · obtain ⟨hint, hinted, hints, runs⟩ := runs.bind
      obtain ⟨⟨operandCode, operandValue⟩, last, lowers, negates⟩ := runs.bind
      have entry := (nil supported sited).calm ((onOwnership_negationHint _ _).isCalm hints)
      exact entry.andThen ((operandEmits _ entry.supported entry.sited lowers).negate negates)
    · intro numberSpan number same
      exact isNumber ⟨numberSpan, number, same⟩

end

/-! ## Values that are stored and passed -/

theorem emission_storeInto (built : ctx.layouts.Built)
    (emits : ∀ want, Emits ctx passed (lowerExpr source want))
    (supported : Supported ctx work work.scopes) (sited : Sited ctx passed work)
    (within : target.Within work) (spans : target.Spans ctx passed work.frame type)
    (runs : Runs (storeInto type target span (lowerExpr source)) ctx work code next) :
    Emission ctx passed work next code .nothing := by
  unfold storeInto at runs
  split at runs
  · obtain ⟨⟨valueCode, value⟩, mid, lowers, runs⟩ := runs.bind
    have emit := emits _ supported sited lowers
    dsimp only at runs
    split at runs
    · rename_i isNever
      obtain ⟨rfl, rfl⟩ := runs.pure
      cases value <;> simp only [Value.isNever, Bool.false_eq_true] at isNever
      exact emit.never trivial trivial
    · obtain ⟨held, _, expects, runs⟩ := runs.bind
      obtain ⟨rfl, rfl, rfl⟩ := runs_expectStruct expects
      obtain ⟨moved, moves, rfl⟩ := runs.bindPure
      exact emit.moveInto built moves (within.mono emit.grows) (spans.mono emit.onward)
  · rename_i primitive
    obtain ⟨⟨valueCode, value⟩, mid, lowers, runs⟩ := runs.bind
    obtain ⟨scalar, runs⟩ := runs_expectScalar_bind.mp runs
    obtain ⟨rfl, rfl⟩ := runs.pure
    have emit := (emits _ supported sited lowers).isScalar scalar
    have puts : Puts ctx mid type.valType valueCode :=
      fun _ covers labels stack => emit.leaves covers labels stack _ rfl
    refine { emit with
      leaves := ?_
      emitted := .store ((spans.mono emit.onward).permits primitive) puts emit.emitted }
    intro around covers labels stack after left
    obtain rfl : after = stack := left
    have kept := within.mono emit.grows
    exact .cons (covers.address kept labels after) ((puts covers labels (.i32 :: after)).append
      (.singleton (.store covers.memory (MemArg.alignedFor_natural _ _) (covers.knows kept))))

theorem emitsFields_nil : EmitsFields ctx passed [] := by
  intro layout address work next code supported sited mem within spans runs
  unfold lowerFields at runs
  obtain ⟨rfl, rfl⟩ := runs.pure
  exact .nil supported sited

theorem emitsFields_cons (built : ctx.layouts.Built) {value rest}
    (valueEmits : ∀ want, Emits ctx passed (lowerExpr value want))
    (restEmits : EmitsFields ctx passed rest) :
    EmitsFields ctx passed ({ name, value } :: rest) := by
  intro layout address work next code supported sited present within spans runs
  unfold lowerFields at runs
  split at runs
  · exact restEmits supported sited present within spans runs
  · rename_i field found
    obtain ⟨target, _, checks, runs⟩ := runs.bind
    obtain ⟨advanced, rfl⟩ := runs_check.mp checks
    obtain ⟨stored, mid, stores, runs⟩ := runs.bind
    obtain ⟨more, storesRest, rfl⟩ := runs.bindPure
    have part : ctx.layouts.field? (.struct layout.name) name.name = some field := by
      simp [field?, ofType?, Ty.structName?, present, found]
    have emit := emission_storeInto built valueEmits supported sited
      (within.advance advanced) (spans.advance built part advanced) stores
    exact emit.andThen (restEmits emit.supported emit.sited present
      (within.mono emit.grows) (spans.mono emit.onward) storesRest)

theorem emitsArguments_nil : EmitsArguments ctx passed [] := by
  intro types work next code slots length_eq supported sited runs
  obtain rfl : types = [] := eq_nil_of_length_eq_zero length_eq.symm
  unfold lowerArguments at runs
  obtain ⟨⟨rfl, -⟩, rfl⟩ := runs.pair
  exact { nil supported sited with leaves := fun around covers labels before => .nil }

theorem emitsArguments_cons (argumentEmits : ∀ want, Emits ctx passed (lowerExpr argument want))
    (restEmits : EmitsArguments ctx passed rest) :
    EmitsArguments ctx passed (argument :: rest) := by
  intro types work next code slots length_eq supported sited runs
  cases types with
  | nil => simp at length_eq
  | cons type types =>
    unfold lowerArguments at runs
    obtain ⟨⟨valueCode, value⟩, lowered, lowers, runs⟩ := runs.bind
    obtain ⟨⟨more, slots⟩, mid, passes, runs⟩ := runs.bind
    obtain ⟨⟨others, otherSlots⟩, lowersRest, rfl, -⟩ := runs.bindPair
    have emit := (argumentEmits _ supported sited lowers).passArgument passes
    have emissionRest := restEmits (Nat.succ.inj length_eq) emit.supported emit.sited lowersRest
    refine { emissionRest with
      grows := emit.grows.trans emissionRest.grows
      leaves := ?_
      onward := emit.onward.trans emissionRest.onward
      emitted := (emit.emitted.mono ⟨emissionRest.grows, emissionRest.onward⟩).append
        emissionRest.emitted }
    intro around covers labels before
    have leaves := emit.leaves (covers.of_grows emissionRest.grows) labels before _ rfl
    have all := leaves.append (emissionRest.leaves covers labels (type.valType :: before))
    simpa using all

/-! ## Choices and blocks -/

theorem joinedArms_eq (first second : List Scope) (firstNever secondNever : Bool)
    (work : Workspace) : ∃ scopes arena, (scopes = first ∨ scopes = second) ∧
      joinedArms first second firstNever secondNever work = { work with scopes, arena } := by
  unfold joinedArms
  split
  · exact ⟨_, _, .inr rfl, rfl⟩
  · split
    · exact ⟨_, _, .inl rfl, rfl⟩
    · exact ⟨_, _, .inl rfl, rfl⟩

theorem emits_choice (built : ctx.layouts.Built)
    (conditionEmits : ∀ want, Emits ctx passed (lowerExpr choice.condition want))
    (thenEmits : ∀ want, Emits ctx passed (lowerBlock choice.thenBlock want))
    (elseEmits : ∀ want, Emits ctx passed (lowerAlternative choice.otherwise want))
    (want : Option Ty) : Emits ctx passed (lowerChoice choice want) := by
  intro work next code value supported sited runs
  obtain ⟨run⟩ := choiceRun_of_runs runs
  have cond := (conditionEmits _ supported sited run.decides).isScalar run.isBool
  have slotted := cond.calm ((slotwise_choiceSlot _).isCalm run.slots)
  have stall := slotStall_of_choiceSlot run.slots
  -- The first arm.
  have branching := slotted.sited.proper.onward_checkpoint run.branches
  have thenEntry := (slotted.withFrame branching).forked none
  rw [← run.thenStart_eq] at thenEntry
  have entersFirst : Later run.slotted run.thenStart := by
    rw [run.thenStart_eq]
    exact ⟨(grows_withFrame branching.toExtends).trans (grows_forked none _), branching⟩
  have thenEmission := thenEmits _ thenEntry.supported thenEntry.sited run.thenRuns
  have thenStands := (fits_lowerBlock built.aligned choice.thenBlock thenEntry.sited.proper).ends
    run.thenRuns
  have dropped : Emission ctx passed run.thenStart run.dropped (run.thenCode ++ run.dropCode)
      run.thenKept ∧ Stands run.thenStart run.dropped run.thenKept.slots := by
    have drops := run.drops
    split at drops
    · exact ⟨thenEmission.dropArm drops,
        (meets_dropArm thenStands : Meets ctx _ _ _ True).ends drops⟩
    · obtain ⟨⟨noCode, kept⟩, ended⟩ := drops.pair
      rw [← noCode, ← kept, ← ended, append_nil]
      exact ⟨thenEmission, thenStands⟩
  obtain ⟨first, resultStall⟩ := dropped.1.settleFirst built dropped.2
    (stall.mono (entersFirst.onward.trans dropped.1.onward)) run.settlesFirst
  -- The second arm.
  have rewinding := first.sited.proper.onward_rewind run.rewindsFirst
  have rewinds : Later run.thenSettled { run.thenSettled with frame := run.rewound } :=
    ⟨grows_withFrame rewinding.toExtends, rewinding⟩
  have elseEntry := (slotted.resume ((entersFirst.trans first.later).trans rewinds)
    (first.sited.withFrame rewinding) run.thenSettled.arena).forked none
  rw [← run.elseStart_eq] at elseEntry
  have entersSecond : Later run.thenSettled run.elseStart := by
    rw [run.elseStart_eq]
    exact ⟨⟨.refl _, fun _ mem => mem, rewinding.toExtends⟩, rewinding⟩
  have elseEmission := elseEmits _ elseEntry.supported elseEntry.sited run.elseRuns
  have elseStands := (fits_lowerAlternative built.aligned choice.otherwise
    elseEntry.sited.proper).ends run.elseRuns
  have second := elseEmission.settleSecond built elseStands
    (resultStall.mono (entersSecond.onward.trans elseEmission.onward)) run.settlesSecond
  -- After the arms.
  have leaving : run.elseSettled.frame.Onward run.restored := by
    have rewound := second.sited.proper.onward_rewind run.rewindsSecond
    exact rewound.trans (rewound.proper.onward_restore run.restores)
  have ended := second.withFrame leaving
  have ends : Later run.elseSettled { run.elseSettled with frame := run.restored } :=
    ⟨grows_withFrame leaving.toExtends, leaving⟩
  obtain ⟨scopes, arena, scopes_eq, joined_eq⟩ := joinedArms_eq run.thenSettled.scopes
    run.elseSettled.scopes run.thenValue.isNever run.elseValue.isNever
    { run.elseSettled with frame := run.restored }
  rw [← run.joined_eq] at joined_eq
  have leavesSecond : Later run.elseSettled run.joined := by
    rw [joined_eq]
    exact ⟨⟨.refl _, fun _ mem => mem, leaving.toExtends⟩, leaving⟩
  have leavesFirst := (entersSecond.trans second.later).trans leavesSecond
  have joined : Supported ctx run.joined run.joined.scopes ∧ Sited ctx passed run.joined := by
    rw [joined_eq]
    rcases scopes_eq with rfl | rfl
    · have kept := first.resume ((entersSecond.trans second.later).trans ends) ended.sited arena
      exact ⟨kept.supported, kept.sited⟩
    · have kept := second.resume ends ended.sited arena
      exact ⟨kept.supported, kept.sited⟩
  have releasing := (slotwise_releaseUnused _ _).isCalm run.releases
  have released := releasing.later joined.2.proper
  have finished := joined.1.of_calm releasing
  have slotting := ((slotwise_choiceSlot _).isCalm run.slots).later cond.sited.proper
  have firstLater := leavesFirst.trans released
  have secondLater := leavesSecond.trans released
  have conditionLater := ((slotting.trans entersFirst).trans first.later).trans firstLater
  have typing := cond.toTyping.choice (first.toTyping.grow firstLater.grows finished)
    (second.toTyping.grow secondLater.grows finished) conditionLater.grows run.joins
  have branch : Emitted ctx passed next [.ifElse (blockTypeOf value)
      (run.thenCode ++ run.dropCode ++ run.thenMove) (run.elseCode ++ run.elseMove)] :=
    .ifElse (first.emitted.mono firstLater) (second.emitted.mono secondLater)
  have stop : Emitted ctx passed next (if value.isNever then [.unreachable] else []) := by
    split
    · exact .single rfl
    · exact .nil
  rw [run.code_eq]
  refine { typing with
    onward := cond.onward.trans conditionLater.onward
    sited := joined.2.calm releasing
    valueSited := ?_
    emitted := (cond.emitted.mono conditionLater).append (branch.append stop) }
  rcases (eq_of_joinValues run.joins).1 with isFirst | isSecond
  · rw [isFirst]
    exact first.valueSited.mono firstLater.onward
  · rw [isSecond]
    exact second.valueSited.mono secondLater.onward

end StructWasm.Lowering

import StructWasm.Proofs.Lowering.Emission

/-!
# Blocks and statements stay in their areas

The statements and blocks of a body, and then all syntax trees together: whatever is
lowered, its code accesses memory inside the slots of the frame and the structures of the
caller only, leaves the frame pointer alone, and gives the stack pointer back before it
leaves the function.
-/

namespace StructWasm.Lowering

open Wasm Frame.Allocator Emission

variable {ctx : Context} {passed : List Ty} {work next : Workspace}

/-! ## Blocks -/

theorem emits_noAlternative (want : Option Ty) : Emits ctx passed (lowerAlternative none want) := by
  intro work next code value supported sited runs
  unfold lowerAlternative at runs
  obtain ⟨⟨rfl, rfl⟩, rfl⟩ := runs.pair
  exact .nil supported sited

theorem emits_noTail (want : Option Ty) : Emits ctx passed (lowerTail none want) := by
  intro work next code value supported sited runs
  unfold lowerTail at runs
  obtain ⟨⟨rfl, rfl⟩, rfl⟩ := runs.pair
  exact .nil supported sited

theorem emits_tail (built : ctx.layouts.Built)
    (tailEmits : ∀ want, Emits ctx passed (lowerExpr tail want))
    (want : Option Ty) : Emits ctx passed (lowerTail (some tail) want) := by
  intro work next code value supported sited runs
  unfold lowerTail at runs
  obtain ⟨⟨tailCode, tailValue⟩, mid, lowers, runs⟩ := runs.bind
  have emit := tailEmits _ supported sited lowers
  dsimp only at runs
  split at runs
  · obtain ⟨⟨more, temp⟩, makes, rfl, rfl⟩ := runs.bindPair
    exact emit.materialize built makes
  · obtain ⟨⟨rfl, rfl⟩, rfl⟩ := runs.pair
    exact emit

namespace Emission

theorem pushScope (supported : Supported ctx work work.scopes)
    (sited : Sited ctx passed work) (runs : Runs pushScope ctx work result next) :
    Emission ctx passed work next [] .nothing := by
  obtain rfl := runs_pushScope.mp runs
  have grows : Grows work { work with scopes := [] :: work.scopes } :=
    ⟨.refl _, fun _ mem => mem, .refl _⟩
  have inner {holds : Binding → Prop} {scopes : List Scope} (outer : AllBindings holds scopes) :
      AllBindings holds ([] :: scopes) :=
    List.forall_mem_cons.mpr ⟨(fun _ mem => by cases mem), outer⟩
  have typing := (Typing.nil supported).grow grows
    (supported.mono grows (inner (supported.scopes.mono grows)))
  exact { typing with
    onward := .refl sited.proper
    sited := sited.withScopes (inner sited.scopes) _
    valueSited := trivial
    emitted := .nil }

end Emission

variable {span : Span}

theorem emits_block (statementsEmit : EmitsFlow ctx passed (lowerStatements statements))
    (tailEmits : ∀ want, Emits ctx passed (lowerTail tail want)) (want : Option Ty) :
    Emits ctx passed (lowerBlock { statements, tail, span } want) := by
  intro work next code value supported sited runs
  unfold lowerBlock at runs
  obtain ⟨_, entered, pushes, runs⟩ := runs.bind
  obtain ⟨⟨statementsCode, diverges⟩, mid, lowers, runs⟩ := runs.bind
  obtain ⟨⟨tailCode, tailValue⟩, last, lowersTail, runs⟩ := runs.bind
  have entry := Emission.pushScope supported sited pushes
  have statementsEmission := entry.andThen (statementsEmit entry.supported entry.sited lowers)
  have tailEmission := tailEmits _ statementsEmission.supported statementsEmission.sited lowersTail
  dsimp only at runs
  split at runs
  · rename_i isDiverging
    obtain ⟨dropCode, dropped, drops, runs⟩ := runs.bind
    obtain ⟨_, pops, rfl, rfl⟩ := runs.bindPair
    rw [isDiverging] at statementsEmission
    rw [List.append_assoc]
    exact (statementsEmission.flowThen (tailEmission.discard drops)).popScope pops
  · rename_i reached
    obtain ⟨_, pops, rfl, rfl⟩ := runs.bindPair
    rw [Bool.not_eq_true] at reached
    rw [reached] at statementsEmission
    exact (statementsEmission.andThen tailEmission).popScope pops

theorem emits_noStatements : EmitsFlow ctx passed (lowerStatements []) := by
  intro work next code diverges supported sited runs
  unfold lowerStatements at runs
  obtain ⟨⟨rfl, rfl⟩, rfl⟩ := runs.pair
  exact .nil supported sited

theorem emits_statements (statementEmits : EmitsFlow ctx passed (lowerStatement stmt))
    (restEmits : EmitsFlow ctx passed (lowerStatements rest)) :
    EmitsFlow ctx passed (lowerStatements (stmt :: rest)) := by
  intro work next code diverges supported sited runs
  unfold lowerStatements at runs
  obtain ⟨⟨firstCode, firstDiverges⟩, mid, lowers, runs⟩ := runs.bind
  obtain ⟨⟨more, othersDiverge⟩, lowersRest, rfl, rfl⟩ := runs.bindPair
  have emit := statementEmits supported sited lowers
  exact emit.flowThen (restEmits emit.supported emit.sited lowersRest)

/-! ## Declarations and assignments -/

theorem emits_declareEmpty :
    EmitsFlow ctx passed (lowerStatement (.declare span name type none)) := by
  intro work next code diverges supported sited runs
  unfold lowerStatement at runs
  obtain ⟨_, declares, rfl, rfl⟩ := runs.bindPair
  exact .declareEmpty supported sited declares

theorem emits_declare (built : ctx.layouts.Built)
    (initialEmits : ∀ want, Emits ctx passed (lowerExpr initial want)) :
    EmitsFlow ctx passed (lowerStatement (.declare span name type (some initial))) := by
  intro work next code diverges supported sited runs
  unfold lowerStatement at runs
  obtain ⟨declared, resolved, resolves, runs⟩ := runs.bind
  obtain ⟨⟨initialCode, value⟩, lowered, lowers, runs⟩ := runs.bind
  obtain ⟨_, checked, checks, runs⟩ := runs.bind
  obtain ⟨⟨more, never⟩, declares, rfl, rfl⟩ := runs.bindPair
  have entry := (nil supported sited).calm ((onOwnership_mapM_resolveType _).isCalm resolves)
  have emit := initialEmits _ entry.supported entry.sited lowers
  exact entry.andThen ((emit.calm
    ((onOwnership_checkDeclared _ _ _).isCalm checks)).declareValue built declares)

/-- What an assignment writes to is there, and lies inside an area or is a local other than
the frame pointer. -/
def Target.Sited (ctx : Context) (passed : List Ty) (work : Workspace) : Target → Prop
  | .scalar type place =>
    work.locals.Has place ∧ place.type = type.valType ∧ place ≠ ctx.framePointer
  | .part type address _ => address.Within work ∧ address.Spans ctx passed work.frame type

section

variable (built : ctx.layouts.Built)
include built

theorem sited_of_followPath
    (runs : Runs (followPath type address node path) ctx work (found, reached, child) next)
    (within : address.Within before) (spans : address.Spans ctx passed before.frame type) :
    reached.Within before ∧ reached.Spans ctx passed before.frame found := by
  induction path generalizing type address node work with
  | nil =>
    obtain ⟨⟨rfl, ends⟩, -⟩ := runs.pair
    obtain ⟨rfl, -⟩ := Prod.mk.inj ends
    exact ⟨within, spans⟩
  | cons segment rest ih =>
    unfold followPath at runs
    replace runs := runs_read_bind.mp runs
    split at runs
    · split at runs
      · exact runs.fail
      · exact runs.fail
    · rename_i field foundField
      obtain ⟨further, _, checks, runs⟩ := runs.bind
      obtain ⟨advanced, rfl⟩ := runs_check.mp checks
      obtain ⟨_, _, -, runs⟩ := runs.bind
      exact ih runs (within.advance advanced) (spans.advance built foundField advanced)

theorem sited_of_assignmentTarget (runs : Runs (assignmentTarget span path) ctx work target next)
    (supported : Supported ctx work work.scopes) (sited : Sited ctx passed work) :
    target.Sited ctx passed work := by
  unfold assignmentTarget at runs
  split at runs
  · exact absurd runs not_runs_throw
  · replace runs := runs_get_bind.mp runs
    split at runs
    · exact runs.fail
    · rename_i found
      obtain ⟨rfl, -⟩ := runs.pure
      obtain ⟨has, typed⟩ := supported.scopes.lookup found
      exact ⟨has, typed, sited.scopes.lookup found⟩
    · exact runs.fail
    · rename_i found
      obtain ⟨⟨type, address, node⟩, _, follows, runs⟩ := runs.bind
      obtain ⟨_, _, -, runs⟩ := runs.bind
      have follows := sited_of_followPath built follows (supported.scopes.lookup found)
        (Binding.Sited.spans (sited.scopes.lookup found))
      dsimp only at runs
      split at runs
      · obtain ⟨_, _, fails, _⟩ := runs.bind
        exact fails.fail
      · obtain ⟨rfl, -⟩ := runs.pure
        exact follows

theorem emits_assign {target value} (valueEmits : ∀ want, Emits ctx passed (lowerExpr value want)) :
    EmitsFlow ctx passed (lowerStatement (.assign span target value)) := by
  intro work next code diverges supported sited runs
  unfold lowerStatement at runs
  obtain ⟨place, found, finds, runs⟩ := runs.bind
  have finding := (onOwnership_assignmentTarget _ _).isCalm finds
  have entry := (nil supported sited).calm finding
  have targetSited := sited_of_assignmentTarget built finds supported sited
  cases place with
  | scalar type place =>
    obtain ⟨⟨valueCode, result⟩, last, lowers, runs⟩ := runs.bind
    obtain ⟨scalar, runs⟩ := runs_expectScalar_bind.mp runs
    obtain ⟨⟨rfl, rfl⟩, rfl⟩ := runs.pair
    have emit := valueEmits _ entry.supported entry.sited lowers
    obtain ⟨has, typed, ne⟩ := targetSited
    have has := has.mono (entry.grows.trans emit.grows).locals
    refine { emit with
      grows := entry.grows.trans emit.grows
      within := Value.within_flow _ _
      leaves := ?_
      onward := entry.onward.trans emit.onward
      valueSited := Value.sited_flow _ _
      emitted := emit.emitted.append (.localSet has ne) }
    intro around covers labels before after left
    have known := covers.locals place has
    rw [typed] at known
    rcases scalar with rfl | rfl
    · exact (emit.leaves covers labels before _ trivial).append (.singleton (.localSet known))
    · obtain rfl : after = before := left
      exact (emit.leaves covers labels after _ rfl).append (.singleton (.localSet known))
  | part type address node =>
    obtain ⟨stored, last, stores, runs⟩ := runs.bind
    obtain ⟨_, defines, rfl, rfl⟩ := runs.bindPair
    obtain ⟨within, spans⟩ := targetSited
    exact entry.andThen ((emission_storeInto built valueEmits entry.supported entry.sited
      (within.mono entry.grows) (spans.mono entry.onward) stores).calm
      ((onOwnership_define _ _).isCalm defines))

end

/-! ## Other statements -/

theorem emits_evaluate {value} (valueEmits : ∀ want, Emits ctx passed (lowerExpr value want)) :
    EmitsFlow ctx passed (lowerStatement (.evaluate span value)) := by
  intro work next code diverges supported sited runs
  unfold lowerStatement at runs
  obtain ⟨⟨valueCode, result⟩, mid, lowers, runs⟩ := runs.bind
  obtain ⟨dropCode, drops, rfl, rfl⟩ := runs.bindPair
  exact (valueEmits _ supported sited lowers).discard drops

theorem emits_leave (grounded : Grounded ctx passed) :
    EmitsFlow ctx passed (lowerStatement (.leave span none)) := by
  intro work next code diverges supported sited runs
  unfold lowerStatement at runs
  obtain ⟨resultCode, last, gives, runs⟩ := runs.bind
  replace runs := runs_read_bind.mp runs
  obtain ⟨⟨rfl, rfl⟩, rfl⟩ := runs.pair
  exact ((nil supported sited).lowerResult grounded gives).leave

theorem emits_leaveWith (grounded : Grounded ctx passed) {value}
    (valueEmits : ∀ want, Emits ctx passed (lowerExpr value want)) :
    EmitsFlow ctx passed (lowerStatement (.leave span (some value))) := by
  intro work next code diverges supported sited runs
  unfold lowerStatement at runs
  replace runs := runs_read_bind.mp runs
  obtain ⟨⟨valueCode, result⟩, mid, lowers, runs⟩ := runs.bind
  obtain ⟨resultCode, last, gives, runs⟩ := runs.bind
  replace runs := runs_read_bind.mp runs
  obtain ⟨⟨rfl, rfl⟩, rfl⟩ := runs.pair
  exact ((valueEmits _ supported sited lowers).lowerResult grounded gives).leave

theorem emits_loop {cond body} (conditionEmits : ∀ want, Emits ctx passed (lowerExpr cond want))
    (bodyEmits : ∀ want, Emits ctx passed (lowerBlock body want)) :
    EmitsFlow ctx passed (lowerStatement (.loop span cond body)) := by
  intro work next code diverges supported sited runs
  unfold lowerStatement at runs
  obtain ⟨mark, _, marks, runs⟩ := runs.bind
  obtain ⟨branched, branches, rfl⟩ := runs_onFrame.mp marks
  obtain ⟨_, _, forks, runs⟩ := runs.bind
  obtain ⟨rfl, rfl⟩ := runs_fork.mp forks
  obtain ⟨⟨conditionCode, conditionValue⟩, decided, decides, runs⟩ := runs.bind
  obtain ⟨isBool, runs⟩ := runs_expectScalar_bind.mp runs
  obtain ⟨_, _, puts, runs⟩ := runs.bind
  obtain rfl := runs_restoreScopes.mp puts
  obtain ⟨_, _, forks, runs⟩ := runs.bind
  obtain ⟨rfl, rfl⟩ := runs_fork.mp forks
  obtain ⟨⟨bodyCode, bodyValue⟩, bodyEnd, bodyRuns, runs⟩ := runs.bind
  obtain ⟨dropCode, dropped, drops, runs⟩ := runs.bind
  obtain ⟨_, _, joins, runs⟩ := runs.bind
  obtain rfl := runs_joinOptional.mp joins
  obtain ⟨_, _, leaves, runs⟩ := runs.bind
  obtain ⟨rewound, rewinds, rfl⟩ := runs_updateFrame.mp leaves
  obtain ⟨_, _, unmarks, runs⟩ := runs.bind
  obtain ⟨restored, restores, rfl⟩ := runs_updateFrame.mp unmarks
  obtain ⟨⟨rfl, rfl⟩, rfl⟩ := runs.pair
  have nothing := nil supported sited
  -- The condition.
  have branching := sited.proper.onward_checkpoint branches
  have decideEntry := (nothing.withFrame branching).forked (some .read)
  have cond := (conditionEmits _ decideEntry.supported decideEntry.sited
    decides).isScalar isBool
  -- The body starts with the scopes from before the condition.
  have entersBody := decideEntry.later.trans cond.later
  have bodyEntry := (nothing.resume entersBody cond.sited decided.arena).forked
    (some .write)
  have bodyEmission := (bodyEmits _ bodyEntry.supported bodyEntry.sited bodyRuns).discard
    drops
  have decidedLater : Later decided
      (forked (some .write) { decided with scopes := work.scopes }) :=
    ⟨⟨.refl _, fun _ mem => mem, .refl _⟩, .refl cond.sited.proper⟩
  -- After the loop.
  have leaving : dropped.frame.Onward restored := by
    have rewound := bodyEmission.sited.proper.onward_rewind rewinds
    exact rewound.trans (rewound.proper.onward_restore restores)
  have ended := nothing.resume (((entersBody.trans decidedLater).trans bodyEmission.later).trans
    ⟨grows_withFrame leaving.toExtends, leaving⟩) (bodyEmission.sited.withFrame leaving)
    (infused (nodesOf work.scopes) (nodesOf dropped.scopes) dropped.arena)
  have bodyLater : Later dropped { dropped with
      scopes := work.scopes
      arena := infused (nodesOf work.scopes) (nodesOf dropped.scopes) dropped.arena
      frame := restored } :=
    ⟨⟨.refl _, fun _ mem => mem, leaving.toExtends⟩, leaving⟩
  have conditionLater := (decidedLater.trans bodyEmission.later).trans bodyLater
  refine { ended with leaves := ?_, emitted := ?_ }
  · intro around covers labels stack after left
    obtain rfl : after = stack := left
    have decides := cond.leaves (covers.of_grows conditionLater.grows)
      ([] :: [] :: labels) [] _ rfl
    have repeats := bodyEmission.leaves (covers.of_grows bodyLater.grows)
      ([] :: [] :: labels) [] [] (by cases bodyValue.isNever <;> trivial)
    have typed : CodeTyped around labels _ after after := typed_loop decides repeats
    simpa using typed
  · rw [List.append_assoc _ bodyCode]
    exact .repeats (cond.emitted.mono conditionLater) (bodyEmission.emitted.mono bodyLater)

/-! ## All syntax trees -/

variable (grounded : Grounded ctx passed)
include grounded

set_option linter.unusedSectionVars false in
mutual

/-- Lowering an expression gives code that stays in its areas. -/
theorem emits_lowerExpr (expr : Expr) (want : Option Ty) :
    Emits ctx passed (lowerExpr expr want) := by
  cases expr with
  | number span value =>
    rw [lowerExpr]
    exact fun _ _ _ _ => .lowerNumber
  | bool span value => exact emits_bool want
  | literal span name fields => exact emits_literal (emits_lowerFields fields) want
  | var span name =>
    rw [lowerExpr]
    exact fun _ _ _ _ => .lowerVariable
  | call span name args => exact emits_call grounded (emits_lowerArguments args) want
  | field span object field => exact emits_field grounded.built (emits_lowerExpr object) want
  | binary span left op right =>
    by_cases logical : (op == .and || op == .or) = true
    · exact emits_logical (emits_lowerExpr left) (emits_lowerExpr right) want logical
    · exact emits_arithmetic (emits_lowerExpr left) (emits_lowerExpr right) want logical
  | not span operand => exact emits_not (emits_lowerExpr operand) want
  | negate span operand => exact emits_negate (emits_lowerExpr operand) want
  | choice span choice =>
    rw [lowerExpr]
    exact emits_lowerChoice choice want
  | block span block =>
    rw [lowerExpr]
    exact emits_lowerBlock block want
  | parens span inner =>
    rw [lowerExpr]
    exact emits_lowerExpr inner want

theorem emits_lowerFields (fields : List FieldInit) : EmitsFields ctx passed fields := by
  match fields with
  | [] => exact emitsFields_nil
  | { name, value } :: rest =>
    exact emitsFields_cons grounded.built (emits_lowerExpr value) (emits_lowerFields rest)

theorem emits_lowerArguments (args : List Expr) : EmitsArguments ctx passed args := by
  match args with
  | [] => exact emitsArguments_nil
  | argument :: rest =>
    exact emitsArguments_cons (emits_lowerExpr argument) (emits_lowerArguments rest)

theorem emits_lowerChoice (choice : Choice) (want : Option Ty) :
    Emits ctx passed (lowerChoice choice want) := by
  match choice with
  | { condition, thenBlock, otherwise, span } =>
    exact emits_choice grounded.built (emits_lowerExpr condition)
      (emits_lowerBlock thenBlock) (emits_lowerAlternative otherwise) want

theorem emits_lowerAlternative (otherwise : Option Alternative) (want : Option Ty) :
    Emits ctx passed (lowerAlternative otherwise want) := by
  match otherwise with
  | none => exact emits_noAlternative want
  | some (.block block) =>
    rw [lowerAlternative]
    exact emits_lowerBlock block want
  | some (.choice choice) =>
    rw [lowerAlternative]
    exact emits_lowerChoice choice want

theorem emits_lowerBlock (block : Block) (want : Option Ty) :
    Emits ctx passed (lowerBlock block want) := by
  match block with
  | { statements, tail, span } =>
    exact emits_block (emits_lowerStatements statements) (emits_lowerTail tail) want

theorem emits_lowerTail (tail : Option Expr) (want : Option Ty) :
    Emits ctx passed (lowerTail tail want) := by
  match tail with
  | none => exact emits_noTail want
  | some tail => exact emits_tail grounded.built (emits_lowerExpr tail) want

theorem emits_lowerStatements (statements : List Stmt) :
    EmitsFlow ctx passed (lowerStatements statements) := by
  match statements with
  | [] => exact emits_noStatements
  | stmt :: rest =>
    exact emits_statements (emits_lowerStatement stmt) (emits_lowerStatements rest)

theorem emits_lowerStatement (stmt : Stmt) : EmitsFlow ctx passed (lowerStatement stmt) := by
  match stmt with
  | .declare span name type none => exact emits_declareEmpty
  | .declare span name type (some initial) =>
    exact emits_declare grounded.built (emits_lowerExpr initial)
  | .assign span target value => exact emits_assign grounded.built (emits_lowerExpr value)
  | .loop span cond body =>
    exact emits_loop (emits_lowerExpr cond) (emits_lowerBlock body)
  | .leave span none => exact emits_leave grounded
  | .leave span (some value) => exact emits_leaveWith grounded (emits_lowerExpr value)
  | .evaluate span value => exact emits_evaluate (emits_lowerExpr value)

end

end StructWasm.Lowering

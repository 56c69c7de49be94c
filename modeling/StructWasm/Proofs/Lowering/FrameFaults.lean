import StructWasm.Proofs.Lowering.ChoiceCustody

/-!
# Why the frame stops lowering

Lowering a part of a body leaves in custody what its value holds, and for
statements what the variables that they declare hold. The frame stops it only at a
choice whose arms do not fit.
-/

namespace StructWasm

open List

/-- The name that a statement declares. -/
def Stmt.declared : Stmt → List String
  | .declare _ name _ _ => [name.name]
  | _ => []

namespace Lowering

variable {ctx : Context} {work next : Workspace}

/-! ## What is shown -/

/-- The frame stops lowering only at a misfit, and the value of the part holds the
slots that came. -/
abbrev Fits {α : Type} (ctx : Context) (work : Workspace) (part : Part)
    (step : Emit α) (slots : α → List Frame.Allocation) : Prop :=
  Meets ctx work step (fun result next => Stands work next (slots result))
    (Clash ctx part work)

def ExprFits (ctx : Context) (expr : Expr) : Prop :=
  ∀ ⦃want work⦄, work.frame.Proper →
    Fits ctx work (.expr expr want) (lowerExpr expr want) fun result =>
      result.2.slots

def FieldsFit (ctx : Context) (fields : List FieldInit) : Prop :=
  ∀ ⦃layout address work⦄, work.frame.Proper →
    Fits ctx work (.fields layout address fields) (lowerFields layout address fields)
      fun _ => []

def ArgumentsFit (ctx : Context) (arguments : List Expr) : Prop :=
  ∀ ⦃types work⦄, work.frame.Proper →
    Fits ctx work (.arguments arguments types) (lowerArguments arguments types) Prod.snd

def ChoiceFits (ctx : Context) (choice : Choice) : Prop :=
  ∀ ⦃want work⦄, work.frame.Proper →
    Fits ctx work (.choice choice want) (lowerChoice choice want) fun result =>
      result.2.slots

def AlternativeFits (ctx : Context) (otherwise : Option Alternative) : Prop :=
  ∀ ⦃want work⦄, work.frame.Proper →
    Fits ctx work (.alternative otherwise want) (lowerAlternative otherwise want)
      fun result => result.2.slots

def BlockFits (ctx : Context) (block : Block) : Prop :=
  ∀ ⦃want work⦄, work.frame.Proper →
    Fits ctx work (.block block want) (lowerBlock block want) fun result =>
      result.2.slots

def TailFits (ctx : Context) (tail : Option Expr) : Prop :=
  ∀ ⦃want work⦄, work.frame.Proper →
    Fits ctx work (.tail tail want) (lowerTail tail want) fun result =>
      result.2.slots

/-- Statements leave in custody what the variables that they declare hold. -/
abbrev FlowFits {α : Type} (ctx : Context) (work : Workspace) (part : Part)
    (names : List String) (step : Emit α) : Prop :=
  Meets ctx work step (fun _ next => ∃ entries, Declares work next entries [] ∧
    entries.map Prod.fst ⊆ names) (Clash ctx part work)

def StatementsFit (ctx : Context) (statements : List Stmt) : Prop :=
  ∀ ⦃work⦄, work.frame.Proper → work.scopes ≠ [] →
    FlowFits ctx work (.statements statements) (statements.flatMap Stmt.declared)
      (lowerStatements statements)

def StatementFits (ctx : Context) (statement : Stmt) : Prop :=
  ∀ ⦃work⦄, work.frame.Proper → work.scopes ≠ [] →
    FlowFits ctx work (.statement statement) statement.declared (lowerStatement statement)

variable {span : Span} {reason : Prop} {name : Ident} {value : Expr}

theorem Stands.continue {α : Type} {step} {given : α → List Frame.Allocation}
    {reason outerReason : Prop} (stands : Stands origin work slots)
    (fits : Meets ctx work step (fun result next => Stands work next (given result)) reason)
    (implies : reason → outerReason) :
    Meets ctx work step (fun result next => Stands origin next (given result ++ slots))
      outerReason :=
  (fits.weaken implies).ensure fun _ _ after => (stands.trans after).perm perm_append_comm

/-! ## Expressions -/

theorem meets_lowerNumber (proper : work.frame.Proper) (value : Binary64) (want : Option Ty)
    (span : Span) : Meets ctx work (lowerNumber value want span)
      (fun result next => Stands work next result.2.slots) reason := by
  have stands := Stands.refl proper
  refine .bind ((onOwnership_literalType value want span).meets stands) ?_
  intro type _ _ stands
  refine .bind ((Emit.OnOwnership.check (failsPlainly_literal _)).meets stands) ?_
  exact fun _ _ _ stands => .pure stands

theorem meets_lowerVariable (proper : work.frame.Proper) (name : String) (span : Span) :
    Meets ctx work (lowerVariable name span)
      (fun result next => Stands work next result.2.slots) reason := by
  have stands := Stands.refl proper
  refine .bindGet ?_
  split
  · exact .pure stands
  · exact .pure stands
  · exact .fail _ span

section

variable (aligned : ctx.layouts.Aligned)
include aligned

theorem fits_literal {fields} (fits : FieldsFit ctx fields) :
    ExprFits ctx (.literal span name fields) := by
  intro want work proper
  rw [lowerExpr]
  have stands := Stands.refl proper
  refine .bind ((onOwnership_literalLayout _ _ _).meets stands) fun layout _ finds stands => ?_
  refine .bind (meets_allocateStruct aligned stands _) fun place _ allocates stands => ?_
  refine .bind (stands.continue (fits stands.proper) (Calls.literal finds allocates).clash) ?_
  exact fun _ _ _ stands => .pure stands

theorem fits_call {args} (fits : ArgumentsFit ctx args) : ExprFits ctx (.call span name args) := by
  intro want work proper
  rw [lowerExpr]
  have stands := Stands.refl proper
  refine .bind (meets_requestCallee stands _ _) fun sig _ asks stands => ?_
  refine .bind (meets_resultSlot aligned stands _) fun result? _ allocates stands => ?_
  refine .bind (stands.continue (fits stands.proper) (Calls.call asks allocates).clash) ?_
  intro passed _ _ stands
  refine .bind (meets_forM_release passed.2 stands) fun _ _ _ stands => ?_
  rw [append_nil] at stands
  exact .pure stands

theorem fits_field {object field} (fits : ExprFits ctx object) :
    ExprFits ctx (.field span object field) := by
  intro want work proper
  rw [lowerExpr]
  refine .bind ((Stands.refl proper).continue (fits proper) Calls.object.clash) ?_
  intro result _ _ stands
  refine .bind (meets_readField aligned stands _ _ _) fun part _ _ stands => ?_
  rw [append_nil] at stands
  exact .pure stands

end

theorem meets_expectScalar {value} (stands : Stands origin work value.slots) (type : Ty)
    (span : Span) :
    Meets ctx work (expectScalar value type span) (fun _ next => Stands origin next [])
      reason := by
  constructor
  · intro _ next runs
    obtain ⟨isScalar, rfl⟩ := runs_expectScalar.mp runs
    rw [isScalar.slots_eq] at stands
    exact stands
  · exact fun _ stops => ((onOwnership_expectScalar value type span).notOfFrame stops).elim

variable {left right : Expr} {choice : Choice}

theorem fits_logical (logical : (op == .and || op == .or) = true) (leftFits : ExprFits ctx left)
    (rightFits : ExprFits ctx right) : ExprFits ctx (.binary span left op right) := by
  intro want work proper
  rw [lowerExpr, if_pos logical]
  refine .bind ((leftFits proper).weaken (Calls.logicalLeft logical).clash) ?_
  intro leftResult _ decides stands
  refine .bind (meets_expectScalar stands _ _) fun _ _ checks stands => ?_
  refine .bind (meets_fork (.refl stands.proper) none) fun saved _ forks forked => ?_
  obtain ⟨rfl, -, forkedStands⟩ := forked
  refine .bind (forkedStands.continue (rightFits forkedStands.proper)
    (Calls.logicalRight logical decides checks forks).clash) fun rightResult _ _ later => ?_
  rw [append_nil] at later
  refine .bind (meets_expectScalar later _ _) fun _ _ _ later => ?_
  refine .bind (meets_joinOptional (stands.trans later)
    (stands.scopes.later later.leads)) fun _ _ _ stands => ?_
  exact .pure stands

theorem fits_operands (numeric : ¬(op == .and || op == .or) = true)
    (leftFits : ExprFits ctx left) (rightFits : ExprFits ctx right) :
    ExprFits ctx (.binary span left op right) := by
  intro want work proper
  rw [lowerExpr, if_neg numeric]
  have stands := Stands.refl proper
  refine .bind ((onOwnership_operandHint _ _ _ _).meets stands) fun hint _ hints hinted => ?_
  refine .bind (hinted.continue (leftFits hinted.proper)
    (Calls.operandLeft numeric hints).clash) fun leftResult _ computes stands => ?_
  refine .bind ((onOwnership_operandType _ _ _).meets stands) fun type _ checks stands => ?_
  have isScalar : leftResult.2.IsScalar type := .inr (runs_operandType.mp checks).1
  rw [isScalar.slots_eq, append_nil] at stands
  refine .bind (stands.continue (rightFits stands.proper)
    (Calls.operandRight numeric hints computes checks).clash) fun rightResult _ _ stands => ?_
  rw [append_nil] at stands
  refine .bind (meets_expectScalar stands _ _) fun _ _ _ stands => ?_
  refine .bind ((onOwnership_operatorFor _ _ _).meets stands) ?_
  exact fun _ _ _ stands => .pure stands

theorem fits_not (fits : ExprFits ctx operand) : ExprFits ctx (.not span operand) := by
  intro want work proper
  rw [lowerExpr]
  refine .bind ((fits proper).weaken Calls.not.clash) fun result _ _ stands => ?_
  exact .bind (meets_expectScalar stands _ _) fun _ _ _ stands => .pure stands

theorem meets_negate {value} (stands : Stands origin work (value.slots ++ [])) (code : Code)
    (span : Span) : Meets ctx work (negate code value span)
      (fun result next => Stands origin next result.2.slots) reason := by
  unfold negate
  split
  · exact .pure stands
  · exact .pure stands
  · exact .pure stands
  · exact .pure stands
  · exact .fail _ span

theorem fits_negate (notLiteral : ∀ span value, operand ≠ .number span value)
    (fits : ExprFits ctx operand) : ExprFits ctx (.negate span operand) := by
  intro want work proper
  rw [lowerExpr]
  · have stands := Stands.refl proper
    refine .bind ((onOwnership_negationHint _ _).meets stands) fun hint _ hints hinted => ?_
    refine .bind (hinted.continue (fits hinted.proper)
      (Calls.negate notLiteral hints).clash) fun result _ _ stands => ?_
    exact meets_negate stands _ _
  · exact notLiteral

theorem fits_fields_cons {field rest} (valueFits : ExprFits ctx field.value)
    (restFits : FieldsFit ctx rest) : FieldsFit ctx (field :: rest) := by
  intro layout address work proper
  obtain ⟨name, value⟩ := field
  rw [lowerFields]
  cases known : layout.field? name.name with
  | none => exact (restFits proper).weaken (Calls.fieldSkipped known).clash
  | some found =>
    have stands := Stands.refl proper
    have advancing := Emit.OnOwnership.check (failsPlainly_advance address found.offset)
    refine .bind (advancing.meets stands) fun target _ checks stands => ?_
    obtain ⟨advances, rfl⟩ := runs_check.mp checks
    refine .bind (meets_storeInto (stands.continue (valueFits proper)
      (Calls.fieldValue known advances).clash) target value.span) fun code _ stores stands => ?_
    refine .bind (stands.continue (restFits stands.proper)
      (Calls.fieldRest known advances stores).clash) fun _ _ _ stands => ?_
    exact .pure stands

theorem fits_arguments_cons {argument rest} (fits : ExprFits ctx argument)
    (restFits : ArgumentsFit ctx rest) : ArgumentsFit ctx (argument :: rest) := by
  intro types work proper
  cases types with
  | nil => exact .pure (.refl proper)
  | cons type types =>
    rw [lowerArguments]
    refine .bind ((Stands.refl proper).continue (fits proper) Calls.argument.clash) ?_
    intro result _ computes stands
    refine .bind (meets_passArgument stands _ _) fun passed _ passes stands => ?_
    rw [append_nil] at stands
    refine .bind (stands.continue (restFits stands.proper)
      (Calls.argumentRest computes passes).clash) fun others _ _ stands => ?_
    exact .pure (stands.perm perm_append_comm)

/-! ## Choices and blocks -/

theorem meets_lowerFirst
    (lowers : Meets ctx work (lowerBlock choice.thenBlock entry.predicted)
      (fun result next => Stands work next result.2.slots) reason) :
    Meets ctx work (lowerFirst choice entry)
      (fun result next => Stands work next result.2.slots) reason := by
  refine Meets.bind lowers fun result _ _ stands => ?_
  dsimp only
  split
  · exact .bind (meets_dropArm stands) fun _ _ _ stands => .pure stands
  · exact .pure stands

theorem fits_choice (aligned : ctx.layouts.Aligned) (conditionFits : ExprFits ctx choice.condition)
    (thenFits : BlockFits ctx choice.thenBlock)
    (otherwiseFits : AlternativeFits ctx choice.otherwise) : ChoiceFits ctx choice := by
  intro want work proper
  rw [lowerChoice_eq]
  refine .bind (meets_enterChoice aligned
    ((conditionFits proper).weaken Calls.condition.clash) want) ?_
  intro entry entered enters isEntered
  have enteredProper := isEntered.inBranch.proper
  refine .bind (meets_finishFirst aligned enters isEntered
    (meets_lowerFirst ((thenFits enteredProper).weaken (Calls.firstArm enters).clash))) ?_
  intro arm started finishes isFinished
  obtain ⟨new, inBranch, -⟩ := isFinished.inBranch
  refine .bind (meets_finishSecond aligned enters finishes isFinished
    ((otherwiseFits inBranch.proper).weaken (Calls.secondArm enters finishes).clash)) ?_
  rintro second _ _ ⟨stands, lies⟩
  exact meets_joinChoice stands isFinished.lies lies

theorem Declares.leave
    (declares : Declares { work with scopes := [] :: work.scopes } flowed entries [])
    (stands : Stands flowed ended slots) :
    ∃ scope outer, ended.scopes = scope :: outer ∧ work.arena.Leads ended.arena ∧
      SameScopes (Lending work.arena ended.arena) work.scopes outer ∧
      work.frame.Custody ended.frame (slotsOf scope ++ slots) := by
  have custody := declares.custody.trans stands.custody
  rw [append_nil] at custody
  obtain ⟨inner, outer, scopes_eq, same⟩ := declares.scopes
  have later := stands.scopes
  rw [scopes_eq] at later
  cases same with
  | cons innerSame outerSame =>
    cases innerSame
    rw [append_nil] at later
    cases ended_eq : ended.scopes with
    | nil =>
      rw [ended_eq] at later
      cases later
    | cons scope outermost =>
      rw [ended_eq] at later
      cases later with
      | cons headSame tailSame =>
        refine ⟨scope, outermost, rfl, declares.leads.trans stands.leads,
          SameScopes.trans outerSame tailSame, ?_⟩
        rw [slotsOf_eq_of_same headSame]
        exact custody

theorem fits_block {block} (statementsFit : StatementsFit ctx block.statements)
    (tailFits : TailFits ctx block.tail) : BlockFits ctx block := by
  intro want work proper
  obtain ⟨statements, tail, span⟩ := block
  rw [lowerBlock]
  have opens : Meets ctx work pushScope
      (fun _ next => next = { work with scopes := [] :: work.scopes })
      (Clash ctx (.block { statements, tail, span } want) work) :=
    ⟨fun _ _ runs => (runs_pushScope.mp runs).symm, fun _ stops => absurd stops not_stops_modify⟩
  refine Meets.bind opens fun _ _ opened opened_eq => ?_
  subst opened_eq
  have flows : FlowFits ctx { work with scopes := [] :: work.scopes } (.statements statements)
      (statements.flatMap Stmt.declared) (lowerStatements statements) :=
    statementsFit proper (cons_ne_nil _ _)
  have calls : Calls ctx (.block { statements, tail, span } want, work)
      (.statements statements, { work with scopes := [] :: work.scopes }) :=
    .blockStatements opened
  refine .bind (flows.weaken calls.clash) ?_
  rintro ⟨code, diverges⟩ flowed flowsRun ⟨entries, declares, -⟩
  refine .bind ((Stands.refl declares.custody.proper).continue
    (tailFits declares.custody.proper) (Calls.blockTail opened flowsRun).clash) ?_
  rintro ⟨tailCode, value⟩ ended _ stands
  cases diverges with
  | true =>
    refine .bind (meets_discard stands) fun _ _ _ stands => ?_
    obtain ⟨scope, outer, scopes_eq, leads, same, custody⟩ := declares.leave stands
    refine .bind (meets_popScope custody leads scopes_eq same) ?_
    exact fun _ _ _ stands => .pure stands
  | false =>
    rw [append_nil] at stands
    obtain ⟨scope, outer, scopes_eq, leads, same, custody⟩ := declares.leave stands
    refine .bind (meets_popScope custody leads scopes_eq same) ?_
    exact fun _ _ _ stands => .pure stands

theorem fits_tail (aligned : ctx.layouts.Aligned) {tail} (fits : ExprFits ctx tail) :
    TailFits ctx (some tail) := by
  intro want work proper
  rw [lowerTail]
  refine .bind ((Stands.refl proper).continue (fits proper) Calls.tail.clash) ?_
  rintro ⟨code, value⟩ _ _ stands
  cases value with
  | struct held =>
    refine .bind (meets_materialize aligned stands tail.span) ?_
    exact fun _ _ _ stands => .pure stands
  | scalar type => exact .pure stands
  | nothing => exact .pure stands
  | never => exact .pure stands

/-! ## Statements -/

theorem Declares.scopes_ne_nil (declares : Declares origin work entries slots) :
    work.scopes ≠ [] := by
  obtain ⟨scope, outer, scopes_eq, -⟩ := declares.scopes
  rw [scopes_eq]
  exact nofun

theorem fits_statements_cons (fits : StatementFits ctx stmt)
    (restFits : StatementsFit ctx rest) : StatementsFit ctx (stmt :: rest) := by
  intro work proper nonempty
  rw [lowerStatements]
  refine .bind ((fits proper nonempty).weaken Calls.statement.clash) ?_
  rintro result _ lowers ⟨entries, declares, named⟩
  refine .bind ((restFits declares.custody.proper declares.scopes_ne_nil).weaken
    (Calls.statementRest lowers).clash) ?_
  rintro more _ _ ⟨others, declaresMore, namedMore⟩
  obtain ⟨kept, declares, -, names_eq⟩ := declares.trans declaresMore
  refine .pure ⟨others ++ kept, declares, ?_⟩
  rw [map_append, names_eq, flatMap_cons]
  exact append_subset.mpr
    ⟨subset_append_of_subset_right _ namedMore, subset_append_of_subset_left _ named⟩

theorem fits_declareEmpty (aligned : ctx.layouts.Aligned) (span : Span) (name : Ident)
    (type : Option TypeNote) : StatementFits ctx (.declare span name type none) := by
  intro work proper nonempty
  rw [lowerStatement]
  refine .bind (meets_declareEmpty aligned proper nonempty span name type) ?_
  exact fun _ _ _ declares => .pure declares

theorem onOwnership_mapM_resolveType (type : Option TypeNote) :
    Emit.OnOwnership (type.mapM resolveType) := by
  cases type with
  | none => exact .pure none
  | some note => exact .map (onOwnership_resolveType note) some

theorem fits_declareValue (aligned : ctx.layouts.Aligned) {type initial}
    (fits : ExprFits ctx initial) : StatementFits ctx (.declare span name type (some initial)) := by
  intro work proper nonempty
  rw [lowerStatement]
  refine .bind ((onOwnership_mapM_resolveType type).meets (.refl proper)) ?_
  intro declared _ resolves stands
  refine .bind (stands.continue (fits stands.proper) (Calls.initial resolves).clash) ?_
  intro result _ _ stands
  rw [append_nil] at stands
  refine .bind ((onOwnership_checkDeclared _ _ _).meets stands) fun _ _ _ stands => ?_
  refine .bind (meets_declareValue aligned stands nonempty _ _ _) ?_
  exact fun _ _ _ declares => .pure declares

theorem fits_assign {path} (fits : ExprFits ctx value) :
    StatementFits ctx (.assign span path value) := by
  intro work proper nonempty
  rw [lowerStatement]
  refine .bind ((onOwnership_assignmentTarget span path).meets (.refl proper)) ?_
  intro target _ finds stands
  have lowers := (fits stands.proper).weaken (Calls.assigned finds).clash
  cases target with
  | scalar type place =>
    refine .bind (stands.continue lowers id) fun result _ _ stands => ?_
    rw [append_nil] at stands
    refine .bind (meets_expectScalar stands _ _) fun _ _ _ stands => ?_
    exact .pure ⟨[], stands.declares nonempty, nil_subset _⟩
  | part type address node =>
    refine .bind (meets_storeInto (stands.continue lowers id) address value.span) ?_
    intro _ _ _ stands
    refine .bind ((onOwnership_define node span).meets stands) fun _ _ _ stands => ?_
    exact .pure ⟨[], stands.declares nonempty, nil_subset _⟩

theorem fits_loop {cond body} (conditionFits : ExprFits ctx cond)
    (bodyFits : BlockFits ctx body) : StatementFits ctx (.loop span cond body) := by
  intro work proper nonempty
  rw [lowerStatement_loop]
  refine .bind (meets_enterLoop proper) fun entry _ enters inLoop => ?_
  have proper := inLoop.inBranch.proper
  refine .bind (meets_lowerGuard inLoop
    ((conditionFits proper).weaken (Calls.guard enters).clash)) ?_
  intro conditionCode decided decides inLoop
  have proper := inLoop.inBranch.proper
  have rounds : Meets ctx decided (lowerRound body) (fun _ next => InLoop work next entry.1 entry.2)
      (Clash ctx (.statement (.loop span cond body)) work) := by
    refine .bind ((Stands.refl proper).continue (bodyFits proper)
      (Calls.round enters decides).clash) fun result _ _ stands => ?_
    refine .bind (meets_discard stands) fun _ _ _ stands => ?_
    exact .pure (inLoop.extend stands)
  refine Meets.bind rounds fun roundCode _ _ inLoop => ?_
  refine .bind (meets_leaveLoop inLoop) fun _ _ _ stands => ?_
  exact .pure ⟨[], stands.declares nonempty, nil_subset _⟩

theorem fits_leaveEmpty (span : Span) : StatementFits ctx (.leave span none) := by
  intro work proper nonempty
  rw [lowerStatement]
  have stands : Stands work work (Value.nothing.slots ++ []) := .refl proper
  refine .bind (meets_lowerResult stands span) fun _ _ _ stands => ?_
  refine .bindRead ?_
  exact .pure ⟨[], stands.declares nonempty, nil_subset _⟩

theorem fits_leave (fits : ExprFits ctx value) : StatementFits ctx (.leave span (some value)) := by
  intro work proper nonempty
  rw [lowerStatement]
  refine .bindRead ?_
  refine .bind ((Stands.refl proper).continue (fits proper) Calls.left.clash)
    fun result _ _ stands => ?_
  refine .bind (meets_lowerResult stands _) fun _ _ _ stands => ?_
  refine .bindRead ?_
  exact .pure ⟨[], stands.declares nonempty, nil_subset _⟩

theorem fits_evaluate (fits : ExprFits ctx value) : StatementFits ctx (.evaluate span value) := by
  intro work proper nonempty
  rw [lowerStatement]
  refine .bind ((Stands.refl proper).continue (fits proper) Calls.evaluated.clash) ?_
  intro result _ _ stands
  refine .bind (meets_discard stands) fun _ _ _ stands => ?_
  exact .pure ⟨[], stands.declares nonempty, nil_subset _⟩

/-! ## All parts -/

variable (aligned : ctx.layouts.Aligned)
include aligned

set_option linter.unusedSectionVars false in
mutual

theorem fits_lowerExpr (expr : Expr) : ExprFits ctx expr := by
  cases expr with
  | number span value =>
    intro want work proper
    rw [lowerExpr]
    exact meets_lowerNumber proper value want span
  | bool span value =>
    intro want work proper
    exact .pure (.refl proper)
  | literal span name fields => exact fits_literal aligned (fits_lowerFields fields)
  | var span name =>
    intro want work proper
    rw [lowerExpr]
    exact meets_lowerVariable proper name span
  | call span name args => exact fits_call aligned (fits_lowerArguments args)
  | field span object field => exact fits_field aligned (fits_lowerExpr object)
  | binary span left op right =>
    by_cases logical : (op == .and || op == .or) = true
    · exact fits_logical logical (fits_lowerExpr left) (fits_lowerExpr right)
    · exact fits_operands logical (fits_lowerExpr left) (fits_lowerExpr right)
  | not span operand => exact fits_not (fits_lowerExpr operand)
  | negate span operand =>
    by_cases literal : ∃ span value, operand = .number span value
    · obtain ⟨innerSpan, value, rfl⟩ := literal
      intro want work proper
      rw [lowerExpr]
      exact meets_lowerNumber proper value.negate want span
    · refine fits_negate (fun span value operand_eq => ?_) (fits_lowerExpr operand)
      exact literal ⟨span, value, operand_eq⟩
  | choice span choice =>
    intro want work proper
    rw [lowerExpr]
    exact (fits_lowerChoice choice proper).weaken Calls.choice.clash
  | block span block =>
    intro want work proper
    rw [lowerExpr]
    exact (fits_lowerBlock block proper).weaken Calls.block.clash
  | parens span inner =>
    intro want work proper
    rw [lowerExpr]
    exact (fits_lowerExpr inner proper).weaken Calls.parens.clash

theorem fits_lowerFields (fields : List FieldInit) : FieldsFit ctx fields := by
  match fields with
  | [] => exact fun _ _ _ proper => .pure (.refl proper)
  | { name, value } :: rest => exact fits_fields_cons (fits_lowerExpr value) (fits_lowerFields rest)

theorem fits_lowerArguments (args : List Expr) : ArgumentsFit ctx args := by
  match args with
  | [] => exact fun _ _ proper => .pure (.refl proper)
  | argument :: rest =>
    exact fits_arguments_cons (fits_lowerExpr argument) (fits_lowerArguments rest)

theorem fits_lowerChoice (choice : Choice) : ChoiceFits ctx choice := by
  match choice with
  | { condition, thenBlock, otherwise, span } =>
    exact fits_choice aligned (fits_lowerExpr condition) (fits_lowerBlock thenBlock)
      (fits_lowerAlternative otherwise)

theorem fits_lowerAlternative (otherwise : Option Alternative) : AlternativeFits ctx otherwise := by
  match otherwise with
  | none => exact fun _ _ proper => .pure (.refl proper)
  | some (.block block) =>
    intro want work proper
    rw [lowerAlternative]
    exact (fits_lowerBlock block proper).weaken Calls.otherwiseBlock.clash
  | some (.choice choice) =>
    intro want work proper
    rw [lowerAlternative]
    exact (fits_lowerChoice choice proper).weaken Calls.otherwiseChoice.clash

theorem fits_lowerBlock (block : Block) : BlockFits ctx block := by
  match block with
  | { statements, tail, span } =>
    exact fits_block (fits_lowerStatements statements) (fits_lowerTail tail)

theorem fits_lowerTail (tail : Option Expr) : TailFits ctx tail := by
  match tail with
  | none => exact fun _ _ proper => .pure (.refl proper)
  | some tail => exact fits_tail aligned (fits_lowerExpr tail)

theorem fits_lowerStatements (statements : List Stmt) : StatementsFit ctx statements := by
  match statements with
  | [] =>
    intro work proper nonempty
    exact .pure ⟨[], (Stands.refl proper).declares nonempty, nil_subset _⟩
  | stmt :: rest =>
    exact fits_statements_cons (fits_lowerStatement stmt) (fits_lowerStatements rest)

theorem fits_lowerStatement (stmt : Stmt) : StatementFits ctx stmt := by
  match stmt with
  | .declare span name type none => exact fits_declareEmpty aligned span name type
  | .declare span name type (some initial) =>
    exact fits_declareValue aligned (fits_lowerExpr initial)
  | .assign span target value => exact fits_assign (fits_lowerExpr value)
  | .loop span cond body => exact fits_loop (fits_lowerExpr cond) (fits_lowerBlock body)
  | .leave span none => exact fits_leaveEmpty span
  | .leave span (some value) => exact fits_leave (fits_lowerExpr value)
  | .evaluate span value => exact fits_evaluate (fits_lowerExpr value)

end

end Lowering
end StructWasm

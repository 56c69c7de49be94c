import StructWasm.Proofs.Layout.Walk
import StructWasm.Proofs.Lowering.FunctionFrame

/-!
# No moves out of loops

A loop is lowered on copies of the ownership of all variables around it, and the copies
are lent. Whatever is nested in the loop works on copies of the copies, which are lent
too. So no value that is used inside a loop is a structure variable from outside, or a
structure inside such a variable.
-/

namespace StructWasm

open List

/-! ## Loops and uses of a body -/

/-- A place in a function body. -/
inductive Occurrence where
  /-- A loop. -/
  | loop (span : Span) (condition : Expr) (body : Block)
  /-- An expression whose value is used: it is stored, passed or given back. -/
  | use (value : Expr)

mutual

/-- The loops and uses in an expression. With each of them stand the names that are declared
before it, besides those that are known from outside. -/
def Expr.occurrences : Expr → List String → List (List String × Occurrence)
  | .number _ _, _ => []
  | .bool _ _, _ => []
  | .literal _ _ fields, names => occurrencesInFields fields names
  | .var _ _, _ => []
  | .call _ _ arguments, names => occurrencesInArguments arguments names
  | .field _ object _, names => object.occurrences names
  | .binary _ left _ right, names => left.occurrences names ++ right.occurrences names
  | .negate _ operand, names => operand.occurrences names
  | .not _ operand, names => operand.occurrences names
  | .choice _ choice, names => choice.occurrences names
  | .block _ block, names => block.occurrences names
  | .parens _ inner, names => inner.occurrences names

def occurrencesInFields : List FieldInit → List String → List (List String × Occurrence)
  | [], _ => []
  | { value, .. } :: rest, names =>
    (names, .use value) :: value.occurrences names ++ occurrencesInFields rest names

def occurrencesInArguments : List Expr → List String → List (List String × Occurrence)
  | [], _ => []
  | argument :: rest, names =>
    (names, .use argument) :: argument.occurrences names ++ occurrencesInArguments rest names

def Choice.occurrences : Choice → List String → List (List String × Occurrence)
  | { condition, thenBlock, otherwise, .. }, names =>
    condition.occurrences names ++
      (thenBlock.occurrences names ++ occurrencesInAlternative otherwise names)

def occurrencesInAlternative : Option Alternative → List String → List (List String × Occurrence)
  | none, _ => []
  | some (.block block), names => block.occurrences names
  | some (.choice choice), names => choice.occurrences names

def Block.occurrences : Block → List String → List (List String × Occurrence)
  | { statements, tail, .. }, names =>
    occurrencesInStatements statements names ++
      occurrencesInTail tail (statements.flatMap Stmt.declared ++ names)

def occurrencesInTail : Option Expr → List String → List (List String × Occurrence)
  | none, _ => []
  | some tail, names => (names, .use tail) :: tail.occurrences names

def occurrencesInStatements : List Stmt → List String → List (List String × Occurrence)
  | [], _ => []
  | statement :: rest, names =>
    statement.occurrences names ++ occurrencesInStatements rest (statement.declared ++ names)

def Stmt.occurrences : Stmt → List String → List (List String × Occurrence)
  | .declare _ _ _ none, _ => []
  | .declare _ _ _ (some initial), names => (names, .use initial) :: initial.occurrences names
  | .assign _ _ value, names => (names, .use value) :: value.occurrences names
  | .loop span condition body, names =>
    (names, .loop span condition body) ::
      (condition.occurrences names ++ body.occurrences names)
  | .leave _ none, _ => []
  | .leave _ (some value), names => (names, .use value) :: value.occurrences names
  | .evaluate _ value, names => value.occurrences names

end

/-- The fields that lead from a variable to an expression that is a part of it. -/
def Expr.path? (name : String) : Expr → Option (List String)
  | .var _ known => if known = name then some [] else none
  | .field _ object chosen => (object.path? name).map fun path => path ++ [chosen.name]
  | .parens _ inner => inner.path? name
  | _ => none

/-- Type of the part of a value to which some fields lead. -/
def Layouts.typeAt? (layouts : Layouts) (type : Ty) (path : List String) : Option Ty :=
  path.foldlM (fun type name => (layouts.field? type name).map FieldLayout.type) type

namespace Lowering

open Ownership (Arena)

variable {ctx : Context} {root : Part × Workspace} {work mid next : Workspace}
variable {names : List String} {part inner : Part} {value : Value} {span : Span}

/-! ## Values that are used -/

/-- A value that is not a part of a variable that is lent. -/
def Value.Movable (arena : Arena) : Value → Prop
  | .struct held => ∀ node, held.source = .variable node → (arena.loan? node).isSome = false
  | _ => True

theorem movable_of_take {slot? : Option Frame.Allocation}
    (runs : Runs (take held span) ctx work slot? next) :
    (Value.struct held).Movable work.arena := by
  intro node source_eq
  unfold take at runs
  rw [source_eq] at runs
  obtain ⟨_, _, consumes, -⟩ := runs.bind
  obtain ⟨_, _, checks, marks⟩ := consumes.bind
  obtain ⟨-, rfl⟩ := runs_checkComplete.mp checks
  obtain ⟨arena, marked, -⟩ := runs_onArena.mp marks
  unfold Arena.markConsumed at marked
  split at marked
  · cases marked
  · rename_i owned
    exact Bool.eq_false_iff.mpr owned

theorem movable_of_moveInto (runs : Runs (moveInto held target span) ctx work code next) :
    (Value.struct held).Movable work.arena := by
  obtain ⟨_, _, takes, -⟩ := runs.bind
  exact movable_of_take takes

theorem movable_of_materialize (runs : Runs (materialize held span) ctx work made next) :
    (Value.struct held).Movable work.arena := by
  intro node source_eq
  unfold materialize at runs
  rw [source_eq] at runs
  obtain ⟨⟨slot, address⟩, _, allocates, runs⟩ := runs.bind
  obtain ⟨frame, -, -, rfl⟩ := runs_allocateStruct.mp allocates
  obtain ⟨_, _, moves, -⟩ := runs.bind
  exact movable_of_moveInto moves node source_eq

theorem Value.IsScalar.movable (isScalar : value.IsScalar type) (arena : Arena) :
    value.Movable arena := by
  rcases isScalar with rfl | rfl
  · trivial
  · trivial

theorem runs_expectStruct_bind {α : Type} {type} {rest : StructValue → Emit α} {result}
    (runs : Runs (expectStruct value type span >>= rest) ctx work result next) :
    ∃ held, value = .struct held ∧ Runs (rest held) ctx work result next := by
  obtain ⟨held, _, checks, runs⟩ := runs.bind
  obtain ⟨same, -, rfl⟩ := runs_expectStruct checks
  exact ⟨held, same, runs⟩

/-- The value that an expression gives when lowering has come to it, and that it is used. -/
def Used (ctx : Context) (work : Workspace) (lower : Emit (Code × Value)) : Prop :=
  ∃ result next, Runs lower ctx work result next ∧ result.2.Movable next.arena

theorem used_of_storeInto {type target} {lower : Option Ty → Emit (Code × Value)} {code}
    (runs : Runs (storeInto type target span lower) ctx work code next) :
    Used ctx work (lower (some type)) := by
  unfold storeInto at runs
  split at runs
  · obtain ⟨⟨_, value⟩, lowered, lowers, runs⟩ := runs.bind
    refine ⟨_, _, lowers, ?_⟩
    dsimp only at runs ⊢
    split at runs
    · rename_i never
      cases value <;> simp_all [Value.isNever, Value.Movable]
    · obtain ⟨held, rfl, goesOn⟩ := runs_expectStruct_bind runs
      obtain ⟨_, _, moves, -⟩ := goesOn.bind
      exact movable_of_moveInto moves
  · obtain ⟨_, lowered, lowers, runs⟩ := runs.bind
    exact ⟨_, _, lowers, (runs_expectScalar_bind.mp runs).1.movable _⟩

theorem movable_of_passArgument {type passed}
    (runs : Runs (passArgument value type span) ctx work passed next) :
    value.Movable work.arena := by
  unfold passArgument at runs
  split at runs
  · split at runs
    · rename_i never
      cases value <;> simp_all [Value.isNever, Value.Movable]
    · obtain ⟨held, rfl, goesOn⟩ := runs_expectStruct_bind runs
      obtain ⟨_, _, takes, -⟩ := goesOn.bind
      exact movable_of_take takes
  · exact (runs_expectScalar_bind.mp runs).1.movable _

theorem movable_of_lowerResult {code}
    (runs : Runs (lowerResult value span) ctx work code next) : value.Movable work.arena := by
  cases value with
  | struct held =>
    replace runs := runs_read_bind.mp runs
    split at runs
    · trivial
    · trivial
    · exact runs.fail
    · exact runs.fail
    · exact runs.fail
    · obtain ⟨other, same, moves⟩ := runs_expectStruct_bind runs
      rw [same]
      exact movable_of_moveInto moves
    · exact (runs_expectScalar_bind.mp runs).1.movable _
  | _ => trivial

theorem movable_of_declareValue
    (checks : Runs (checkDeclared declared value checkSpan) ctx work () mid)
    (runs : Runs (declareValue span name value valueSpan) ctx mid result next) :
    value.Movable work.arena := by
  have same : work = mid := by
    unfold checkDeclared at checks
    split at checks
    · split at checks
      · exact checks.pure.2
      · exact checks.fail
    · exact checks.pure.2
  subst same
  cases value with
  | struct held =>
    obtain ⟨_, _, makes, -⟩ := runs.bind
    exact movable_of_materialize makes
  | _ => trivial

/-! ## Parts of variables that are lent -/

/-- The value of a part, of a given type, of a variable that is lent. -/
def Value.LentPart (arena : Arena) (type : Ty) : Value → Prop
  | .struct held =>
    held.type = type ∧ ∃ node, held.source = .variable node ∧ (arena.loan? node).isSome
  | .scalar _ => type.isStruct = false
  | _ => False

/-- Lowering a part of a variable that is lent gives a value that is lent. -/
theorem lentPart_of_path {name entry path want result next} (called : work.arena.Called)
    (found : lookup? work.scopes name = some (.struct entry)) (lent : work.arena.Lent entry.node)
    (expr : Expr) (path_eq : expr.path? name = some path)
    (runs : Runs (lowerExpr expr want) ctx work result next) :
    ∃ type, ctx.layouts.typeAt? entry.type path = some type ∧
      result.2.LentPart next.arena type := by
  match expr with
  | .var span known =>
    rw [Expr.path?] at path_eq
    split at path_eq
    · rename_i same
      subst same
      injection path_eq with path_eq
      subst path_eq
      rw [lowerExpr] at runs
      replace runs := runs_get_bind.mp runs
      rw [found] at runs
      obtain ⟨rfl, rfl⟩ := runs.pure
      exact ⟨entry.type, rfl, rfl, entry.node, rfl, lent.isSome_loan?⟩
    · cases path_eq
  | .field span object chosen =>
    rw [Expr.path?] at path_eq
    obtain ⟨start, start_eq, rfl⟩ := Option.map_eq_some_iff.mp path_eq
    rw [lowerExpr] at runs
    obtain ⟨⟨code, value⟩, lowered, lowers, runs⟩ := runs.bind
    have calledThere : lowered.arena.Called :=
      called.trans ((composed_lowerExpr object none).of_runs lowers).1
    obtain ⟨type, type_eq, isPart⟩ := lentPart_of_path called found lent object start_eq lowers
    obtain ⟨part, reads, rfl⟩ := runs.bindPure
    replace reads := runs_read_bind.mp reads
    cases value with
    | struct held =>
      obtain ⟨rfl, node, source_eq, nodeLent⟩ := isPart
      dsimp only at reads
      split at reads
      · exact reads.fail
      · rename_i field known
        refine ⟨field.type, ?_, ?_⟩
        · rw [Layouts.typeAt?, foldlM_append]
          change (ctx.layouts.typeAt? entry.type start >>= _) = _
          rw [type_eq]
          simp [known]
        · obtain ⟨address, _, checks, reads⟩ := reads.bind
          obtain ⟨-, rfl⟩ := runs_check.mp checks
          rw [source_eq] at reads
          obtain ⟨child, _, looks, reads⟩ := reads.bind
          obtain ⟨child_eq, rfl⟩ := runs_fieldNode.mp looks
          split at reads
          · obtain ⟨rfl, rfl⟩ := reads.pure
            exact ⟨rfl, child, rfl, calledThere.isSome_loan?_get? child_eq nodeLent⟩
          · rename_i primitive
            obtain ⟨_, -, rfl⟩ := reads.bindPure
            exact Bool.eq_false_iff.mpr primitive
    | _ => exact reads.fail
  | .parens span inner =>
    rw [Expr.path?] at path_eq
    rw [lowerExpr] at runs
    exact lentPart_of_path called found lent inner path_eq runs

/-! ## Lowering comes to everything -/

/-- Lowering comes from a start to a part in a state. Some names were declared on the way. -/
structure Comes (ctx : Context) (root : Part × Workspace) (names : List String) (part : Part)
    (work : Workspace) : Prop where
  reaches : Reaches ctx root (part, work)
  ready : part.Ready work
  sees : Sees names root.2 work

theorem Comes.start (ready : part.Ready work) : Comes ctx (part, work) [] part work :=
  ⟨.refl, ready, (Stands.refl ready.proper).follows.2⟩

/-- What is known of an occurrence after lowering: lowering came to it, a loop was lowered to
its end, and a value that is used is not lent. -/
def Met (ctx : Context) (root : Part × Workspace) (names : List String) :
    Occurrence → Prop
  | .loop span condition body => ∃ work result next,
      Comes ctx root names (.statement (.loop span condition body)) work ∧
        Runs (lowerStatement (.loop span condition body)) ctx work result next
  | .use value => ∃ want work, Comes ctx root names (.expr value want) work ∧
      Used ctx work (lowerExpr value want)

def AllMet (ctx : Context) (root : Part × Workspace)
    (occurrences : List (List String × Occurrence)) : Prop :=
  ∀ occurrence ∈ occurrences, Met ctx root occurrence.1 occurrence.2

theorem AllMet.append (firstMet : AllMet ctx root first)
    (secondMet : AllMet ctx root second) : AllMet ctx root (first ++ second) :=
  forall_mem_append.mpr ⟨firstMet, secondMet⟩

theorem AllMet.use (comes : Comes ctx root names (.expr expr want) work)
    (used : Used ctx work (lowerExpr expr want))
    (inside : ∀ {result next}, Runs (lowerExpr expr want) ctx work result next →
      AllMet ctx root (expr.occurrences names)) :
    AllMet ctx root ((names, .use expr) :: expr.occurrences names) := by
  refine forall_mem_cons.mpr ⟨⟨want, work, comes, used⟩, ?_⟩
  obtain ⟨result, next, runs, -⟩ := used
  exact inside runs

section

variable (aligned : ctx.layouts.Aligned)
include aligned

theorem Comes.calls (comes : Comes ctx root names part work)
    (calls : Calls ctx (part, work) (inner, mid)) :
    Comes ctx root (part.namesBefore inner ++ names) inner mid := by
  obtain ⟨ready, sees⟩ := calls.follows aligned comes.ready
  exact ⟨.tail comes.reaches calls, ready, comes.sees.trans sees⟩

mutual

theorem met_lowerExpr (expr : Expr) {names want work next result}
    (comes : Comes ctx root names (.expr expr want) work)
    (runs : Runs (lowerExpr expr want) ctx work result next) :
    AllMet ctx root (expr.occurrences names) := by
  cases expr with rw [Expr.occurrences]
  | number span value => exact forall_mem_nil _
  | bool span value => exact forall_mem_nil _
  | literal span name fields =>
    rw [lowerExpr] at runs
    obtain ⟨layout, _, finds, runs⟩ := runs.bind
    obtain ⟨place, _, allocates, runs⟩ := runs.bind
    obtain ⟨_, _, lowers, -⟩ := runs.bind
    have known := known_of_literalLayout ⟨_, _, _, finds⟩
    exact met_lowerFields fields (fun field mem => known _ (mem_map_of_mem mem))
      (comes.calls aligned (.literal finds allocates)) lowers
  | var span name => exact forall_mem_nil _
  | call span name args =>
    rw [lowerExpr] at runs
    obtain ⟨sig, _, asks, runs⟩ := runs.bind
    obtain ⟨result?, _, allocates, runs⟩ := runs.bind
    obtain ⟨_, _, lowers, -⟩ := runs.bind
    exact met_lowerArguments args (runs_requestCallee asks).2.1
      (comes.calls aligned (.call asks allocates)) lowers
  | field span object chosen =>
    rw [lowerExpr] at runs
    obtain ⟨_, _, lowers, -⟩ := runs.bind
    exact met_lowerExpr object (comes.calls aligned .object) lowers
  | binary span left op right =>
    rw [lowerExpr] at runs
    split at runs
    · rename_i logical
      obtain ⟨_, _, decides, runs⟩ := runs.bind
      obtain ⟨_, _, checks, runs⟩ := runs.bind
      obtain ⟨_, _, forks, runs⟩ := runs.bind
      obtain ⟨_, _, lowers, -⟩ := runs.bind
      exact (met_lowerExpr left (comes.calls aligned (.logicalLeft logical)) decides).append
        (met_lowerExpr right (comes.calls aligned (.logicalRight logical decides checks forks))
          lowers)
    · rename_i numeric
      obtain ⟨_, _, hints, runs⟩ := runs.bind
      obtain ⟨_, _, computes, runs⟩ := runs.bind
      obtain ⟨_, _, checks, runs⟩ := runs.bind
      obtain ⟨_, _, lowers, -⟩ := runs.bind
      exact (met_lowerExpr left (comes.calls aligned (.operandLeft numeric hints)) computes).append
        (met_lowerExpr right (comes.calls aligned (.operandRight numeric hints computes checks))
          lowers)
  | negate span operand =>
    by_cases literal : ∃ span value, operand = .number span value
    · obtain ⟨_, _, rfl⟩ := literal
      rw [Expr.occurrences]
      exact forall_mem_nil _
    · have notLiteral : ∀ span value, operand ≠ .number span value :=
        fun span value operand_eq => literal ⟨span, value, operand_eq⟩
      rw [lowerExpr] at runs
      · obtain ⟨_, _, hints, runs⟩ := runs.bind
        obtain ⟨_, _, lowers, -⟩ := runs.bind
        exact met_lowerExpr operand (comes.calls aligned (.negate notLiteral hints)) lowers
      · exact notLiteral
  | not span operand =>
    rw [lowerExpr] at runs
    obtain ⟨_, _, lowers, -⟩ := runs.bind
    exact met_lowerExpr operand (comes.calls aligned .not) lowers
  | choice span choice =>
    rw [lowerExpr] at runs
    exact met_lowerChoice choice (comes.calls aligned .choice) runs
  | block span block =>
    rw [lowerExpr] at runs
    exact met_lowerBlock block (comes.calls aligned .block) runs
  | parens span inner =>
    rw [lowerExpr] at runs
    exact met_lowerExpr inner (comes.calls aligned .parens) runs

theorem met_lowerFields (fields : List FieldInit) {names layout address work next code}
    (known : ∀ field ∈ fields, layout.field? field.name.name ≠ none)
    (comes : Comes ctx root names (.fields layout address fields) work)
    (runs : Runs (lowerFields layout address fields) ctx work code next) :
    AllMet ctx root (occurrencesInFields fields names) := by
  match fields with
  | [] => exact forall_mem_nil _
  | { name, value } :: rest =>
    rw [lowerFields] at runs
    cases found : layout.field? name.name with
    | none => exact absurd found (known _ mem_cons_self)
    | some field =>
      rw [found] at runs
      obtain ⟨target, _, checks, runs⟩ := runs.bind
      obtain ⟨advances, rfl⟩ := runs_check.mp checks
      obtain ⟨_, _, stores, runs⟩ := runs.bind
      obtain ⟨_, _, lowers, -⟩ := runs.bind
      have comesValue := comes.calls aligned (.fieldValue found advances)
      refine (AllMet.use comesValue (used_of_storeInto stores)
        (met_lowerExpr value comesValue)).append ?_
      exact met_lowerFields rest (fun field mem => known field (mem_cons_of_mem _ mem))
        (comes.calls aligned (.fieldRest found advances stores)) lowers

theorem met_lowerArguments (args : List Expr) {names types work next result}
    (length_eq : args.length = types.length)
    (comes : Comes ctx root names (.arguments args types) work)
    (runs : Runs (lowerArguments args types) ctx work result next) :
    AllMet ctx root (occurrencesInArguments args names) := by
  match args, types with
  | [], _ => exact forall_mem_nil _
  | argument :: rest, type :: types =>
    rw [lowerArguments] at runs
    obtain ⟨⟨code, value⟩, _, computes, runs⟩ := runs.bind
    obtain ⟨passed, _, passes, runs⟩ := runs.bind
    obtain ⟨_, _, lowers, -⟩ := runs.bind
    have comesArgument := comes.calls aligned .argument
    refine (AllMet.use comesArgument ⟨_, _, computes, movable_of_passArgument passes⟩
      (met_lowerExpr argument comesArgument)).append ?_
    exact met_lowerArguments rest (Nat.succ.inj length_eq)
      (comes.calls aligned (.argumentRest computes passes)) lowers

theorem met_lowerChoice (choice : Choice) {names want work next result}
    (comes : Comes ctx root names (.choice choice want) work)
    (runs : Runs (lowerChoice choice want) ctx work result next) :
    AllMet ctx root (choice.occurrences names) := by
  match choice with
  | { condition, thenBlock, otherwise, span } =>
    rw [lowerChoice_eq] at runs
    obtain ⟨entry, _, enters, runs⟩ := runs.bind
    obtain ⟨first, _, finishes, runs⟩ := runs.bind
    obtain ⟨_, _, finishesSecond, -⟩ := runs.bind
    obtain ⟨_, _, decides, -⟩ := enters.bind
    obtain ⟨_, _, lowersFirst, -⟩ := finishes.bind
    obtain ⟨_, _, lowersThen, -⟩ := lowersFirst.bind
    obtain ⟨_, _, lowersOtherwise, -⟩ := finishesSecond.bind
    rw [Choice.occurrences]
    refine (met_lowerExpr condition (comes.calls aligned .condition) decides).append ?_
    refine (met_lowerBlock thenBlock (comes.calls aligned (.firstArm enters)) lowersThen).append ?_
    exact met_lowerAlternative otherwise (comes.calls aligned (.secondArm enters finishes))
      lowersOtherwise

theorem met_lowerAlternative (otherwise : Option Alternative) {names want work next result}
    (comes : Comes ctx root names (.alternative otherwise want) work)
    (runs : Runs (lowerAlternative otherwise want) ctx work result next) :
    AllMet ctx root (occurrencesInAlternative otherwise names) := by
  match otherwise with
  | none => exact forall_mem_nil _
  | some (.block block) =>
    rw [lowerAlternative] at runs
    exact met_lowerBlock block (comes.calls aligned .otherwiseBlock) runs
  | some (.choice choice) =>
    rw [lowerAlternative] at runs
    exact met_lowerChoice choice (comes.calls aligned .otherwiseChoice) runs

theorem met_lowerBlock (block : Block) {names want work next result}
    (comes : Comes ctx root names (.block block want) work)
    (runs : Runs (lowerBlock block want) ctx work result next) :
    AllMet ctx root (block.occurrences names) := by
  match block with
  | { statements, tail, span } =>
    rw [lowerBlock] at runs
    obtain ⟨_, _, opens, runs⟩ := runs.bind
    obtain ⟨_, _, flows, runs⟩ := runs.bind
    obtain ⟨_, _, lowers, -⟩ := runs.bind
    rw [Block.occurrences]
    have first := met_lowerStatements statements
      (comes.calls aligned (.blockStatements opens)) flows
    exact first.append (met_lowerTail tail (comes.calls aligned (.blockTail opens flows)) lowers)

theorem met_lowerTail (tail : Option Expr) {names want work next result}
    (comes : Comes ctx root names (.tail tail want) work)
    (runs : Runs (lowerTail tail want) ctx work result next) :
    AllMet ctx root (occurrencesInTail tail names) := by
  match tail with
  | none => exact forall_mem_nil _
  | some tail =>
    rw [lowerTail] at runs
    obtain ⟨⟨code, value⟩, _, computes, runs⟩ := runs.bind
    have comesTail := comes.calls aligned .tail
    refine AllMet.use comesTail ⟨_, _, computes, ?_⟩ (met_lowerExpr tail comesTail)
    cases value with
    | struct held =>
      obtain ⟨_, _, makes, -⟩ := runs.bind
      exact movable_of_materialize makes
    | _ => trivial

theorem met_lowerStatements (statements : List Stmt) {names work next result}
    (comes : Comes ctx root names (.statements statements) work)
    (runs : Runs (lowerStatements statements) ctx work result next) :
    AllMet ctx root (occurrencesInStatements statements names) := by
  match statements with
  | [] => exact forall_mem_nil _
  | stmt :: rest =>
    rw [lowerStatements] at runs
    obtain ⟨_, _, lowers, runs⟩ := runs.bind
    obtain ⟨_, _, lowersRest, -⟩ := runs.bind
    rw [occurrencesInStatements]
    exact (met_lowerStatement stmt (comes.calls aligned .statement) lowers).append
      (met_lowerStatements rest (comes.calls aligned (.statementRest lowers)) lowersRest)

theorem met_lowerStatement (stmt : Stmt) {names work next result}
    (comes : Comes ctx root names (.statement stmt) work)
    (runs : Runs (lowerStatement stmt) ctx work result next) :
    AllMet ctx root (stmt.occurrences names) := by
  match stmt with
  | .declare span name type none => exact forall_mem_nil _
  | .declare span name type (some initial) =>
    rw [lowerStatement] at runs
    obtain ⟨_, _, resolves, runs⟩ := runs.bind
    obtain ⟨_, _, computes, runs⟩ := runs.bind
    obtain ⟨_, _, checks, runs⟩ := runs.bind
    obtain ⟨_, _, declares, -⟩ := runs.bind
    have comesInitial := comes.calls aligned (.initial resolves)
    exact AllMet.use comesInitial ⟨_, _, computes, movable_of_declareValue checks declares⟩
      (met_lowerExpr initial comesInitial)
  | .assign span target value =>
    rw [lowerStatement] at runs
    obtain ⟨found, there, finds, runs⟩ := runs.bind
    have comesValue := comes.calls aligned (.assigned finds)
    have used : Used ctx there (lowerExpr value (some found.type)) := by
      cases found with
      | scalar type place =>
        obtain ⟨_, _, computes, runs⟩ := runs.bind
        exact ⟨_, _, computes, (runs_expectScalar_bind.mp runs).1.movable _⟩
      | part type address node =>
        obtain ⟨_, _, stores, -⟩ := runs.bind
        exact used_of_storeInto stores
    exact AllMet.use comesValue used (met_lowerExpr value comesValue)
  | .loop span cond body =>
    have whole := runs
    rw [lowerStatement_loop] at runs
    obtain ⟨entry, _, enters, runs⟩ := runs.bind
    obtain ⟨_, _, decides, runs⟩ := runs.bind
    obtain ⟨_, _, rounds, -⟩ := runs.bind
    obtain ⟨_, _, computes, -⟩ := decides.bind
    obtain ⟨_, _, lowers, -⟩ := rounds.bind
    refine forall_mem_cons.mpr ⟨⟨_, _, _, comes, whole⟩, ?_⟩
    exact AllMet.append (met_lowerExpr cond (comes.calls aligned (.guard enters)) computes)
      (met_lowerBlock body (comes.calls aligned (.round enters decides)) lowers)
  | .leave span none => exact forall_mem_nil _
  | .leave span (some value) =>
    rw [lowerStatement] at runs
    replace runs := runs_read_bind.mp runs
    obtain ⟨_, _, computes, runs⟩ := runs.bind
    obtain ⟨_, _, gives, -⟩ := runs.bind
    have comesValue := comes.calls aligned .left
    exact AllMet.use comesValue ⟨_, _, computes, movable_of_lowerResult gives⟩
      (met_lowerExpr value comesValue)
  | .evaluate span value =>
    rw [lowerStatement] at runs
    obtain ⟨_, _, computes, -⟩ := runs.bind
    exact met_lowerExpr value (comes.calls aligned .evaluated) computes

end

end

theorem primitive_of_met (met : Met ctx root names (.use expr))
    (called : root.2.arena.Called) (found : lookup? root.2.scopes name = some (.struct entry))
    (lent : root.2.arena.Lent entry.node) (fresh : name ∉ names)
    (path_eq : expr.path? name = some path) :
    ∃ type, ctx.layouts.typeAt? entry.type path = some type ∧ type.isStruct = false := by
  obtain ⟨want, work, comes, ⟨code, value⟩, next, runs, movable⟩ := met
  obtain ⟨node, foundThere, lending⟩ := comes.sees.finds fresh found
  obtain ⟨type, type_eq, isPart⟩ := lentPart_of_path (called.trans comes.sees.leads) foundThere
    (lending lent) expr path_eq runs
  refine ⟨type, type_eq, ?_⟩
  cases value with
  | struct held =>
    obtain ⟨-, node, source_eq, nodeLent⟩ := isPart
    rw [movable node source_eq] at nodeLent
    cases nodeLent
  | scalar _ => exact isPart
  | _ => exact isPart.elim

theorem lent_of_fork (forks : Runs (fork (some loan)) ctx work saved next)
    (found : lookup? work.scopes name = some (.struct entry)) :
    saved = work.scopes ∧ work.arena.Leads next.arena ∧
      ∃ node, lookup? next.scopes name = some (.struct { entry with node }) ∧
        next.arena.Lent node := by
  obtain ⟨rfl, rfl⟩ := runs_fork.mp forks
  obtain ⟨node, foundThere, copied⟩ :=
    (sameScopes_forkedScopes (some loan) work.scopes work.arena).lookup?_eq found
  exact ⟨rfl, leads_forkedScopes _ _ _, node, foundThere, copied (.inl rfl)⟩

/-- The variables around a loop are used by value inside it only where they are primitives. -/
theorem primitive_of_loop (aligned : ctx.layouts.Aligned) {cond value body result name entry path}
    (ready : Part.Ready work (.statement (.loop span cond body))) (called : work.arena.Called)
    (runs : Runs (lowerStatement (.loop span cond body)) ctx work result next)
    (found : lookup? work.scopes name = some (.struct entry))
    (occurs : (names, .use value) ∈ cond.occurrences [] ++ body.occurrences [])
    (fresh : name ∉ names) (path_eq : value.path? name = some path) :
    ∃ type, ctx.layouts.typeAt? entry.type path = some type ∧ type.isStruct = false := by
  rw [lowerStatement_loop] at runs
  obtain ⟨loopEntry, entered, enters, runs⟩ := runs.bind
  obtain ⟨_, decided, decides, runs⟩ := runs.bind
  obtain ⟨_, _, rounds, -⟩ := runs.bind
  have enteredReady := (Calls.follows aligned (.guard enters) ready).1
  have decidedReady := (Calls.follows aligned (.round enters decides) ready).1
  obtain ⟨_, opened, opens, enters⟩ := enters.bind
  obtain ⟨frame, -, rfl⟩ := runs_onFrame.mp opens
  obtain ⟨saved, forks, rfl⟩ := enters.bindPure
  obtain ⟨saved_eq, leads, node, foundThere, lent⟩ := lent_of_fork forks found
  obtain ⟨_, computed, computes, decides⟩ := decides.bind
  rcases mem_append.mp occurs with inCondition | inBody
  · have met := met_lowerExpr aligned cond (Comes.start enteredReady) computes _ inCondition
    have primitive := primitive_of_met met (called.trans leads) foundThere lent fresh path_eq
    exact primitive
  · replace decides := (runs_expectScalar_bind.mp decides).2
    obtain ⟨_, _, restores, decides⟩ := decides.bind
    obtain rfl := runs_restoreScopes.mp restores
    obtain ⟨_, forksAgain, -⟩ := decides.bindPure
    dsimp only at forksAgain saved_eq
    obtain ⟨-, leadsOn, node, foundThere, lent⟩ := lent_of_fork forksAgain
      (show lookup? saved name = some (.struct entry) from saved_eq ▸ found)
    have leadsBetween := ((composed_lowerExpr cond (some .bool)).of_runs computes).1
    obtain ⟨_, _, lowers, -⟩ := rounds.bind
    have met := met_lowerBlock aligned body (Comes.start decidedReady) lowers _ inBody
    have calledThere := called.trans (leads.trans (leadsBetween.trans leadsOn))
    have primitive := primitive_of_met met calledThere foundThere lent fresh path_eq
    exact primitive

/-! ## Functions -/

/-- Lowering an accepted function comes to every loop in it. A variable that is known there
is used by value in the condition and in the body, at any depth, only where a primitive
of it is read: no structure is moved out of the loop. -/
theorem no_move_out_of_loop {config : Config} {file : String} {structs : List StructDecl}
    {layouts : Layouts} {signatures : List (String × Option Signature)} {decl : FunctionDecl}
    {signature : Signature} {lowered : Body} {condition : Expr} {body : Block}
    (built : Layouts.build file structs = .ok layouts)
    (accepted : (lowerFunction config layouts signatures decl signature).body = .ok lowered)
    (occurs : (names, .loop span condition body) ∈ decl.body.occurrences []) :
    ∃ bound work,
      Runs (bindParams (firstParam signature) decl.span (paramsOf decl signature))
        (functionContext config layouts signatures signature) (functionStart config signature)
        () bound ∧
      Reaches (functionContext config layouts signatures signature)
        (.block decl.body signature.result, bound) (.statement (.loop span condition body), work) ∧
      ∀ name entry, lookup? work.scopes name = some (.struct entry) →
        ∀ value hidden path,
          (hidden, .use value) ∈ condition.occurrences [] ++ body.occurrences [] →
          name ∉ hidden → value.path? name = some path →
          ∃ type, layouts.typeAt? entry.type path = some type ∧ type.isStruct = false := by
  have aligned : layouts.Aligned := (Layouts.built_of_build built).aligned
  obtain ⟨next, runs, -⟩ := runs_of_lowerFunction accepted
  obtain ⟨run⟩ := declarationRun_of_runs runs
  have frame_eq := (keepsFrame_bindParams _ _ _ rfl : Meets _ _ _ _ True).ends run.binds
  have proper : run.bound.frame.Proper := frame_eq ▸ .new _ _
  have called : run.bound.arena.Called := ((composed_bindParams _ _ _).of_runs run.binds).1
  obtain ⟨work, result, after, comes, lowers⟩ :=
    met_lowerBlock aligned decl.body (Comes.start proper) run.lowers _ occurs
  refine ⟨run.bound, work, run.binds, comes.reaches, ?_⟩
  intro name entry found value hidden path isUse fresh path_eq
  exact primitive_of_loop aligned comes.ready (called.trans comes.sees.leads) lowers found isUse
    fresh path_eq

/-- A structure with a flag. -/
def flagStruct : StructDecl :=
  { name := ⟨"Flag", default⟩
    fields := [{ name := ⟨"on", default⟩
                 type := ⟨.bool, default⟩, span := default }]
    span := default }

/-- The flag of a variable. -/
def readsOn : Expr :=
  .field default (.var default "flag") ⟨"on", default⟩

/-- A function that sets the flag of its parameter to itself while it is set. -/
def keepsFlag : FunctionDecl :=
  { name := ⟨"keep", default⟩
    params := [{ name := ⟨"flag", default⟩
                 type := ⟨.named "Flag", default⟩, span := default }]
    result := none
    body :=
      { statements := [.loop default readsOn
          { statements := [.assign default
              [⟨"flag", default⟩, ⟨"on", default⟩] readsOn]
            tail := none
            span := default }]
        tail := none
        span := default }
    exported := true
    span := default }

theorem no_move_out_of_keepsFlag :
    ∃ layouts lowered condition body, Layouts.build "" [flagStruct] = .ok layouts ∧
      (lowerFunction .standard layouts [] keepsFlag
        { params := [.struct "Flag"], result := none }).body = .ok lowered ∧
      ([], .loop default condition body) ∈ keepsFlag.body.occurrences [] ∧
      ([], .use readsOn) ∈ condition.occurrences [] ++ body.occurrences [] ∧
      ∃ bound work, Reaches (functionContext .standard layouts []
          { params := [.struct "Flag"], result := none })
          (.block keepsFlag.body none, bound) (.statement (.loop default condition body), work) ∧
        ∀ name entry, lookup? work.scopes name = some (.struct entry) →
          ∀ value hidden path,
            (hidden, .use value) ∈ condition.occurrences [] ++ body.occurrences [] →
            name ∉ hidden → value.path? name = some path →
            ∃ type, layouts.typeAt? entry.type path = some type ∧ type.isStruct = false := by
  have accepted : ((Layouts.build "" [flagStruct]).toOption.bind fun layouts =>
      (lowerFunction .standard layouts [] keepsFlag
        { params := [.struct "Flag"], result := none }).body.toOption).isSome = true := by
    cbv
  obtain ⟨lowered, both⟩ := Option.isSome_iff_exists.mp accepted
  obtain ⟨layouts, builds, lowers⟩ := Option.bind_eq_some_iff.mp both
  have built := eq_ok_of_toOption builds
  have isLowered := eq_ok_of_toOption lowers
  refine ⟨layouts, lowered, _, _, built, isLowered, mem_cons_self, mem_cons_self, ?_⟩
  obtain ⟨bound, work, -, reaches, primitive⟩ :=
    no_move_out_of_loop built isLowered mem_cons_self
  exact ⟨bound, work, reaches, primitive⟩

end Lowering
end StructWasm

import StructWasm.Layout.Build

/-!
# Types known in advance

The type of an expression, where it can be told without lowering it. A number
has no type of its own. A block has the type of its tail; if the tail names a
variable of the block itself, the last declaration of that name counts.
-/

namespace StructWasm.Lowering

/-- What names stand for. -/
structure TypeEnv where
  layouts : Layouts
  variableType? : String → Option Ty
  resultType? : String → Option Ty

mutual

def staticType? (env : TypeEnv) : Expr → Option Ty
  | .number _ _ => none
  | .bool _ _ => some .bool
  | .literal _ name _ => (env.layouts.get? name.name).map fun layout => .struct layout.name
  | .var _ name => env.variableType? name
  | .call _ name _ => env.resultType? name.name
  | .field _ object field => do
      let type ← staticType? env object
      let layout ← env.layouts.field? type field.name
      return layout.type
  | .binary _ left op right =>
    if op.isComparison || op == .and || op == .or then
      some .bool
    else
      match staticType? env left with
      | some type => some type
      | none => staticType? env right
  | .not _ _ => some .bool
  | .negate _ operand => staticType? env operand
  | .choice _ choice => choiceType? env choice
  | .block _ block => blockType? env block
  | .parens _ inner => staticType? env inner
termination_by structural expr => expr

/-- Type of a choice: that of its first part, or else of the other one. -/
def choiceType? (env : TypeEnv) : Choice → Option Ty
  | { thenBlock, otherwise, .. } =>
    match blockType? env thenBlock with
    | some type => some type
    | none => alternativeType? env otherwise
termination_by structural choice => choice

def alternativeType? (env : TypeEnv) : Option Alternative → Option Ty
  | none => none
  | some (.block block) => blockType? env block
  | some (.choice choice) => choiceType? env choice
termination_by structural otherwise => otherwise

def blockType? (env : TypeEnv) : Block → Option Ty
  | { tail := none, .. } => none
  | { statements, tail := some tail, .. } =>
    match tail with
    | .var _ name =>
      match declaredType? env name statements with
      | some type => type
      | none => env.variableType? name
    | tail => staticType? env tail
termination_by structural block => block

/-- Type of a variable by its last declaration among statements, if there is
one. -/
def declaredType? (env : TypeEnv) (name : String) : List Stmt → Option (Option Ty)
  | [] => none
  | statement :: rest =>
    match declaredType? env name rest with
    | some type => some type
    | none => statementType? env name statement
termination_by structural statements => statements

def statementType? (env : TypeEnv) (name : String) : Stmt → Option (Option Ty)
  | .declare _ declared (some note) _ =>
    if declared.name = name then some (env.layouts.resolve note.type).toOption else none
  | .declare _ declared none (some value) =>
    if declared.name = name then some (staticType? env value) else none
  | .declare _ declared none none =>
    if declared.name = name then some none else none
  | _ => none
termination_by structural statement => statement

end

end StructWasm.Lowering

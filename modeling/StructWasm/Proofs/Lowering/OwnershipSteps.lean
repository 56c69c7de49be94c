import StructWasm.Proofs.Lowering.Basic

/-!
# Steps that work on ownership only

Most steps of lowering look at the state, and change the ownership of values at
most. Such a step never stops because of the frame.
-/

namespace StructWasm.Lowering

/-- The faults of frames. -/
inductive FrameFault where
  /-- The frame refuses a call. -/
  | refused (cause : Frame.Error)
  /-- A number that is laid out late is not known. -/
  | unknown (cause : DeferredError)

/-- The fault that stops a compilation. -/
def FrameFault.fault : FrameFault → Fault
  | refused cause => .frame cause
  | unknown cause => .deferred cause

/-- An operation that does not fail because of the frame. -/
def NotOfFrame {α : Type} (outcome : Except Fault α) : Prop :=
  ∀ cause : FrameFault, outcome ≠ .error cause.fault

variable {α β : Type}

theorem FailsPlainly.notOfFrame {out : Except Fault α} (plain : FailsPlainly out) :
    NotOfFrame out := by
  intro cause failed
  rcases plain _ failed with ⟨_, same⟩ | ⟨_, same⟩ | ⟨_, same⟩
  all_goals cases cause <;> cases same

/-- A basic step that changes the ownership of values at most, and does not stop because
of the frame. -/
structure Emit.OnOwnership (step : Emit α) : Prop extends Emit.Basic step where
  keeps : ∀ ⦃ctx work value next⦄, Runs step ctx work value next →
    ∃ arena, next = { work with arena }
  notOfFrame : ∀ ⦃ctx work⦄ ⦃cause : FrameFault⦄, ¬Stops step ctx work cause.fault

protected theorem Emit.OnOwnership.pure (value : α) : Emit.OnOwnership (pure value) where
  toBasic := basic_pure value
  keeps := fun ctx work result next runs => by
    obtain ⟨-, rfl⟩ := runs.pure
    exact ⟨work.arena, rfl⟩
  notOfFrame := fun _ _ _ => not_stops_pure

protected theorem Emit.OnOwnership.read : Emit.OnOwnership read where
  toBasic := basic_read
  keeps := fun ctx work result next runs => by
    obtain ⟨-, rfl⟩ := runs_read.mp runs
    exact ⟨work.arena, rfl⟩
  notOfFrame := fun _ _ _ => not_stops_read

protected theorem Emit.OnOwnership.throw (loud : fault.Loud)
    (notOfFrame : ∀ cause : FrameFault, fault ≠ cause.fault) :
    Emit.OnOwnership (throw fault : Emit α) where
  toBasic := basic_throw loud
  keeps := fun _ _ _ _ runs => absurd runs not_runs_throw
  notOfFrame := fun _ _ cause stops => notOfFrame cause (stops_throw.mp stops)

protected theorem Emit.OnOwnership.fail (mistake : Mistake) (span : Span) :
    Emit.OnOwnership (fail mistake span : Emit α) where
  toBasic := basic_fail mistake span
  keeps := fun _ _ _ _ runs => absurd runs not_runs_fail
  notOfFrame := fun _ _ cause stops => by
    cases cause <;> cases stops_fail.mp stops

protected theorem Emit.OnOwnership.check {out : Except Fault α} (plain : FailsPlainly out) :
    Emit.OnOwnership (check out) where
  toBasic := basic_check plain
  keeps := fun ctx work result next runs => by
    obtain ⟨-, rfl⟩ := runs_check.mp runs
    exact ⟨work.arena, rfl⟩
  notOfFrame := fun _ _ cause stops => plain.notOfFrame cause (stops_check.mp stops)

protected theorem Emit.OnOwnership.bind {rest : α → Emit β} (first : Emit.OnOwnership step)
    (second : ∀ value, Emit.OnOwnership (rest value)) : Emit.OnOwnership (step >>= rest) where
  toBasic := basic_bind first.toBasic fun value => (second value).toBasic
  keeps := fun ctx work result next runs => by
    obtain ⟨value, mid, firstRuns, secondRuns⟩ := runs.bind
    obtain ⟨arena, rfl⟩ := first.keeps firstRuns
    obtain ⟨arena, rfl⟩ := (second value).keeps secondRuns
    exact ⟨arena, rfl⟩
  notOfFrame := fun ctx work cause stops => by
    rcases stops_bind.mp stops with stops | ⟨value, mid, -, stops⟩
    · exact first.notOfFrame stops
    · exact (second value).notOfFrame stops

protected theorem Emit.OnOwnership.look {rest : Workspace → Emit α}
    (blind : ∀ work frame requests, rest (work.aside frame requests) = rest work)
    (each : ∀ work, Emit.OnOwnership (rest work)) : Emit.OnOwnership (get >>= rest) where
  toBasic := basic_look blind fun work => (each work).toBasic
  keeps := fun ctx work result next runs => by
    replace runs := runs_get_bind.mp runs
    exact (each work).keeps runs
  notOfFrame := fun ctx work cause stops =>
    (each work).notOfFrame (stops_get_bind.mp stops)

protected theorem Emit.OnOwnership.map (onOwnership : Emit.OnOwnership step)
    (change : α → β) : Emit.OnOwnership (change <$> step) := by
  rw [map_eq_pure_bind]
  exact .bind onOwnership fun _ => .pure _

/-! ## Parts of values -/

theorem onOwnership_onArena {step : Ownership.Arena → Except Ownership.Error Ownership.Arena}
    (basic : Emit.Basic (onArena span step)) : Emit.OnOwnership (onArena span step) where
  toBasic := basic
  keeps := fun ctx work result next runs => by
    obtain ⟨arena, -, rfl⟩ := runs_onArena.mp runs
    exact ⟨arena, rfl⟩
  notOfFrame := fun ctx work cause stops => by
    replace stops := stops_get_bind.mp stops
    split at stops
    · exact not_stops_set stops
    · cases cause <;> cases stops_fail.mp stops

theorem onOwnership_newValue (name : String) (type : Ty) :
    Emit.OnOwnership (newValue name type) where
  toBasic := basic_newValue name type
  keeps := fun ctx work result next runs => by
    obtain ⟨-, rfl⟩ := runs_newValue.mp runs
    exact ⟨_, rfl⟩
  notOfFrame := fun ctx work cause stops => by
    simp [newValue] at stops

section

variable (node : Ownership.NodeId)
include node

theorem onOwnership_fieldNode (type : Ty) (field : String) :
    Emit.OnOwnership (fieldNode node type field) where
  toBasic := basic_fieldNode node type field
  keeps := fun ctx work result next runs => by
    obtain ⟨-, rfl⟩ := runs_fieldNode.mp runs
    exact ⟨_, rfl⟩
  notOfFrame := fun ctx work cause stops => by
    replace stops := stops_get_bind.mp stops
    split at stops
    · simp at stops
    · cases cause <;> cases stops_throw.mp stops

theorem onOwnership_checkComplete (span : Span) : Emit.OnOwnership (checkComplete node span) where
  toBasic := basic_checkComplete node span
  keeps := fun ctx work result next runs => by
    obtain ⟨-, rfl⟩ := runs_checkComplete.mp runs
    exact ⟨work.arena, rfl⟩
  notOfFrame := fun ctx work cause stops => by
    simp only [checkComplete, stops_get_bind] at stops
    split at stops
    · exact not_stops_pure stops
    · cases cause <;> cases stops_throw.mp (stops_read_bind.mp stops)

theorem onOwnership_consume (span : Span) : Emit.OnOwnership (consume node span) :=
  .bind (onOwnership_checkComplete node span) fun _ =>
    onOwnership_onArena (basic_markConsumed node span)

theorem onOwnership_define (span : Span) : Emit.OnOwnership (define node span) :=
  onOwnership_onArena (basic_define node span)

end

theorem onOwnership_resolveType (note : TypeNote) : Emit.OnOwnership (resolveType note) := by
  refine .bind .read fun ctx => ?_
  split
  · exact .pure _
  · exact .fail _ note.span

theorem onOwnership_slotAddress (slot : Frame.Allocation) : Emit.OnOwnership (slotAddress slot) :=
  .bind .read fun _ => .pure _

/-! ## Moving values -/

theorem onOwnership_copyStruct (type : Ty) (source target : Address) :
    Emit.OnOwnership (copyStruct type source target) := by
  refine .bind .read fun _ => ?_
  refine .bind (.check ?_) fun _ => .pure _
  exact .mapM fun leaf _ => failsPlainly_copyLeaf source target leaf

theorem onOwnership_take (value : StructValue) (span : Span) :
    Emit.OnOwnership (take value span) := by
  unfold take
  split
  · exact .bind (onOwnership_consume _ span) fun _ => .pure _
  · exact .pure _

theorem onOwnership_expectScalar (value : Value) (type : Ty) (span : Span) :
    Emit.OnOwnership (expectScalar value type span) := by
  unfold expectScalar
  split
  · exact .pure _
  · split
    · exact .pure _
    · exact .fail _ span
  · exact .fail _ span

theorem onOwnership_expectStruct (value : Value) (type : Ty) (span : Span) :
    Emit.OnOwnership (expectStruct value type span) := by
  unfold expectStruct
  split
  · split
    · exact .pure _
    · exact .fail _ span
  · exact .fail _ span

/-! ## Expressions -/

theorem onOwnership_literalType (value : Binary64) (want : Option Ty) (span : Span) :
    Emit.OnOwnership (literalType value want span) := by
  unfold literalType
  split
  · split
    · exact .pure _
    · exact .fail _ span
  · split
    · exact .pure _
    · exact .pure _

theorem onOwnership_lowerNumber (value : Binary64) (want : Option Ty) (span : Span) :
    Emit.OnOwnership (lowerNumber value want span) := by
  refine .bind (onOwnership_literalType value want span) fun type => ?_
  exact .bind (.check (failsPlainly_literal _)) fun _ => .pure _

theorem onOwnership_checkFieldNames (layout : StructLayout) (seen : List String)
    (fields : List Ident) : Emit.OnOwnership (checkFieldNames layout seen fields) := by
  induction fields generalizing seen with
  | nil => exact .pure _
  | cons field rest ih =>
    unfold checkFieldNames
    have distinct : ∀ result : Unit, Emit.OnOwnership (if seen.contains field.name then do
          fail (.duplicateFieldValue field.name) field.span
          checkFieldNames layout (field.name :: seen) rest
        else
          checkFieldNames layout (field.name :: seen) rest) := by
      intro result
      split
      · exact .bind (.fail _ field.span) fun _ => ih _
      · exact ih _
    dsimp only
    split
    · exact .bind (.fail _ field.span) distinct
    · exact distinct ()

theorem onOwnership_literalLayout (span : Span) (name : Ident) (fields : List Ident) :
    Emit.OnOwnership (literalLayout span name fields) := by
  refine .bind .read fun ctx => ?_
  split
  · exact .fail _ name.span
  · refine .bind (onOwnership_checkFieldNames _ [] fields) fun _ => ?_
    dsimp only
    split
    · exact .fail _ span
    · exact .pure _

theorem onOwnership_lowerVariable (name : String) (span : Span) :
    Emit.OnOwnership (lowerVariable name span) := by
  refine .look (fun _ _ _ => rfl) fun work => ?_
  split
  · exact .pure _
  · exact .pure _
  · exact .fail _ span

theorem onOwnership_passArgument (value : Value) (type : Ty) (span : Span) :
    Emit.OnOwnership (passArgument value type span) := by
  unfold passArgument
  split
  · split
    · exact .pure _
    · refine .bind (onOwnership_expectStruct value type span) fun actual => ?_
      exact .bind (onOwnership_take actual span) fun _ => .pure _
  · exact .bind (onOwnership_expectScalar value type span) fun _ => .pure _

theorem onOwnership_typeEnv : Emit.OnOwnership typeEnv :=
  .bind .read fun _ =>
    .look (fun _ _ _ => rfl) fun _ => .pure _

theorem onOwnership_operandHint (op : BinaryOp) (want : Option Ty) (left right : Expr) :
    Emit.OnOwnership (operandHint op want left right) := by
  refine .bind onOwnership_typeEnv fun env => ?_
  dsimp only
  generalize (if op.isComparison then none else numericHint want) = wanted
  cases wanted with
  | some type => exact .pure _
  | none =>
    cases staticType? env left with
    | some type => exact .pure _
    | none => exact .pure _

theorem onOwnership_negationHint (want : Option Ty) (operand : Expr) :
    Emit.OnOwnership (negationHint want operand) := by
  refine .bind onOwnership_typeEnv fun env => ?_
  split
  · exact .pure _
  · exact .pure _

theorem onOwnership_operandType (op : BinaryOp) (value : Value) (span : Span) :
    Emit.OnOwnership (operandType op value span) := by
  unfold operandType
  split
  · exact .pure _
  · exact .fail _ span

theorem onOwnership_operatorFor (op : BinaryOp) (operand : Ty) (span : Span) :
    Emit.OnOwnership (operatorFor op operand span) := by
  unfold operatorFor
  split
  · exact .pure _
  · exact .fail _ span

theorem onOwnership_negate (code : Code) (value : Value) (span : Span) :
    Emit.OnOwnership (negate code value span) := by
  unfold negate
  split
  · exact .pure _
  · exact .pure _
  · exact .pure _
  · exact .pure _
  · exact .fail _ span

/-! ## Arms -/

theorem onOwnership_joinValues (first second : Value) (span : Span) :
    Emit.OnOwnership (joinValues first second span) := by
  unfold joinValues
  split
  · exact .pure _
  · exact .pure _
  · split
    · exact .pure _
    · exact .fail _ span
  · split
    · exact .pure _
    · exact .fail _ span
  · exact .pure _
  · exact .fail _ span

/-! ## Statements -/

theorem onOwnership_checkDeclared (declared : Option Ty) (value : Value) (span : Span) :
    Emit.OnOwnership (checkDeclared declared value span) := by
  unfold checkDeclared
  split
  · split
    · exact .pure _
    · exact .fail _ span
  · exact .pure _

theorem onOwnership_followPath (type : Ty) (address : Address) (node : Ownership.NodeId)
    (path : List Ident) : Emit.OnOwnership (followPath type address node path) := by
  induction path generalizing type address node with
  | nil => exact .pure _
  | cons segment rest ih =>
    refine .bind .read fun ctx => ?_
    split
    · split
      · exact .fail _ segment.span
      · exact .fail _ segment.span
    · refine .bind (.check (failsPlainly_advance _ _)) fun address => ?_
      exact .bind (onOwnership_fieldNode _ _ _) fun node => ih _ _ _

theorem onOwnership_assignmentTarget (span : Span) (target : List Ident) :
    Emit.OnOwnership (assignmentTarget span target) := by
  unfold assignmentTarget
  split
  · exact .throw trivial fun cause => by cases cause <;> nofun
  · refine .look (fun _ _ _ => rfl) fun work => ?_
    split
    · exact .fail _ _
    · exact .pure _
    · exact .fail _ _
    · refine .bind (onOwnership_followPath _ _ _ _) fun found => ?_
      refine .look (fun _ _ _ => rfl) fun work => ?_
      dsimp only
      split
      · exact .bind (.fail _ span) fun _ => .pure _
      · exact .pure _

end StructWasm.Lowering

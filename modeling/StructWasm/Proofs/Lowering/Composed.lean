import StructWasm.Proofs.Frame.Policy
import StructWasm.Proofs.Lowering.Quiet
import StructWasm.Proofs.Lowering.Scopes

/-!
# Steps that are made of basic steps

Lowering is a sequence of steps of three kinds: basic ones, calls of the frame, and
requests for a function. Whatever holds of these and of steps that follow each other
holds of lowering, and it is known which functions a step asks for.
-/

namespace StructWasm.Lowering

open Ownership (Arena)

variable {α β : Type}

def Gives (step : Emit α) (value : α) : Prop :=
  ∃ ctx work next, Runs step ctx work value next

/-- A step that is made of basic steps, calls of the frame and requests. It asks for some
functions, in order. -/
inductive Composed : {α : Type} → List String → Emit α → Prop where
  | basic {α : Type} {step : Emit α} (basic : step.Basic) : Composed [] step
  | bind {α β : Type} {step : Emit α} {rest : α → Emit β} {asked more : List String}
      (first : Composed asked step)
      (second : ∀ value, Gives step value → Composed more (rest value)) :
      Composed (asked ++ more) (step >>= rest)
  | look {β : Type} {rest : Workspace → Emit β} {asked : List String}
      (blind : ∀ work frame requests, rest (work.aside frame requests) = rest work)
      (each : ∀ work, Composed asked (rest work)) :
      Composed asked (get >>= rest)
  | onFrame {α : Type} {step : Frame.Allocator → Except Frame.Error (Frame.Allocator × α)}
      (eases : Frame.Allocator.Eases step) :
      Composed [] (onFrame step)
  | request (name : Ident) (argumentCount : Nat) :
      Composed [name.name] (requestCallee name argumentCount)

theorem Emit.OnOwnership.composed {step : Emit α} (onOwnership : step.OnOwnership) :
    Composed [] step :=
  .basic onOwnership.toBasic

namespace Composed

variable {rest : α → Emit β}

theorem after (first : Composed [] step) (second : ∀ value, Composed asked (rest value)) :
    Composed asked (step >>= rest) :=
  .bind first fun value _ => second value

theorem before (first : Composed asked step) (second : ∀ value, Composed [] (rest value)) :
    Composed asked (step >>= rest) := by
  have both := Composed.bind first fun value _ => second value
  rwa [List.append_nil] at both

theorem map (composed : Composed asked step) (change : α → β) :
    Composed asked (change <$> step) := by
  rw [map_eq_pure_bind]
  exact composed.before fun _ => .basic (basic_pure _)

end Composed

/-- A step begins with another one and asks for nothing afterwards. -/
inductive Begins {β : Type} (inner : Emit β) : {α : Type} → Emit α → Prop where
  | here : Begins inner inner
  | first {α γ : Type} {step : Emit α} {rest : α → Emit γ} (begins : Begins inner step)
      (after : ∀ value, Composed [] (rest value)) :
      Begins inner (step >>= rest)

theorem Begins.composed {inner : Emit β} {step : Emit α} (begins : Begins inner step)
    (composed : Composed asked inner) : Composed asked step := by
  induction begins with
  | here => exact composed
  | first _ after ih => exact ih.before after

protected theorem Composed.pure (value : α) : Composed [] (pure value : Emit α) :=
  .basic (basic_pure value)

protected theorem Composed.fail (mistake : Mistake) (span : Span) :
    Composed [] (fail mistake span : Emit α) :=
  .basic (basic_fail mistake span)

theorem composed_forM {step : α → Emit PUnit} (each : ∀ value, Composed [] (step value)) :
    ∀ values : List α, Composed [] (values.forM step)
  | [] => .pure _
  | value :: values => (each value).after fun _ => composed_forM each values

/-! ## Frame and scopes -/

theorem composed_allocateStruct (type : Ty) : Composed [] (allocateStruct type) := by
  refine Emit.OnOwnership.read.composed.after fun ctx => ?_
  refine (Composed.onFrame (Frame.Allocator.eases_allocate _ _)).after fun slot => ?_
  exact (onOwnership_slotAddress slot).composed.after fun _ => .pure _

theorem composed_release (slot : Frame.Allocation) : Composed [] (release slot) := by
  unfold release
  split
  · exact .onFrame (Frame.Allocator.eases_free slot.id)
  · exact .pure _

theorem composed_releaseBinding (binding : Binding) : Composed [] (releaseBinding binding) := by
  unfold releaseBinding
  split
  · split
    · exact .pure _
    · exact .basic (basic_freeLocal _)
  · split
    · exact .pure _
    · exact composed_release _

/-- Leave the innermost scope without giving anything back. -/
def closeScope : Emit Scope := do
  let work ← get
  set { work with scopes := work.scopes.tail }
  return work.scopes.headD []

theorem basic_closeScope : Emit.Basic closeScope where
  apart := fun _ _ _ _ => rfl
  leads := by
    intro ctx work result next runs
    simp only [closeScope, runs_bind, runs_get, runs_set, runs_pure] at runs
    obtain ⟨_, _, ⟨rfl, rfl⟩, _, _, rfl, -, rfl⟩ := runs
    exact .refl _
  loud := by
    intro ctx work fault stops
    simp [closeScope] at stops

theorem popScope_eq : popScope = closeScope >>= fun scope =>
      scope.forM fun entry => releaseBinding entry.2 := rfl

theorem composed_popScope : Composed [] popScope := by
  rw [popScope_eq]
  refine (Composed.basic basic_closeScope).after fun scope => composed_forM ?_ scope
  exact fun entry => composed_releaseBinding entry.2

theorem composed_fork (loan : Option Ownership.Loan) : Composed [] (fork loan) := by
  refine .basic ⟨fun _ _ _ _ => rfl, ?_, ?_⟩
  · intro ctx work saved next runs
    obtain ⟨-, rfl⟩ := runs_fork.mp runs
    exact leads_forkedScopes loan work.scopes work.arena
  · intro ctx work fault stops
    exact absurd stops (not_stops_of_ok rfl)

theorem composed_joinOptional (saved : List Scope) : Composed [] (joinOptional saved) := by
  refine .look (fun _ _ _ => rfl) fun work => ?_
  exact (Composed.basic (basic_infuseAll _ _)).after fun _ => .basic (basic_restoreScopes saved)

theorem composed_joinArms (first second : List Scope) (firstNever secondNever : Bool) :
    Composed [] (joinArms first second firstNever secondNever) := by
  unfold joinArms
  split
  · exact .basic (basic_restoreScopes second)
  · dsimp only
    split
    · exact (Composed.basic (basic_infuseAll _ _)).after fun _ => .basic (basic_restoreScopes first)
    · exact .basic (basic_restoreScopes first)

theorem Emit.Slotwise.composed {step : Emit α} (slotwise : step.Slotwise) : Composed [] step := by
  induction slotwise with
  | onOwnership onOwnership => exact onOwnership.composed
  | allocate type => exact composed_allocateStruct type
  | release slot => exact composed_release slot
  | bind _ _ first second => exact first.after second

/-! ## Expressions -/

theorem begins_storeInto (lower : Option Ty → Emit (Code × Value)) (type : Ty) (target : Address)
    (span : Span) : Begins (lower (some type)) (storeInto type target span lower) := by
  unfold storeInto
  split
  · refine .first .here fun result => ?_
    dsimp only
    split
    · exact .pure _
    · refine (onOwnership_expectStruct _ _ _).composed.after fun actual => ?_
      exact (slotwise_moveInto _ _ _).composed.after fun _ => .pure _
  · refine .first .here fun result => ?_
    exact (onOwnership_expectScalar _ _ _).composed.after fun _ => .pure _

/-! ## Arms -/

theorem composed_dropArm (value : Value) : Composed [] (dropArm value) := by
  unfold dropArm
  split
  · exact .pure _
  · exact (slotwise_discard value).composed.after fun _ => .pure _

theorem composed_shareSlot (temp : Temporary) (result : ResultSlot) :
    Composed [] (shareSlot temp result) :=
  (Composed.onFrame (Frame.Allocator.eases_makeAlias _ _)).after fun _ => .pure _

theorem composed_settleFirst (value : Value) (slot? : Option ResultSlot) (span : Span) :
    Composed [] (settleFirst value slot? span) := by
  unfold settleFirst
  split
  · refine (slotwise_materialize _ span).composed.after fun made => ?_
    cases slot? with
    | some result => exact (composed_shareSlot _ _).after fun _ => .pure _
    | none => exact .pure _
  · exact .pure _

theorem composed_settleSecond (value : Value) (slot? : Option ResultSlot) (span : Span) :
    Composed [] (settleSecond value slot? span) := by
  unfold settleSecond
  split
  · refine (slotwise_materialize _ span).composed.after fun made => ?_
    cases slot? with
    | some result => exact (composed_shareSlot _ _).after fun _ => .pure _
    | none => exact .fail _ span
  · exact .pure _

/-! ## Statements -/

theorem composed_declareEmpty (span : Span) (name : Ident) (type : Option TypeNote) :
    Composed [] (declareEmpty span name type) := by
  unfold declareEmpty
  split
  · exact .fail _ span
  · refine (onOwnership_resolveType _).composed.after fun type => ?_
    split
    · refine (composed_allocateStruct _).after fun place => ?_
      refine (onOwnership_newValue _ _).composed.after fun node => ?_
      exact .basic (basic_declare _ _)
    · exact .fail _ span

theorem composed_declareValue (span : Span) (name : Ident) (value : Value) (valueSpan : Span) :
    Composed [] (declareValue span name value valueSpan) := by
  unfold declareValue
  split
  · exact .pure _
  · exact .fail _ valueSpan
  · refine (Composed.basic (basic_allocateLocal _)).after fun place => ?_
    exact (Composed.basic (basic_declare _ _)).after fun _ => .pure _
  · refine (slotwise_materialize _ valueSpan).composed.after fun made => ?_
    refine (onOwnership_newValue _ _).composed.after fun node => ?_
    refine (onOwnership_define _ span).composed.after fun _ => ?_
    exact (Composed.basic (basic_declare _ _)).after fun _ => .pure _

theorem composed_lowerResult (value : Value) (span : Span) :
    Composed [] (lowerResult value span) := by
  refine Emit.OnOwnership.read.composed.after fun ctx => ?_
  split
  · exact .pure _
  · exact .pure _
  · exact .fail _ span
  · exact .fail _ span
  · exact .fail _ span
  · refine (onOwnership_expectStruct _ _ span).composed.after fun actual => ?_
    exact (slotwise_moveInto _ _ span).composed
  · exact (onOwnership_expectScalar _ _ span).composed.after fun _ => .pure _

end StructWasm.Lowering

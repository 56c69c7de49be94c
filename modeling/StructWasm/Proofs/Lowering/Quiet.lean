import StructWasm.Proofs.Frame.Onward
import StructWasm.Proofs.Lowering.OwnershipSteps

/-!
# Steps that leave the names alone

Most steps of lowering work on the frame and on ownership only: they leave the
locals, the names in scope and the functions that were asked for as they are, and the
frame goes on. Of these steps, most take slots and give slots back and do nothing else to
the frame.
-/

namespace StructWasm.Lowering

/-- Only the frame and the ownership may differ, and a frame in order goes on. -/
structure Calm (work next : Workspace) : Prop where
  locals_eq : next.locals = work.locals
  scopes_eq : next.scopes = work.scopes
  requests_eq : next.requests = work.requests
  frame : work.frame.Extends next.frame
  onward : work.frame.Proper → work.frame.Onward next.frame

theorem Calm.trans (first : Calm work mid) (second : Calm mid next) : Calm work next :=
  ⟨second.locals_eq.trans first.locals_eq, second.scopes_eq.trans first.scopes_eq,
    second.requests_eq.trans first.requests_eq, first.frame.trans second.frame,
    fun proper => (first.onward proper).trans (second.onward (first.onward proper).proper)⟩

/-- A step that takes slots and gives slots back at most. -/
def Emit.IsCalm {α : Type} (step : Emit α) : Prop :=
  ∀ ⦃ctx : Context⦄ ⦃work next : Workspace⦄ ⦃value : α⦄,
    Runs step ctx work value next → Calm work next

variable {α β : Type}

variable {step : Emit α}

theorem Emit.OnOwnership.isCalm (onOwnership : Emit.OnOwnership step) : Emit.IsCalm step := by
  intro ctx work next value runs
  obtain ⟨arena, rfl⟩ := onOwnership.keeps runs
  exact ⟨rfl, rfl, rfl, .refl _, .refl⟩

theorem isCalm_bind {rest : α → Emit β} (first : Emit.IsCalm step)
    (second : ∀ value, Emit.IsCalm (rest value)) : Emit.IsCalm (step >>= rest) := by
  intro ctx work next result runs
  obtain ⟨value, mid, firstRuns, secondRuns⟩ := runs.bind
  exact (first firstRuns).trans (second value secondRuns)

theorem isCalm_allocateStruct (type : Ty) : Emit.IsCalm (allocateStruct type) := by
  rintro ctx work next ⟨slot, address⟩ runs
  obtain ⟨frame, alloc, -, rfl⟩ := runs_allocateStruct.mp runs
  exact ⟨rfl, rfl, rfl, Frame.Allocator.extends_allocate alloc, fun proper =>
    proper.onward_allocate alloc⟩

theorem isCalm_release (slot : Frame.Allocation) : Emit.IsCalm (release slot) := by
  intro ctx work next _ runs
  rcases runs_release.mp runs with ⟨-, frame, freed, rfl⟩ | ⟨-, rfl⟩
  · exact ⟨rfl, rfl, rfl, Frame.Allocator.extends_free freed, fun proper =>
      proper.onward_free freed⟩
  · exact ⟨rfl, rfl, rfl, .refl _, .refl⟩

theorem isCalm_forM_release (slots : List Frame.Allocation) : Emit.IsCalm (slots.forM release) := by
  induction slots with
  | nil => exact (Emit.OnOwnership.pure ()).isCalm
  | cons slot rest ih =>
    unfold List.forM
    exact isCalm_bind (isCalm_release slot) fun _ => ih

/-! ## Steps on slots -/

/-- A step that works on ownership, takes slots and gives slots back. -/
inductive Emit.Slotwise : {α : Type} → Emit α → Prop where
  | onOwnership {α : Type} {step : Emit α} (onOwnership : step.OnOwnership) : Slotwise step
  | allocate (type : Ty) : Slotwise (allocateStruct type)
  | release (slot : Frame.Allocation) : Slotwise (release slot)
  | bind {α β : Type} {step : Emit α} {rest : α → Emit β} (first : Slotwise step)
      (second : ∀ value, Slotwise (rest value)) : Slotwise (step >>= rest)

theorem Emit.Slotwise.isCalm (slotwise : step.Slotwise) : step.IsCalm := by
  induction slotwise with
  | onOwnership onOwnership => exact onOwnership.isCalm
  | allocate type => exact isCalm_allocateStruct type
  | release slot => exact isCalm_release slot
  | bind _ _ first second => exact isCalm_bind first second

protected theorem Emit.Slotwise.pure (value : α) : Emit.Slotwise (pure value) :=
  .onOwnership (.pure value)

theorem slotwise_moveInto (value : StructValue) (target : Address) (span : Span) :
    Emit.Slotwise (moveInto value target span) := by
  refine .bind (.onOwnership (onOwnership_take value span)) fun slot? => ?_
  refine .bind (.onOwnership (onOwnership_copyStruct _ _ _)) fun code => ?_
  cases slot? with
  | none => exact .pure _
  | some slot => exact .bind (.release slot) fun _ => .pure _

theorem slotwise_materialize (value : StructValue) (span : Span) :
    Emit.Slotwise (materialize value span) := by
  unfold materialize
  split
  · exact .pure _
  · refine .bind (.allocate _) fun place => ?_
    exact .bind (slotwise_moveInto _ _ span) fun _ => .pure _

theorem slotwise_discard (value : Value) : Emit.Slotwise (discard value) := by
  unfold discard
  split
  · exact .pure _
  · exact .bind (.release _) fun _ => .pure _
  · exact .pure _

theorem slotwise_resultSlot (sig : Signature) : Emit.Slotwise (resultSlot sig) := by
  unfold resultSlot
  split
  · exact .pure _
  · split
    · exact .bind (.allocate _) fun _ => .pure _
    · exact .pure _

theorem slotwise_readField (object : Value) (objectSpan : Span) (field : Ident) (span : Span) :
    Emit.Slotwise (readField object objectSpan field span) := by
  refine .bind (.onOwnership .read) fun ctx => ?_
  dsimp only
  split
  · split
    · exact .onOwnership (.fail _ field.span)
    · refine .bind (.onOwnership (.check (failsPlainly_advance _ _))) fun address => ?_
      split
      · refine .bind (.onOwnership (onOwnership_fieldNode _ _ _)) fun child => ?_
        split
        · exact .pure _
        · exact .bind (.onOwnership (onOwnership_checkComplete _ span)) fun _ => .pure _
      · split
        · refine .bind (.allocate _) fun place => ?_
          refine .bind (.onOwnership (onOwnership_copyStruct _ _ _)) fun code => ?_
          exact .bind (.release _) fun _ => .pure _
        · exact .bind (.release _) fun _ => .pure _
  · exact .onOwnership (.fail _ objectSpan)

theorem slotwise_choiceSlot (predicted : Option Ty) : Emit.Slotwise (choiceSlot predicted) := by
  unfold choiceSlot
  split
  · split
    · exact .bind (.allocate _) fun _ => .pure _
    · exact .pure _
  · exact .pure _

theorem slotwise_releaseUnused (slot? : Option ResultSlot) (value : Value) :
    Emit.Slotwise (releaseUnused slot? value) := by
  unfold releaseUnused
  split
  · exact .pure _
  · exact .release _
  · exact .pure _

end StructWasm.Lowering

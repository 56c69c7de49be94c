import StructWasm.Proofs.Lowering.Calls
import StructWasm.Proofs.Lowering.ScopeCustody

/-!
# Choices whose arms do not fit

The structures that the arms of a choice give share one slot. That fails if their
sizes differ, and the second arm cannot be finished if an empty structure is left
in it: a slot without bytes is never given back. Nothing else about a choice is
refused by the frame.
-/

namespace StructWasm.Lowering

open List

variable {ctx : Context} {origin work next : Workspace} {reason : Prop}

/-- The ways in which the arms of a choice do not fit. The premises are the steps
until that shows. -/
inductive Misfit (ctx : Context) (choice : Choice) (want : Option Ty)
    (work : Workspace) : Prop where
  /-- The first arm gives a structure whose size is not that of the result. -/
  | first
      {entry : ChoiceEntry} {held : StructValue} {temporary : Temporary} {result : ResultSlot}
      {code moveCode : Code} {entered lowered moved : Workspace}
      (enters : Runs (enterChoice choice want) ctx work entry entered)
      (lowers : Runs (lowerFirst choice entry) ctx entered (code, .struct held) lowered)
      (moves : Runs (materialize held choice.thenBlock.span) ctx lowered
        (moveCode, temporary) moved)
      (slot_eq : entry.slot? = some result)
      (differ : temporary.slot.size ≠ result.1.size)
  /-- The second arm gives a structure whose size is not that of the result. -/
  | second
      {entry : ChoiceEntry} {arm : FirstArm} {held : StructValue} {temporary : Temporary}
      {result : ResultSlot} {code moveCode : Code} {entered started lowered moved : Workspace}
      (enters : Runs (enterChoice choice want) ctx work entry entered)
      (finishes : Runs (finishFirst choice entry) ctx entered arm started)
      (lowers : Runs (lowerAlternative choice.otherwise entry.predicted) ctx started
        (code, .struct held) lowered)
      (moves : Runs (materialize held choice.span) ctx lowered (moveCode, temporary) moved)
      (slot_eq : arm.slot? = some result)
      (differ : temporary.slot.size ≠ result.1.size)
  /-- The second arm leaves the slot of an empty structure. -/
  | leftover
      {entry : ChoiceEntry} {arm : FirstArm} {value settledValue : Value}
      {code moveCode : Code} {slot : Frame.SlotId} {entered started lowered settled : Workspace}
      (enters : Runs (enterChoice choice want) ctx work entry entered)
      (finishes : Runs (finishFirst choice entry) ctx entered arm started)
      (lowers : Runs (lowerAlternative choice.otherwise entry.predicted) ctx started
        (code, value) lowered)
      (settles : Runs (settleSecond value arm.slot? choice.span) ctx lowered
        (moveCode, settledValue) settled)
      (left : slot ∈ settled.frame.leftovers)
      (empty : (settled.frame.slot slot).size = 0)

/-- Lowering a part comes to a choice whose arms do not fit. -/
def Clash (ctx : Context) (part : Part) (work : Workspace) : Prop :=
  ∃ choice want reached,
    Reaches ctx (part, work) (.choice choice want, reached) ∧
      Misfit ctx choice want reached

theorem Misfit.clash (misfit : Misfit ctx choice want work) :
    Clash ctx (.choice choice want) work :=
  ⟨choice, want, work, .refl, misfit⟩

theorem Calls.clash {part inner} (calls : Calls ctx (part, work) (inner, mid))
    (clash : Clash ctx inner mid) : Clash ctx part work := by
  obtain ⟨choice, want, reached, reaches, misfit⟩ := clash
  exact ⟨choice, want, reached, .head calls reaches, misfit⟩

/-! ## The slot of the result -/

/-- The slot that holds the result of a choice. -/
def resultSlots (slot? : Option ResultSlot) : List Frame.Allocation :=
  (slot?.map Prod.fst).toList

/-- A structure that an arm gives is in the slot of the result. -/
def Value.LiesIn (value : Value) (slot? : Option ResultSlot) : Prop :=
  ∀ held, value = .struct held → ∃ result, slot? = some result ∧ held.slots = [result.1]

theorem meets_choiceSlot (aligned : ctx.layouts.Aligned) (stands : Stands origin work slots)
    (predicted : Option Ty) : Meets ctx work (choiceSlot predicted)
      (fun slot? next => Stands origin next (resultSlots slot? ++ slots)) reason := by
  unfold choiceSlot
  cases predicted with
  | none => exact .pure stands
  | some type =>
    dsimp only
    split
    · refine .bind (meets_allocateStruct aligned stands type) ?_
      exact fun _ _ _ stands => .pure stands
    · exact .pure stands

theorem meets_dropArm (stands : Stands origin work value.slots) :
    Meets ctx work (dropArm value) (fun result next => Stands origin next result.2.slots)
      reason := by
  unfold dropArm
  split
  · exact .pure stands
  · rw [← append_nil value.slots] at stands
    exact .bind (meets_discard stands) fun _ _ _ stands => .pure stands

/-- A temporary can share the slot of the result if the sizes agree. -/
theorem meets_shareSlot (stands : Stands origin work [temp.slot])
    (held : origin.frame.Held result.1) (misfit : temp.slot.size ≠ result.1.size → reason) :
    Meets ctx work (shareSlot temp result)
      (fun value next => Stands origin next [] ∧ value.LiesIn (some result)) reason := by
  have stillHeld := stands.custody.stays held
  have ne : result.1.id ≠ temp.slot.id := by
    have came := stands.custody.came temp.slot mem_cons_self
    exact Nat.ne_of_lt (Nat.lt_of_lt_of_le held.lt_size came)
  have lies : Value.LiesIn
      { temp with address := result.2, slot := result.1 }.value (some result) := by
    rintro _ ⟨⟩
    exact ⟨result, rfl, rfl⟩
  by_cases sameSize : temp.slot.size = result.1.size
  · obtain ⟨frame, shared, custody, -⟩ := stands.custody.share stillHeld ne sameSize
    have shares : Meets ctx work
      (updateFrame fun frame => frame.makeAlias temp.slot.id result.1.id)
        (fun _ next => Stands origin next []) reason :=
      meets_updateFrame shared ⟨custody, stands.leads, stands.scopes⟩
    exact Meets.bind shares fun _ _ _ stands => .pure ⟨stands, lies⟩
  · have refused := Frame.Allocator.makeAlias_of_held stands.proper.recorded.isOpen
      (stands.custody.held _ mem_cons_self) stillHeld ne
    rw [if_neg sameSize] at refused
    constructor
    · intro value next runs
      obtain ⟨_, _, shares, -⟩ := runs.bind
      obtain ⟨frame, shared, -⟩ := runs_updateFrame.mp shares
      cases refused.symm.trans shared
    · exact fun _ _ => misfit sameSize

section Settle

variable (aligned : ctx.layouts.Aligned) {value : Value} {slot? : Option ResultSlot}
  (stands : Stands origin work value.slots)
  (held : ∀ slot ∈ resultSlots slot?, origin.frame.Held slot) {span : Span}
  (misfit : ∀ ⦃actual result made moved⦄, value = .struct actual → slot? = some result →
    Runs (materialize actual span) ctx work made moved → made.2.slot.size ≠ result.1.size → reason)
include aligned stands held misfit

theorem meets_settleFirst : Meets ctx work (settleFirst value slot? span)
      (fun settled next => ∃ new, Stands origin next new ∧
        resultSlots settled.2.2 = resultSlots slot? ++ new ∧ settled.2.1.LiesIn settled.2.2)
      reason := by
  have unchanged : ∀ other : Value, (∀ actual, other ≠ .struct actual) → value = other →
      Meets ctx work (pure (([] : Code), other, slot?))
        (fun settled next => ∃ new, Stands origin next new ∧
          resultSlots settled.2.2 = resultSlots slot? ++ new ∧ settled.2.1.LiesIn settled.2.2)
        reason := by
    rintro other notStruct rfl
    refine .pure ⟨[], ?_, (append_nil _).symm, ?_⟩
    · cases value with
      | struct actual => exact absurd rfl (notStruct actual)
      | scalar type => exact stands
      | nothing => exact stands
      | never => exact stands
    · exact fun actual value_eq => absurd value_eq (notStruct actual)
  unfold settleFirst
  cases value with
  | struct actual =>
    have standsToo : Stands origin work (actual.slots ++ []) := by
      rw [append_nil]
      exact stands
    refine .bind (meets_materialize aligned standsToo span) fun made moved moves stands => ?_
    cases slot? with
    | none =>
      refine .pure ⟨_, stands, rfl, ?_⟩
      rintro _ ⟨⟩
      exact ⟨_, rfl, rfl⟩
    | some result =>
      refine .bind (meets_shareSlot stands (held _ mem_cons_self) (misfit rfl rfl moves)) ?_
      exact fun _ _ _ shared => .pure ⟨[], shared.1, (append_nil _).symm, shared.2⟩
  | scalar type => exact unchanged _ nofun rfl
  | nothing => exact unchanged _ nofun rfl
  | never => exact unchanged _ nofun rfl

theorem meets_settleSecond : Meets ctx work (settleSecond value slot? span)
      (fun settled next => Stands origin next [] ∧ settled.2.LiesIn slot?) reason := by
  unfold settleSecond
  cases value with
  | struct actual =>
    have standsToo : Stands origin work (actual.slots ++ []) := by
      rw [append_nil]
      exact stands
    refine .bind (meets_materialize aligned standsToo span) fun made moved moves stands => ?_
    cases slot? with
    | none => exact .fail _ span
    | some result =>
      refine .bind (meets_shareSlot stands (held _ mem_cons_self) (misfit rfl rfl moves)) ?_
      exact fun _ _ _ shared => .pure shared
  | scalar type => exact .pure ⟨stands, nofun⟩
  | nothing => exact .pure ⟨stands, nofun⟩
  | never => exact .pure ⟨stands, nofun⟩

end Settle
end StructWasm.Lowering

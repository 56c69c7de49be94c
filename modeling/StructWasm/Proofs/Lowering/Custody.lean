import StructWasm.Proofs.Frame.Branched
import StructWasm.Proofs.Layout.Built
import StructWasm.Proofs.Lowering.Quiet
import StructWasm.Proofs.Lowering.Scopes

/-!
# Who holds the slots while a function is lowered

A slot of the frame is held by the value that is in it, as long as nobody has used
the value, and then by a variable. So a step that uses a value can give its slot
back, and the frame never refuses that. For every step it is said which slots are
held after it, and that the frame does not stop it.
-/

namespace StructWasm.Lowering

/-- The slots that a structure value holds. -/
def StructValue.slots (value : StructValue) : List Frame.Allocation :=
  match value.source with
  | .temporary slot => [slot]
  | .variable _ => []

/-- The slots that a value holds. -/
def Value.slots : Value → List Frame.Allocation
  | .struct value => value.slots
  | _ => []

variable {α β : Type} {ctx : Context} {origin work next : Workspace} {reason : Prop}
variable {slots : List Frame.Allocation}

/-- Since a moment some slots came to be held, and names kept their meaning. What was lent
still is. -/
structure Stands (origin work : Workspace) (slots : List Frame.Allocation) : Prop where
  custody : origin.frame.Custody work.frame slots
  leads : origin.arena.Leads work.arena
  scopes : SameScopes (Lending origin.arena work.arena) origin.scopes work.scopes

namespace Stands

theorem refl (proper : work.frame.Proper) : Stands work work [] :=
  ⟨.refl proper, .refl work.arena, .refl work.arena work.scopes⟩

theorem trans (first : Stands origin work slots) (second : Stands work next more) :
    Stands origin next (slots ++ more) :=
  ⟨first.custody.trans second.custody, first.leads.trans second.leads,
    first.scopes.trans second.scopes⟩

theorem perm (stands : Stands origin work slots) (same : slots.Perm more) :
    Stands origin work more :=
  ⟨stands.custody.perm same, stands.leads, stands.scopes⟩

theorem proper (stands : Stands origin work slots) : work.frame.Proper :=
  stands.custody.proper

end Stands

/-! ## What is sure of steps -/

/-- What is sure of a step in a state: what holds when it ends, and the only reason
for which the frame stops it. -/
structure Meets (ctx : Context) (work : Workspace) (step : Emit α)
    (ensures : α → Workspace → Prop) (reason : Prop) : Prop where
  ends : ∀ ⦃value next⦄, Runs step ctx work value next → ensures value next
  stops : ∀ ⦃cause : FrameFault⦄, Stops step ctx work cause.fault → reason

variable {step : Emit α} {rest : α → Emit β} {ensures : α → Workspace → Prop}
variable {eventually : β → Workspace → Prop}

protected theorem Meets.pure (holds : ensures value work) :
    Meets ctx work (pure value) ensures reason where
  ends := fun result next runs => by
    obtain ⟨rfl, rfl⟩ := runs.pure
    exact holds
  stops := fun _ stops => absurd stops not_stops_pure

theorem Meets.bind (first : Meets ctx work step ensures reason)
    (second : ∀ ⦃value mid⦄, Runs step ctx work value mid → ensures value mid →
      Meets ctx mid (rest value) eventually reason) :
    Meets ctx work (step >>= rest) eventually reason where
  ends := fun result next runs => by
    obtain ⟨value, mid, firstRuns, secondRuns⟩ := runs.bind
    exact (second firstRuns (first.ends firstRuns)).ends secondRuns
  stops := fun cause stops => by
    rcases stops_bind.mp stops with stops | ⟨value, mid, runs, stops⟩
    · exact first.stops stops
    · exact (second runs (first.ends runs)).stops stops

theorem Meets.weaken {weaker : Prop} (meets : Meets ctx work step ensures reason)
    (implies : reason → weaker) : Meets ctx work step ensures weaker :=
  ⟨meets.ends, fun _ stops => implies (meets.stops stops)⟩

theorem Meets.ensure {weaker : α → Workspace → Prop} (meets : Meets ctx work step ensures reason)
    (implies : ∀ value next, ensures value next → weaker value next) :
    Meets ctx work step weaker reason :=
  ⟨fun _ _ runs => implies _ _ (meets.ends runs), meets.stops⟩

theorem Emit.OnOwnership.meets (onOwnership : Emit.OnOwnership step)
    (stands : Stands origin work slots) :
    Meets ctx work step (fun _ next => Stands origin next slots) reason where
  ends := fun value next runs => by
    have leads := onOwnership.leads runs
    obtain ⟨arena, rfl⟩ := onOwnership.keeps runs
    exact ⟨stands.custody, stands.leads.trans leads, stands.scopes.later leads⟩
  stops := fun _ stops => (onOwnership.notOfFrame stops).elim

theorem Meets.bindGet {rest : Workspace → Emit α}
    (meets : Meets ctx work (rest work) ensures reason) :
    Meets ctx work (get >>= rest) ensures reason :=
  ⟨fun _ _ runs => meets.ends runs, fun _ stops => meets.stops stops⟩

theorem Meets.bindRead {rest : Context → Emit α}
    (meets : Meets ctx work (rest ctx) ensures reason) :
    Meets ctx work (read >>= rest) ensures reason :=
  ⟨fun _ _ runs => meets.ends runs, fun _ stops => meets.stops stops⟩

protected theorem Meets.fail (mistake : Mistake) (span : Span) :
    Meets ctx work (fail mistake span) ensures reason where
  ends := fun _ _ runs => absurd runs not_runs_fail
  stops := fun cause stops => by cases cause <;> cases stops_fail.mp stops

theorem stops_onFrame {step : Frame.Allocator → Except Frame.Error (Frame.Allocator × α)} :
    Stops (onFrame step) ctx work fault ↔
      ∃ cause, step work.frame = .error cause ∧ .frame cause = fault := by
  unfold onFrame
  cases out : step work.frame with
  | ok result =>
    obtain ⟨frame, value⟩ := result
    simp [out]
  | error cause => simp [out]

theorem stops_updateFrame {step : Frame.Allocator → Except Frame.Error Frame.Allocator} :
    Stops (updateFrame step) ctx work fault ↔
      ∃ cause, step work.frame = .error cause ∧ .frame cause = fault := by
  unfold updateFrame
  rw [stops_onFrame]
  cases out : step work.frame with
  | ok frame => simp [bind, Except.bind]
  | error cause => simp [bind, Except.bind]

theorem meets_updateFrame {step : Frame.Allocator → Except Frame.Error Frame.Allocator}
    (accepted : step work.frame = .ok frame) {ensures : Unit → Workspace → Prop}
    (holds : ensures () { work with frame }) :
    Meets ctx work (updateFrame step) ensures reason where
  ends := fun value next runs => by
    obtain ⟨frame, accepted', rfl⟩ := runs_updateFrame.mp runs
    obtain rfl := Except.ok.inj (accepted.symm.trans accepted')
    exact holds
  stops := fun cause stops => by
    obtain ⟨cause, refused, -⟩ := stops_updateFrame.mp stops
    cases accepted.symm.trans refused

/-! ## Slots -/

theorem meets_allocateStruct (aligned : ctx.layouts.Aligned) (stands : Stands origin work slots)
    (type : Ty) : Meets ctx work (allocateStruct type)
      (fun place next => Stands origin next (place.1 :: slots)) reason where
  ends := fun place next runs => by
    obtain ⟨slot, address⟩ := place
    obtain ⟨frame, alloc, -, rfl⟩ := runs_allocateStruct.mp runs
    obtain ⟨custody, -⟩ := Frame.Allocator.Custody.allocate stands.proper alloc
    exact ⟨(stands.custody.trans custody).perm List.perm_append_comm, stands.leads, stands.scopes⟩
  stops := fun cause stops => by
    have stops := stops_read_bind.mp stops
    simp only [stops_bind, stops_onFrame] at stops
    obtain ⟨refusal, refused, -⟩ | ⟨_, _, -, stops | ⟨_, _, -, stops⟩⟩ := stops
    · unfold Frame.Allocator.allocate Frame.Allocator.ensureOpen at refused
      rw [stands.proper.recorded.isOpen, if_pos (aligned type)] at refused
      cases refused
    · exact ((onOwnership_slotAddress _).notOfFrame stops).elim
    · exact absurd stops not_stops_pure

theorem meets_release (stands : Stands origin work (slot :: slots)) :
    Meets ctx work (release slot) (fun _ next => Stands origin next slots) reason := by
  unfold release
  split
  · rename_i sized
    obtain ⟨frame, freed, custody⟩ := stands.custody.free sized
    exact meets_updateFrame freed ⟨custody, stands.leads, stands.scopes⟩
  · rename_i unsized
    exact .pure
      ⟨stands.custody.forget (Nat.eq_zero_of_not_pos unsized), stands.leads, stands.scopes⟩

theorem meets_forM_release (released : List Frame.Allocation)
    (stands : Stands origin work (released ++ slots)) :
    Meets ctx work (released.forM release) (fun _ next => Stands origin next slots) reason := by
  induction released generalizing work with
  | nil => exact .pure stands
  | cons slot released ih =>
    refine .bind (meets_release stands) ?_
    exact fun _ mid _ stands => ih stands

/-! ## Moving values -/

variable {value : Value}

theorem Value.IsScalar.slots_eq (isScalar : value.IsScalar type) : value.slots = [] := by
  rcases isScalar with rfl | rfl
  · rfl
  · rfl

theorem runs_take {value span} {slot? : Option Frame.Allocation}
    (runs : Runs (take value span) ctx work slot? next) : slot?.toList = value.slots := by
  obtain ⟨type, address, source⟩ := value
  rcases source with slot | node
  · obtain ⟨rfl, -⟩ := runs.pure
    rfl
  · obtain ⟨_, _, rfl⟩ := runs.bindPure
    rfl

theorem meets_moveInto {value} (stands : Stands origin work (value.slots ++ slots))
    (target : Address) (span : Span) :
    Meets ctx work (moveInto value target span) (fun _ next => Stands origin next slots)
      reason := by
  refine .bind ((onOwnership_take value span).meets stands) fun slot? taken takes stands => ?_
  refine .bind ((onOwnership_copyStruct _ _ _).meets stands) fun code _ _ stands => ?_
  rw [← runs_take takes] at stands
  cases slot? with
  | none => exact .pure stands
  | some slot => exact (meets_release stands).bind fun _ _ _ stands => .pure stands

theorem meets_materialize (aligned : ctx.layouts.Aligned) {value}
    (stands : Stands origin work (value.slots ++ slots)) (span : Span) :
    Meets ctx work (materialize value span)
      (fun result next => Stands origin next (result.2.slot :: slots)) reason := by
  obtain ⟨type, address, source⟩ := value
  rcases source with slot | node
  · exact .pure stands
  · refine .bind (meets_allocateStruct aligned stands type) fun place _ _ stands => ?_
    exact .bind (meets_moveInto stands _ span) fun _ _ _ stands => .pure stands

theorem meets_discard (stands : Stands origin work (value.slots ++ slots)) :
    Meets ctx work (discard value) (fun _ next => Stands origin next slots) reason := by
  cases value with
  | scalar type => exact .pure stands
  | struct held =>
    obtain ⟨type, address, source⟩ := held
    rcases source with slot | node
    · exact .bind (meets_release stands) fun _ _ _ stands => .pure stands
    · exact .pure stands
  | nothing => exact .pure stands
  | never => exact .pure stands

/-! ## Expressions -/

theorem meets_resultSlot (aligned : ctx.layouts.Aligned) (stands : Stands origin work slots)
    (sig : Signature) : Meets ctx work (resultSlot sig)
      (fun result? next => Stands origin next ((callValue sig result?).slots ++ slots))
      reason := by
  unfold resultSlot
  split
  · rename_i result_eq
    refine .pure ?_
    unfold callValue
    rw [result_eq]
    exact stands
  · rename_i type result_eq
    split
    · refine .bind (meets_allocateStruct aligned stands type) fun place _ _ stands => ?_
      exact .pure stands
    · refine .pure ?_
      unfold callValue
      rw [result_eq]
      exact stands

theorem meets_passArgument (stands : Stands origin work (value.slots ++ slots)) (type : Ty)
    (span : Span) : Meets ctx work (passArgument value type span)
      (fun passed next => Stands origin next (passed.2 ++ slots)) reason := by
  unfold passArgument
  split
  · split
    · rename_i never
      obtain rfl : value = .never := by
        cases value <;> simp [Value.isNever] at never ⊢
      exact .pure stands
    · refine .bind ((onOwnership_expectStruct value type span).meets stands) ?_
      intro actual _ checks stands
      obtain ⟨rfl, -⟩ := runs_expectStruct checks
      refine .bind ((onOwnership_take actual span).meets stands) ?_
      intro slot? _ takes stands
      refine .pure ?_
      rw [runs_take takes]
      exact stands
  · refine .bind ((onOwnership_expectScalar value type span).meets stands) ?_
    intro _ _ checks stands
    refine .pure ?_
    rw [(runs_expectScalar.mp checks).1.slots_eq] at stands
    exact stands

theorem meets_readField (aligned : ctx.layouts.Aligned)
    (stands : Stands origin work (object.slots ++ slots)) (objectSpan : Span) (field : Ident)
    (span : Span) : Meets ctx work (readField object objectSpan field span)
      (fun part next => Stands origin next (part.2.slots ++ slots)) reason := by
  refine .bindRead ?_
  cases object with
  | struct held =>
    obtain ⟨type, address, source⟩ := held
    dsimp only
    split
    · exact .fail _ field.span
    · rename_i part found
      have advancing := Emit.OnOwnership.check (failsPlainly_advance address part.offset)
      refine .bind (advancing.meets stands) fun address _ _ stands => ?_
      rcases source with slot | node
      · dsimp only
        split
        · refine .bind (meets_allocateStruct aligned stands part.type) ?_
          intro place _ _ stands
          refine .bind ((onOwnership_copyStruct _ _ _).meets stands) fun _ _ _ stands => ?_
          have standsToo := stands.perm (.swap slot place.1 slots)
          exact .bind (meets_release standsToo) fun _ _ _ stands => .pure stands
        · exact .bind (meets_release stands) fun _ _ _ stands => .pure stands
      · refine .bind ((onOwnership_fieldNode node _ _).meets stands) ?_
        intro child _ _ stands
        split
        · exact .pure stands
        · refine .bind ((onOwnership_checkComplete child span).meets stands) ?_
          exact fun _ _ _ stands => .pure stands
  | scalar type => exact .fail _ objectSpan
  | nothing => exact .fail _ objectSpan
  | never => exact .fail _ objectSpan

theorem meets_requestCallee (stands : Stands origin work slots) (name : Ident)
    (argumentCount : Nat) :
    Meets ctx work (requestCallee name argumentCount) (fun _ next => Stands origin next slots)
      reason where
  ends := fun sig next runs => by
    obtain ⟨-, -, rfl⟩ := runs_requestCallee runs
    exact ⟨stands.custody, stands.leads, stands.scopes⟩
  stops := fun cause stops => by
    replace stops := stops_read_bind.mp stops
    split at stops
    · cases cause <;> cases stops_fail.mp stops
    · cases cause <;> cases stops_throw.mp stops
    · rcases stops_bind.mp stops with stops | ⟨_, _, -, stops⟩
      · exact absurd stops not_stops_modify
      split at stops
      · exact absurd stops not_stops_pure
      · cases cause <;> cases stops_fail.mp stops

theorem meets_storeInto {lower : Option Ty → Emit (Code × Value)}
    (lowers : Meets ctx work (lower (some type))
      (fun result next => Stands origin next (result.2.slots ++ slots)) reason) (target : Address)
    (span : Span) :
    Meets ctx work (storeInto type target span lower) (fun _ next => Stands origin next slots)
      reason := by
  unfold storeInto
  split
  · refine Meets.bind lowers fun result _ _ stands => ?_
    obtain ⟨code, value⟩ := result
    dsimp only
    split
    · rename_i never
      obtain rfl : value = .never := by
        cases value <;> simp [Value.isNever] at never ⊢
      exact .pure stands
    · refine .bind ((onOwnership_expectStruct value type span).meets stands) ?_
      intro actual _ checks stands
      obtain ⟨rfl, -⟩ := runs_expectStruct checks
      exact .bind (meets_moveInto stands target span) fun _ _ _ stands => .pure stands
  · refine Meets.bind lowers fun result _ _ stands => ?_
    refine .bind ((onOwnership_expectScalar result.2 type span).meets stands) ?_
    intro _ _ checks stands
    rw [(runs_expectScalar.mp checks).1.slots_eq] at stands
    exact .pure stands

/-- A value that is handed over as the result gives its slot back. -/
theorem meets_lowerResult (stands : Stands origin work (value.slots ++ slots)) (span : Span) :
    Meets ctx work (lowerResult value span) (fun _ next => Stands origin next slots)
      reason := by
  refine .bindRead ?_
  have handsOver : ∀ type base, Meets ctx work (do
      let actual ← expectStruct value type span
      moveInto actual { base, offset := .fixed 0 } span)
      (fun _ next => Stands origin next slots) reason := by
    intro type base
    refine .bind ((onOwnership_expectStruct value type span).meets stands) ?_
    intro actual _ checks stands
    obtain ⟨rfl, -⟩ := runs_expectStruct checks
    exact meets_moveInto stands _ span
  have stays : ∀ type, Meets ctx work (do
      expectScalar value type span
      return ([] : Code)) (fun _ next => Stands origin next slots) reason := by
    intro type
    refine .bind ((onOwnership_expectScalar value type span).meets stands) ?_
    intro _ _ checks stands
    rw [(runs_expectScalar.mp checks).1.slots_eq] at stands
    exact .pure stands
  cases ctx.result <;> cases value
  case nothing.nothing => exact .pure stands
  case nothing.never => exact .pure stands
  case nothing.scalar => exact .fail _ span
  case nothing.struct => exact .fail _ span
  case scalar.nothing => exact .fail _ span
  case scalar.never => exact .pure stands
  case scalar.scalar => exact stays _
  case scalar.struct => exact stays _
  case struct.nothing => exact .fail _ span
  case struct.never => exact .pure stands
  case struct.scalar => exact handsOver _ _
  case struct.struct => exact handsOver _ _

/-! ## Copies of ownership -/

section

variable (stands : Stands origin work slots)
include stands

theorem meets_fork (loan : Option Ownership.Loan) : Meets ctx work (fork loan)
      (fun saved next => saved = work.scopes ∧ next.frame = work.frame ∧
        Stands origin next slots) reason where
  ends := fun saved next runs => by
    obtain ⟨rfl, rfl⟩ := runs_fork.mp runs
    exact ⟨rfl, rfl, stands.custody, stands.leads.trans (leads_forkedScopes _ _ _),
      stands.scopes.trans (lending_forkedScopes _ _ _)⟩
  stops := fun _ stops => absurd stops (not_stops_of_ok rfl)

theorem meets_joinOptional
    (same : SameScopes (Lending origin.arena work.arena) origin.scopes saved) :
    Meets ctx work (joinOptional saved) (fun _ next => Stands origin next slots) reason where
  ends := fun _ next runs => by
    obtain rfl := runs_joinOptional.mp runs
    have leads := leads_infused (nodesOf saved) (nodesOf work.scopes) work.arena
    exact ⟨stands.custody, stands.leads.trans leads, same.later leads⟩
  stops := fun cause stops => by simp [joinOptional, infuseAll, restoreScopes] at stops

theorem meets_joinArms
    (firstSame : SameScopes (Lending origin.arena work.arena) origin.scopes first)
    (secondSame : SameScopes (Lending origin.arena work.arena) origin.scopes second)
    (firstNever secondNever : Bool) : Meets ctx work (joinArms first second firstNever secondNever)
      (fun _ next => Stands origin next slots) reason where
  ends := fun _ next runs => by
    obtain rfl := runs_joinArms.mp runs
    unfold joinedArms
    split
    · exact ⟨stands.custody, stands.leads, secondSame⟩
    · split
      · have leads := leads_infused (nodesOf first) (nodesOf second) work.arena
        exact ⟨stands.custody, stands.leads.trans leads, firstSame.later leads⟩
      · exact ⟨stands.custody, stands.leads, firstSame⟩
  stops := fun cause stops => by
    unfold joinArms at stops
    cases firstNever <;> cases secondNever <;> simp [infuseAll, restoreScopes] at stops

end

end StructWasm.Lowering

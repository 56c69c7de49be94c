import StructWasm.Proofs.Lowering.MisfitFaults
import StructWasm.Proofs.Lowering.Stack

/-!
# Frames of functions

The parameters of a function need no slots, so its body starts with an empty frame.
The frame of a function that is accepted is in order, and every number of it is known
once it is laid out. A frame refuses a function because it is too large, or because
lowering comes to a choice whose arms do not fit.
-/

namespace StructWasm.Lowering

variable {ctx : Context} {work next : Workspace} {frame : Frame.Allocator}
variable {decl : FunctionDecl} {sig : Signature}

/-! ## Parameters -/

section Params

variable {slots : List Frame.Allocation} (frame_eq : work.frame = frame)
  (slots_eq : slotsOf work.scopes.flatten = slots)
include frame_eq slots_eq

theorem Emit.OnOwnership.keepsHeld {α : Type} {step : Emit α}
    (onOwnership : Emit.OnOwnership step) : Meets ctx work step
      (fun _ next => next.frame = frame ∧ slotsOf next.scopes.flatten = slots) reason where
  ends := fun value next runs => by
    obtain ⟨arena, rfl⟩ := onOwnership.keeps runs
    exact ⟨frame_eq, slots_eq⟩
  stops := fun _ stops => (onOwnership.notOfFrame stops).elim

theorem keepsHeld_declare (name : String) (holdsNone : binding.slots = []) :
    Meets ctx work (declare name binding)
      (fun _ next => next.frame = frame ∧ slotsOf next.scopes.flatten = slots) reason where
  ends := fun _ _ runs => by
    obtain rfl := runs_declare.mp runs
    refine ⟨frame_eq, ?_⟩
    cases scopes_eq : work.scopes with
    | nil => rw [← slots_eq, scopes_eq, enter]
    | cons scope outer =>
      rw [← slots_eq, scopes_eq, enter, List.flatten_cons, List.cons_append, slotsOf_cons,
        holdsNone, List.nil_append, List.flatten_cons]
  stops := fun _ stops => absurd stops not_stops_modify

theorem keepsHeld_bindParams (params : List (String × Ty)) (pos : Nat) (span : Span) :
    Meets ctx work (bindParams pos span params)
      (fun _ next => next.frame = frame ∧ slotsOf next.scopes.flatten = slots) reason := by
  induction params generalizing pos work with
  | nil => exact .pure ⟨frame_eq, slots_eq⟩
  | cons param rest ih =>
    obtain ⟨name, type⟩ := param
    unfold bindParams
    dsimp only
    split
    · refine .bind ((onOwnership_newValue name type).keepsHeld frame_eq slots_eq) ?_
      rintro node _ _ ⟨frame_eq, slots_eq⟩
      refine .bind ((onOwnership_define node span).keepsHeld frame_eq slots_eq) ?_
      rintro _ _ _ ⟨frame_eq, slots_eq⟩
      refine .bind (keepsHeld_declare frame_eq slots_eq name rfl) ?_
      exact fun _ _ _ kept => ih kept.1 kept.2 (pos + 1)
    · refine .bind (keepsHeld_declare frame_eq slots_eq name rfl) ?_
      exact fun _ _ _ kept => ih kept.1 kept.2 (pos + 1)

end Params

theorem keepsFrame_bindParams (params : List (String × Ty)) (pos : Nat) (span : Span)
    (frame_eq : work.frame = frame) :
    Meets ctx work (bindParams pos span params) (fun _ next => next.frame = frame) reason :=
  (keepsHeld_bindParams frame_eq rfl params pos span).ensure fun _ _ kept => kept.1

/-! ## Functions that are accepted -/

theorem DeclarationRun.isOk_base (run : DeclarationRun ctx decl sig work next body)
    (proper : next.frame.Proper) (within : number.Within next.frame)
    (functionIndex : String → Except Fault Nat) (globalIndex : GlobalName → Nat) :
    ((body.resolver functionIndex globalIndex).base number).isOk = true := by
  have known : (body.frameNumber number).value?.isSome = true := by
    cases number with
    | slot id =>
      obtain ⟨start, -, start_eq, -⟩ := proper.exists_offset? run.resolves within
      exact Option.isSome_of_eq_some start_eq
    | size =>
      obtain ⟨size, size_eq, -⟩ :=
        Frame.Allocator.exists_frameSize_of_resolve proper.recorded.isOpen run.resolves
      exact Option.isSome_of_eq_some size_eq
  obtain ⟨value, value_eq⟩ := Option.isSome_iff_exists.mp known
  change ((body.frameNumber number).get.mapError Fault.deferred).isOk = true
  rw [Deferred.get, value_eq]
  rfl

/-! ## Functions that are refused -/

/-- Lowering a function comes to a choice whose arms do not fit. -/
def Clashes (ctx : Context) (work : Workspace) (decl : FunctionDecl) (sig : Signature) : Prop :=
  ∃ bound, Runs (bindParams (firstParam sig) decl.span (paramsOf decl sig)) ctx
      work () bound ∧
    Clash ctx (.block decl.body sig.result) bound

/-- The frame stops lowering a function that is too large, or that has a choice whose
arms do not fit. -/
theorem clashes_of_stops (aligned : ctx.layouts.Aligned) (proper : work.frame.Proper)
    {cause : FrameFault} (stops : Stops (lowerDeclaration decl sig) ctx work cause.fault) :
    cause = .refused .frameTooLarge ∨ Clashes ctx work decl sig := by
  unfold lowerDeclaration at stops
  replace stops := stops_read_bind.mp stops
  have binding : Meets ctx work (bindParams (firstParam sig) decl.span (paramsOf decl sig))
      (fun _ next => next.frame = work.frame) False := keepsFrame_bindParams _ _ _ rfl
  obtain ⟨_, bound, binds, stops⟩ :=
    (stops_bind.mp stops).resolve_left fun stops => binding.stops stops
  have lowering : Fits ctx bound (.block decl.body sig.result)
      (lowerBlock decl.body sig.result) fun result => result.2.slots :=
    fits_lowerBlock aligned decl.body (binding.ends binds ▸ proper)
  rcases stops_bind.mp stops with stops | ⟨⟨code, value⟩, lowered, lowers, stops⟩
  · exact .inr ⟨bound, binds, lowering.stops stops⟩
  · have stands : Stands bound lowered (value.slots ++ []) := by
      rw [List.append_nil]
      exact lowering.ends lowers
    have giving : Meets ctx lowered (lowerResult value decl.body.span)
        (fun _ next => Stands bound next []) False := meets_lowerResult stands _
    obtain ⟨_, last, _, stops⟩ :=
      (stops_bind.mp stops).resolve_left fun stops => giving.stops stops
    replace stops := stops_get_bind.mp stops
    rcases resolves : last.frame.resolve with ⟨frame, out⟩
    simp only [resolves] at stops
    left
    rcases stops_bind.mp stops with stops | ⟨_, _, -, stops⟩
    · have refused := stops_check.mp stops
      cases out with
      | ok value => cases refused
      | error found =>
        injection refused with same
        cases cause with
        | refused cause =>
          injection same with same
          rw [← same, Frame.Allocator.eq_of_resolve_error resolves]
        | unknown cause => cases same
    · rcases stops_bind.mp stops with stops | ⟨_, _, -, stops⟩
      · have refused := stops_check.mp stops
        unfold LocalPool.finish at refused
        split at refused
        · cases cause <;> cases refused
        · cases refused
      · exact absurd stops not_stops_pure

theorem Clashes.stops (clashes : Clashes ctx work decl sig)
    (aligned : ctx.layouts.Aligned) (proper : work.frame.Proper) : ∃ cause, IsMisfit cause ∧
      Stops (lowerDeclaration decl sig) ctx work (.frame cause) := by
  obtain ⟨bound, binds, clash⟩ := clashes
  have frame_eq := (keepsFrame_bindParams _ _ _ rfl : Meets ctx work _ _ True).ends binds
  rw [← frame_eq] at proper
  obtain ⟨cause, isMisfit, stops⟩ := clash.stops aligned proper
  refine ⟨cause, isMisfit, ?_⟩
  exact stops_after (runs_read.mpr ⟨rfl, rfl⟩) (stops_after binds (Stops.first stops))

end StructWasm.Lowering

import StructWasm.Proofs.Lowering.Steps
import StructWasm.Proofs.Ownership.Incomplete

/-!
# Steps apart from the frame

Most steps of lowering know nothing of the frame and of the functions that were asked
for. They work on ownership through calls, and a fault that stops them says something:
either it is a defect or a limit of the compiler, or it comes with a diagnostic.
-/

namespace StructWasm

/-- A fault that says something. -/
def Fault.Loud : Fault → Prop
  | .semantic errors => errors ≠ []
  | .diagnostics _ => False
  | _ => True

namespace Lowering

open Ownership (Arena)

variable {α β : Type}

/-! ## Operations that fail plainly -/

/-- An operation that fails at a check, a limit or a literal at most. -/
def FailsPlainly (outcome : Except Fault α) : Prop :=
  FailsOnly (fun fault => (∃ cause, fault = .inconsistent cause) ∨
    (∃ cause, fault = .limit cause) ∨ ∃ cause, fault = .literal cause) outcome

theorem FailsPlainly.loud {out : Except Fault α} {fault : Fault} (plain : FailsPlainly out)
    (failed : out = .error fault) : fault.Loud := by
  rcases plain fault failed with ⟨cause, rfl⟩ | ⟨cause, rfl⟩ | ⟨cause, rfl⟩
  all_goals trivial

theorem failsPlainly_plus (offset : Wasm.Offset FrameNumber) (bytes : Nat) :
    FailsPlainly (offset.plus bytes) := by
  refine .bind ?_ fun _ => .pure _
  intro fault failed
  unfold Wasm.Offset.checkedSum at failed
  split at failed
  · cases failed
  · cases failed
    exact .inr (.inl ⟨_, rfl⟩)

theorem failsPlainly_advance (address : Address) (bytes : Nat) :
    FailsPlainly (address.advance bytes) :=
  .bind (failsPlainly_plus address.offset bytes) fun _ => .pure _

theorem failsPlainly_copyLeaf (source target : Address) (leaf : Nat × Wasm.ValType) :
    FailsPlainly (copyLeaf source target leaf) :=
  .bind (failsPlainly_plus _ _) fun _ => .bind (failsPlainly_plus _ _) fun _ => .pure _

theorem failsPlainly_literal (out : Except LiteralError α) :
    FailsPlainly (out.mapError Fault.literal) := by
  intro fault failed
  cases out with
  | ok value => cases failed
  | error error =>
    cases failed
    exact .inr (.inr ⟨_, rfl⟩)

theorem failsPlainly_allocateLocal (pool : LocalPool) (type : Wasm.ValType) :
    FailsPlainly (pool.allocate type) := by
  intro fault failed
  unfold LocalPool.allocate at failed
  split at failed
  · cases failed
    exact .inl ⟨_, rfl⟩
  · split at failed
    · cases failed
    · cases failed

theorem failsPlainly_freeLocal (pool : LocalPool) (place : LocalRef) :
    FailsPlainly (pool.free place) := by
  intro fault failed
  unfold LocalPool.free at failed
  split at failed
  · cases failed
    exact .inl ⟨_, rfl⟩
  · split at failed
    · cases failed
      exact .inl ⟨_, rfl⟩
    · split at failed
      · cases failed
      · cases failed
        exact .inl ⟨_, rfl⟩

/-! ## Basic steps -/

/-- An outcome with another state. -/
def mapState (change : Workspace → Workspace) :
    EStateM.Result Fault Workspace α → EStateM.Result Fault Workspace α
  | .ok value next => .ok value (change next)
  | .error fault next => .error fault (change next)

/-- The same state with another frame and other functions asked for. -/
def Workspace.aside (frame : Frame.Allocator) (requests : List String) (work : Workspace) :
    Workspace :=
  { work with frame, requests }

section
variable (frame : Frame.Allocator) (requests : List String) (work : Workspace)

@[simp] theorem locals_aside : (work.aside frame requests).locals = work.locals := rfl

@[simp] theorem arena_aside : (work.aside frame requests).arena = work.arena := rfl

@[simp] theorem scopes_aside : (work.aside frame requests).scopes = work.scopes := rfl

end

/-- A step that knows nothing of the frame and of the functions that were asked for. It
works on ownership through calls, and stops with a fault that says something. -/
structure Emit.Basic (step : Emit α) : Prop where
  apart : ∀ ctx work frame requests, step ctx (work.aside frame requests) =
    mapState (Workspace.aside frame requests) (step ctx work)
  leads : ∀ ⦃ctx work value next⦄, Runs step ctx work value next →
    work.arena.Leads next.arena
  loud : ∀ ⦃ctx work fault⦄, Stops step ctx work fault → work.arena.Called → fault.Loud

theorem get_bind_apply (rest : Workspace → Emit α) (ctx : Context) (work : Workspace) :
    (get >>= rest) ctx work = rest work ctx work := rfl

theorem read_bind_apply (rest : Context → Emit α) (ctx : Context) (work : Workspace) :
    (read >>= rest) ctx work = rest ctx ctx work := rfl

theorem basic_pure (value : α) : Emit.Basic (pure value) where
  apart := fun _ _ _ _ => rfl
  leads := by
    intro ctx work result next runs
    obtain ⟨-, rfl⟩ := runs.pure
    exact .refl _
  loud := fun _ _ _ stops => absurd stops not_stops_pure

theorem basic_read : Emit.Basic read where
  apart := fun _ _ _ _ => rfl
  leads := by
    intro ctx work result next runs
    obtain ⟨-, rfl⟩ := runs_read.mp runs
    exact .refl _
  loud := fun _ _ _ stops => absurd stops not_stops_read

theorem basic_throw (loud : fault.Loud) : Emit.Basic (throw fault : Emit α) where
  apart := fun _ _ _ _ => rfl
  leads := fun _ _ _ _ runs => absurd runs not_runs_throw
  loud := fun _ _ _ stops _ => stops_throw.mp stops ▸ loud

theorem basic_fail (mistake : Mistake) (span : Span) : Emit.Basic (fail mistake span : Emit α) where
  apart := fun _ _ _ _ => rfl
  leads := fun _ _ _ _ runs => absurd runs not_runs_fail
  loud := by
    intro ctx work fault stops _
    obtain rfl := stops_fail.mp stops
    exact List.cons_ne_nil _ _

theorem basic_check {out : Except Fault α} (plain : FailsPlainly out) : Emit.Basic (check out) where
  apart := by
    intro ctx work frame requests
    cases out <;> rfl
  leads := by
    intro ctx work result next runs
    obtain ⟨-, rfl⟩ := runs_check.mp runs
    exact .refl _
  loud := fun _ _ _ stops _ => plain.loud (stops_check.mp stops)

theorem basic_modify {change : Workspace → Workspace} (apart : ∀ work frame requests,
      change (work.aside frame requests) = (change work).aside frame requests)
    (leads : ∀ work : Workspace, work.arena.Leads (change work).arena) :
    Emit.Basic (modify change) where
  apart := fun _ work frame requests =>
    congrArg (EStateM.Result.ok PUnit.unit) (apart work frame requests)
  leads := by
    intro ctx work result next runs
    obtain rfl := runs_modify.mp runs
    exact leads work
  loud := fun _ _ _ stops => absurd stops not_stops_modify

theorem basic_bind {rest : α → Emit β} (first : Emit.Basic step)
    (second : ∀ value, Emit.Basic (rest value)) : Emit.Basic (step >>= rest) where
  apart := by
    intro ctx work frame requests
    change EStateM.bind (step.run ctx) _ _ = mapState _ (EStateM.bind (step.run ctx) _ _)
    unfold EStateM.bind
    rw [show step.run ctx (work.aside frame requests) = _ from
      first.apart ctx work frame requests]
    cases ended : step ctx work with
    | ok value mid =>
      rw [show step.run ctx work = .ok value mid from ended]
      exact (second value).apart ctx mid frame requests
    | error fault mid => rw [show step.run ctx work = .error fault mid from ended]; rfl
  leads := by
    intro ctx work result next runs
    obtain ⟨value, mid, firstRuns, secondRuns⟩ := runs.bind
    exact (first.leads firstRuns).trans ((second value).leads secondRuns)
  loud := by
    intro ctx work fault stops called
    rcases stops_bind.mp stops with stops | ⟨value, mid, runs, stops⟩
    · exact first.loud stops called
    · exact (second value).loud stops (called.trans (first.leads runs))

theorem basic_look {rest : Workspace → Emit α}
    (blind : ∀ work frame requests, rest (work.aside frame requests) = rest work)
    (each : ∀ work, Emit.Basic (rest work)) : Emit.Basic (get >>= rest) where
  apart := by
    intro ctx work frame requests
    rw [get_bind_apply, get_bind_apply, blind]
    exact (each work).apart ctx work frame requests
  leads := by
    intro ctx work result next runs
    replace runs := runs_get_bind.mp runs
    exact (each work).leads runs
  loud := by
    intro ctx work fault stops called
    exact (each work).loud (stops_get_bind.mp stops) called

/-! ## Locals and scopes -/

theorem basic_allocateLocal (type : Wasm.ValType) : Emit.Basic (allocateLocal type) where
  apart := by
    intro ctx work frame requests
    unfold allocateLocal
    simp only [get_bind_apply, locals_aside]
    cases work.locals.allocate type <;> rfl
  leads := by
    intro ctx work result next runs
    obtain ⟨locals, -, rfl⟩ := runs_allocateLocal.mp runs
    exact .refl _
  loud := by
    intro ctx work fault stops _
    exact (failsPlainly_allocateLocal _ _).loud (stops_allocateLocal.mp stops)

theorem basic_freeLocal (place : LocalRef) : Emit.Basic (freeLocal place) where
  apart := by
    intro ctx work frame requests
    unfold freeLocal
    simp only [get_bind_apply, locals_aside]
    cases work.locals.free place <;> rfl
  leads := by
    intro ctx work result next runs
    obtain ⟨locals, -, rfl⟩ := runs_freeLocal.mp runs
    exact .refl _
  loud := by
    intro ctx work fault stops _
    exact (failsPlainly_freeLocal _ _).loud (stops_freeLocal.mp stops)

theorem basic_declare (name : String) (binding : Binding) : Emit.Basic (declare name binding) :=
  basic_modify (fun _ _ _ => rfl) fun _ => .refl _

theorem basic_pushScope : Emit.Basic pushScope :=
  basic_modify (fun _ _ _ => rfl) fun _ => .refl _

theorem basic_restoreScopes (scopes : List Scope) : Emit.Basic (restoreScopes scopes) :=
  basic_modify (fun _ _ _ => rfl) fun _ => .refl _

/-! ## Ownership -/

theorem basic_newValue (name : String) (type : Ty) : Emit.Basic (newValue name type) where
  apart := fun _ _ _ _ => rfl
  leads := by
    intro ctx work result next runs
    obtain ⟨-, rfl⟩ := runs_newValue.mp runs
    exact (Arena.Leads.refl _).call (.newValue name _)
  loud := by
    intro ctx work fault stops
    simp [newValue] at stops

theorem basic_fieldNode (node : Ownership.NodeId) (type : Ty) (field : String) :
    Emit.Basic (fieldNode node type field) where
  apart := by
    intro ctx work frame requests
    unfold fieldNode
    simp only [get_bind_apply, arena_aside]
    rcases work.arena.get? node field with ⟨arena, _ | child⟩ <;> rfl
  leads := by
    intro ctx work result next runs
    obtain ⟨-, rfl⟩ := runs_fieldNode.mp runs
    exact (Arena.Leads.refl _).call (.get node field)
  loud := by
    intro ctx work fault stops _
    replace stops := stops_get_bind.mp stops
    split at stops
    · simp at stops
    · obtain rfl := stops_throw.mp stops
      trivial

theorem basic_checkComplete (node : Ownership.NodeId) (span : Span) :
    Emit.Basic (checkComplete node span) where
  apart := by
    intro ctx work frame requests
    unfold checkComplete
    change (if work.arena.isComposable node then pure () else _ : Emit Unit) ctx _ =
      mapState _ ((if work.arena.isComposable node then pure () else _ : Emit Unit) ctx work)
    split <;> rfl
  leads := by
    intro ctx work result next runs
    obtain ⟨-, rfl⟩ := runs_checkComplete.mp runs
    exact .refl _
  loud := by
    intro ctx work fault stops called
    simp only [checkComplete, stops_get_bind] at stops
    split at stops
    · exact absurd stops not_stops_pure
    · rename_i incomplete
      obtain rfl := stops_throw.mp (stops_read_bind.mp stops)
      have gap := called.gaps_ne_nil (Bool.eq_false_iff.mpr incomplete)
      simpa [Fault.Loud] using gap

theorem basic_onArena {step : Arena → Except Ownership.Error Arena}
    (leads : ∀ {arena next : Arena}, step arena = .ok next → arena.Leads next) (span : Span) :
    Emit.Basic (onArena span step) where
  apart := by
    intro ctx work frame requests
    unfold onArena
    simp only [get_bind_apply, arena_aside]
    cases step work.arena <;> rfl
  leads := by
    intro ctx work result next runs
    obtain ⟨arena, stepped, rfl⟩ := runs_onArena.mp runs
    exact leads stepped
  loud := by
    intro ctx work fault stops _
    replace stops := stops_get_bind.mp stops
    split at stops
    · exact absurd stops not_stops_set
    · obtain rfl := stops_fail.mp stops
      exact List.cons_ne_nil _ _

theorem basic_markConsumed (node : Ownership.NodeId) (span : Span) :
    Emit.Basic (onArena span fun arena => arena.markConsumed node span) := by
  refine basic_onArena ?_ span
  intro arena next marked
  have calling := (Arena.Leads.refl arena).call (.markConsumed node span)
  rwa [Arena.call, marked] at calling

theorem basic_define (node : Ownership.NodeId) (span : Span) : Emit.Basic (define node span) := by
  refine basic_onArena ?_ span
  intro arena next marked
  have calling := (Arena.Leads.refl arena).call (.markDefined node)
  rwa [Arena.call, marked] at calling

theorem leads_infused (targets branches : List Ownership.NodeId) (arena : Arena) :
    arena.Leads (infused targets branches arena) := by
  unfold infused
  generalize targets.zip branches = pairs
  induction pairs generalizing arena with
  | nil => exact .refl _
  | cons pair pairs ih =>
    exact ((Arena.Leads.refl arena).call (.infuse pair.1 pair.2)).trans (ih _)

theorem basic_infuseAll (targets branches : List Ownership.NodeId) :
    Emit.Basic (infuseAll targets branches) :=
  basic_modify (fun _ _ _ => rfl) fun work =>
    leads_infused targets branches work.arena

end Lowering
end StructWasm

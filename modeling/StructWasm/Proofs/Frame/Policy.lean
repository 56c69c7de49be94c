import StructWasm.Proofs.Frame.Recorded

/-!
# The policy on freed slots

The policy matters only when a slot without bytes is freed. As long as that does not
happen under the strict policy, an allocator does what it does under the lenient one.
-/

namespace StructWasm.Frame.Allocator

/-- The same allocator under the lenient policy. -/
def eased (frame : Allocator) : Allocator :=
  { frame with policy := .lenient }

/-- A call that does the same under both policies, unless the strict one forbids it. -/
def Eases {α : Type} (step : Allocator → Except Error (Allocator × α)) : Prop :=
  ∀ frame, (∃ id reason, step frame = .error (.strictFree id reason)) ∨
    step frame.eased = (step frame).map fun result => (result.1.eased, result.2)

@[simp] theorem slot_eased (frame : Allocator) (id : SlotId) :
    frame.eased.slot id = frame.slot id := rfl

@[simp] theorem ensureOpen_eased (frame : Allocator) :
    frame.eased.ensureOpen = frame.ensureOpen := rfl

@[simp] theorem parentOf_eased (frame : Allocator) (id : CheckpointId) :
    frame.eased.parentOf id = frame.parentOf id := rfl

theorem foldl_modifySlot_eased (change : Slot → Slot) (ids : List SlotId) (frame : Allocator) :
    ids.foldl (fun frame id => frame.modifySlot id change) frame.eased =
      (ids.foldl (fun frame id => frame.modifySlot id change) frame).eased := by
  induction ids generalizing frame with
  | nil => rfl
  | cons id ids ih => exact ih (frame.modifySlot id change)

variable {step : Allocator → Except Error Allocator}

theorem eases_of_eq (same : ∀ frame, step frame.eased = (step frame).map eased) :
    Eases fun frame => do return (← step frame, ()) := by
  refine fun frame => .inr ?_
  simp only [same]
  cases step frame <;> rfl

theorem eases_allocate (size alignment : Nat) :
    Eases fun frame => frame.allocate size alignment := by
  refine fun frame => .inr ?_
  simp only [allocate, ensureOpen_eased]
  cases frame.ensureOpen with
  | error fault => rfl
  | ok _ =>
    by_cases powerOfTwo : alignment.isPowerOfTwo
    · simp only [powerOfTwo]
      rfl
    · simp only [powerOfTwo]
      rfl

theorem eases_free (id : SlotId) : Eases fun frame => do return (← frame.free id, ()) := by
  intro frame
  simp only [free, ensureOpen_eased, show frame.eased.noBytes? id = frame.noBytes? id from rfl]
  cases frame.ensureOpen with
  | error fault => exact .inr rfl
  | ok _ =>
    cases frame.noBytes? id with
    | some reason =>
      cases policy_eq : frame.policy with
      | strict => exact .inl ⟨id, reason, rfl⟩
      | lenient => exact .inr rfl
    | none =>
      refine .inr ?_
      by_cases inUse : (frame.slot id).inUse
      · simp only [slot_eased, inUse]
        rfl
      · simp only [slot_eased, inUse]
        rfl

theorem eases_checkpoint : Eases checkpoint := by
  refine fun frame => .inr ?_
  simp only [checkpoint, ensureOpen_eased]
  cases frame.ensureOpen <;> rfl

theorem eases_rewind (id : CheckpointId) :
    Eases fun frame => do return (← frame.rewind id, ()) := by
  refine eases_of_eq fun frame => ?_
  simp only [rewind, ensureOpen_eased, parentOf_eased]
  cases frame.ensureOpen with
  | error fault => rfl
  | ok _ =>
    cases frame.parentOf id with
    | error fault => rfl
    | ok around =>
      dsimp only [bind, Except.bind]
      by_cases first : frame.active.rewinds = 0
      · rw [if_pos first, if_pos (show frame.eased.active.rewinds = 0 from first),
          foldl_modifySlot_eased]
        rfl
      · rw [if_neg first, if_neg (show frame.eased.active.rewinds ≠ 0 from first)]
        simp only [show frame.eased.active.locals.filter frame.eased.ownsBytes = frame.leftovers
          from rfl, show frame.active.locals.filter frame.ownsBytes = frame.leftovers from rfl]
        cases frame.leftovers <;> rfl

theorem eases_restore (id : CheckpointId) :
    Eases fun frame => do return (← frame.restore id, ()) := by
  refine eases_of_eq fun frame => ?_
  simp only [restore, ensureOpen_eased, parentOf_eased]
  cases frame.ensureOpen with
  | error fault => rfl
  | ok _ =>
    cases frame.parentOf id with
    | error fault => rfl
    | ok around =>
      dsimp only [bind, Except.bind]
      change (if frame.active.rewinds = 0 || !frame.active.locals.isEmpty then _ else _) = _
      split <;> rfl

theorem eases_makeAlias (id target : SlotId) :
    Eases fun frame => do return (← frame.makeAlias id target, ()) := by
  refine eases_of_eq fun frame => ?_
  rw [makeAlias_eq, makeAlias_eq]
  repeat' split
  all_goals first | rfl | contradiction

theorem resolve_eased (frame : Allocator) :
    frame.eased.resolve = (frame.resolve.1.eased, frame.resolve.2) := by
  simp only [resolve, show frame.eased.resolved = frame.resolved from rfl, show frame.eased.slots =
    frame.slots from rfl, show frame.eased.timeline = frame.timeline from rfl, show
    frame.eased.frameAlignment = frame.frameAlignment from rfl]
  split
  · rfl
  · rcases replay frame.slots .empty frame.timeline with ⟨slots, fault | free⟩
    · rfl
    · dsimp only
      cases alignUp free.top frame.frameAlignment <;> rfl

end StructWasm.Frame.Allocator

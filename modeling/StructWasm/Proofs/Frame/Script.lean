import StructWasm.Frame.Allocator
import StructWasm.Proofs.Outcome

/-!
# Scripts of allocator calls

A script is a list of calls; a call that is refused changes nothing and is
skipped. For every call it is said what the allocator looks like after it, so
that facts about scripts never have to open the calls again.
-/

namespace StructWasm.Frame

/-- A call of the allocator before the frame is laid out. -/
inductive Step where
  | allocate (size alignment : Nat)
  | free (slot : SlotId)
  | checkpoint
  | rewind (checkpoint : CheckpointId)
  | restore (checkpoint : CheckpointId)
  | discard (checkpoint : CheckpointId)
  | makeAlias (slot target : SlotId)
  deriving DecidableEq, Repr

/-- What only the calls that bring a slot or let one share bytes decide. -/
def Slot.form (slot : Slot) : Nat × Nat × Option SlotId :=
  (slot.size, slot.alignment, slot.aliasOf)

/-- Whether a call neither brings a slot nor lets one share bytes. -/
def Step.rearranges : Step → Bool
  | .allocate _ _ | .makeAlias _ _ => false
  | _ => true

namespace Allocator

/-- The allocator after a call. -/
def apply (frame : Allocator) : Step → Except Error Allocator
  | .allocate size alignment => do return (← frame.allocate size alignment).1
  | .free slot => frame.free slot
  | .checkpoint => do return (← frame.checkpoint).1
  | .rewind checkpoint => frame.rewind checkpoint
  | .restore checkpoint => frame.restore checkpoint
  | .discard checkpoint => frame.discard checkpoint
  | .makeAlias slot target => frame.makeAlias slot target

theorem allocate_of_apply {frame next : Allocator} {size}
    (ran : frame.apply (.allocate size alignment) = .ok next) :
    ∃ allocation, frame.allocate size alignment = .ok (next, allocation) := by
  obtain ⟨alloc, allocates, same⟩ := bind_eq_ok.mp ran
  obtain rfl := pure_eq_ok.mp same
  exact ⟨alloc.2, allocates⟩

theorem checkpoint_of_apply {frame next : Allocator}
    (ran : frame.apply .checkpoint = .ok next) : ∃ id, frame.checkpoint = .ok (next, id) := by
  obtain ⟨opened, opens, same⟩ := bind_eq_ok.mp ran
  obtain rfl := pure_eq_ok.mp same
  exact ⟨opened.2, opens⟩

/-- The allocator after a call that is skipped if it is refused. -/
def attempt (frame : Allocator) (step : Step) : Allocator :=
  match frame.apply step with
  | .ok next => next
  | .error _ => frame

/-- The allocator after a script. -/
def run (frame : Allocator) (script : List Step) : Allocator :=
  script.foldl attempt frame

@[simp] theorem run_nil (frame : Allocator) : frame.run [] = frame := rfl

@[simp] theorem run_cons (frame : Allocator) (step : Step) (script : List Step) :
    frame.run (step :: script) = (frame.attempt step).run script := rfl

theorem run_induction {holds : Allocator → Prop} (kept : ∀ {frame next : Allocator} {step : Step},
      holds frame → frame.apply step = .ok next → holds next) (script : List Step) {frame}
    (initially : holds frame) : holds (frame.run script) := by
  induction script generalizing frame with
  | nil => exact initially
  | cons step script ih =>
    apply ih
    unfold attempt
    split
    · rename_i ran
      exact kept initially ran
    · exact initially

/-! ## Slots -/

theorem slot_eq (frame : Allocator) (id : SlotId) :
    frame.slot id = (frame.slots[id]?).getD .absent := by
  simp [slot]

theorem slot_of_size_le {frame : Allocator} {id} (beyond : frame.slots.size ≤ id) :
    frame.slot id = .absent := by
  simp [slot_eq, beyond]

@[simp] theorem size_modifySlot (frame : Allocator) (id : SlotId) (change : Slot → Slot) :
    (frame.modifySlot id change).slots.size = frame.slots.size := by
  simp [modifySlot]

theorem slot_modifySlot (frame : Allocator) (id other : SlotId) (change : Slot → Slot) :
    (frame.modifySlot id change).slot other = if id = other ∧ id < frame.slots.size then
        change (frame.slot other)
      else
        frame.slot other := by
  simp only [slot_eq, modifySlot, Array.getElem?_modify]
  by_cases same : id = other
  · subst same
    by_cases inside : id < frame.slots.size
    · simp [inside]
    · simp [inside]
  · simp [same]

variable {frame next : Allocator} {id : CheckpointId} {α : Type}

theorem slot_modifySlot_of_kept (change : Slot → Slot) (field : Slot → α)
    (kept : ∀ slot, field (change slot) = field slot) (frame : Allocator) (id other : SlotId) :
    field ((frame.modifySlot id change).slot other) = field (frame.slot other) := by
  rw [slot_modifySlot]
  split
  · exact kept _
  · rfl

theorem slot_foldl_modifySlot_of_kept (change : Slot → Slot) (field : Slot → α)
    (kept : ∀ slot, field (change slot) = field slot) (ids : List SlotId) (frame : Allocator)
    (other : SlotId) :
    field ((ids.foldl (fun frame id => frame.modifySlot id change) frame).slot other) =
      field (frame.slot other) := by
  induction ids generalizing frame with
  | nil => rfl
  | cons id ids ih =>
    rw [List.foldl_cons, ih, slot_modifySlot_of_kept change field kept]

@[simp] theorem size_foldl_modifySlot
    (change : Slot → Slot) (ids : List SlotId) (frame : Allocator) :
    (ids.foldl (fun frame id => frame.modifySlot id change) frame).slots.size =
      frame.slots.size := by
  induction ids generalizing frame with
  | nil => rfl
  | cons id ids ih => rw [List.foldl_cons, ih, size_modifySlot]

theorem foldl_modifySlot_eq (change : Slot → Slot) (ids : List SlotId) (frame : Allocator) :
    ids.foldl (fun frame id => frame.modifySlot id change) frame =
      { frame with
        slots := (ids.foldl (fun frame id => frame.modifySlot id change) frame).slots } := by
  induction ids generalizing frame with
  | nil => rfl
  | cons id ids ih =>
    rw [List.foldl_cons, ih]
    rfl

theorem slot_push (frame : Allocator) (slot : Slot) (id : SlotId) :
    { frame with slots := frame.slots.push slot }.slot id =
      if id = frame.slots.size then slot else frame.slot id := by
  simp only [slot_eq, Array.getElem?_push]
  split <;> simp_all

/-! ## What calls do -/

@[simp] theorem ensureOpen_eq_ok (frame : Allocator) :
    frame.ensureOpen = .ok () ↔ frame.resolved = false := by
  unfold ensureOpen
  split <;> simp_all

theorem parentOf_ok (found : frame.parentOf id = .ok (parent, outer)) :
    frame.active.id = id ∧ frame.enclosing = parent :: outer := by
  unfold parentOf at found
  split at found
  · rename_i named
    split at found
    · simp at found
    · rename_i first rest enclosing_eq
      simp only [Except.ok.injEq, Prod.mk.injEq] at found
      exact ⟨named, by rw [enclosing_eq, found.1, found.2]⟩
  · simp at found

/-- A new slot is in use, shares no bytes and belongs to the active checkpoint. -/
theorem allocate_ok {size} (alloc : frame.allocate size alignment = .ok (next, allocation)) :
    frame.resolved = false ∧ alignment.isPowerOfTwo ∧
      allocation = { id := frame.slots.size, size, alignment } ∧ next = { frame with
        slots := frame.slots.push
          { size, alignment, offset := none, inUse := true, aliasOf := none,
            owner := frame.active.id }
        active := { frame.active with
          events := frame.active.events ++ [.allocate frame.slots.size]
          locals := frame.active.locals ++ [frame.slots.size] } } := by
  obtain ⟨_, isOpen, alloc⟩ := bind_eq_ok.mp alloc
  rw [ensureOpen_eq_ok] at isOpen
  split at alloc
  · rename_i powerOfTwo
    simp only [pure_eq_ok, Prod.mk.injEq] at alloc
    exact ⟨isOpen, powerOfTwo, alloc.2.symm, alloc.1.symm⟩
  · simp at alloc

theorem slots_allocate {size} (alloc : frame.allocate size alignment = .ok (next, allocation)) :
    next.slots.size = frame.slots.size + 1 ∧ ∀ id, next.slot id = if id = frame.slots.size then
      { size, alignment, offset := none, inUse := true, aliasOf := none,
        owner := frame.active.id } else frame.slot id := by
  obtain ⟨-, -, -, rfl⟩ := allocate_ok alloc
  exact ⟨Array.size_push _, slot_push frame _⟩

/-- Freeing retires the slot. Only the end of a slot with bytes of its own, which
has to be in use, is recorded. -/
theorem free_ok {id} (freed : frame.free id = .ok next) : frame.resolved = false ∧
      ((frame.noBytes? id).isSome ∧ frame.policy = .lenient ∧ next = frame.retire id ∨
        frame.noBytes? id = none ∧ (frame.slot id).inUse = true ∧
          next = (frame.retire id).record (.free id)) := by
  obtain ⟨_, isOpen, freed⟩ := bind_eq_ok.mp freed
  refine ⟨(ensureOpen_eq_ok frame).mp isOpen, ?_⟩
  split at freed
  · rename_i reason reason_eq
    split at freed
    · simp at freed
    · rename_i policy_eq
      rw [pure_eq_ok] at freed
      exact .inl ⟨by simp [reason_eq], policy_eq, freed.symm⟩
  · rename_i reason_eq
    split at freed
    · rename_i inUse
      rw [pure_eq_ok] at freed
      exact .inr ⟨reason_eq, inUse, freed.symm⟩
    · simp at freed

theorem checkpoint_ok (opened : frame.checkpoint = .ok (next, id)) :
    frame.resolved = false ∧ id = frame.checkpointCount ∧ next = { frame with
        active := .fresh id
        enclosing := frame.active :: frame.enclosing
        checkpointCount := id + 1 } := by
  obtain ⟨_, isOpen, opened⟩ := bind_eq_ok.mp opened
  simp only [pure_eq_ok, Prod.mk.injEq] at opened
  obtain ⟨rfl, rfl⟩ := opened
  exact ⟨(ensureOpen_eq_ok frame).mp isOpen, rfl, rfl⟩

/-- The slots that an arm of the active branch leaves. -/
def leftovers (frame : Allocator) : List SlotId :=
  frame.active.locals.filter frame.ownsBytes

/-- The first arm hands what it leaves to the checkpoint around the branch; a later
arm leaves nothing. -/
theorem rewind_ok (rewound : frame.rewind id = .ok next) : frame.resolved = false ∧ ∃ parent outer,
      frame.active.id = id ∧ frame.enclosing = parent :: outer ∧ (frame.active.rewinds = 0 ∧
            next = { frame.leftovers.foldl
                (fun frame id =>
                  frame.modifySlot id fun slot => { slot with owner := parent.id }) frame with
              active := { frame.active with
                locals := [], rewinds := frame.active.rewinds + 1
                promoted := frame.leftovers }
              enclosing :=
                { parent with locals := parent.locals ++ frame.leftovers } :: outer } ∨
          frame.active.rewinds ≠ 0 ∧ frame.leftovers = [] ∧ next = { frame with
              active := { frame.active with
                locals := [], rewinds := frame.active.rewinds + 1 } }) := by
  obtain ⟨_, isOpen, rewound⟩ := bind_eq_ok.mp rewound
  obtain ⟨⟨parent, outer⟩, parent_eq, rewound⟩ := bind_eq_ok.mp rewound
  obtain ⟨named, enclosing_eq⟩ := parentOf_ok parent_eq
  refine ⟨(ensureOpen_eq_ok frame).mp isOpen, parent, outer, named, enclosing_eq, ?_⟩
  simp only at rewound
  split at rewound
  · rename_i first
    rw [pure_eq_ok] at rewound
    exact .inl ⟨first, rewound.symm⟩
  · rename_i later
    split at rewound
    · rename_i left_eq
      rw [pure_eq_ok] at rewound
      exact .inr ⟨later, left_eq, rewound.symm⟩
    · simp at rewound

theorem size_rewind (rewound : frame.rewind id = .ok next) :
    next.slots.size = frame.slots.size := by
  obtain ⟨-, parent, outer, -, -, ⟨-, rfl⟩ | ⟨-, -, rfl⟩⟩ := rewind_ok rewound
  · exact size_foldl_modifySlot _ _ _
  · rfl

theorem slot_rewind_of_kept (rewound : frame.rewind id = .ok next) (field : Slot → α)
    (kept : ∀ slot owner, field { slot with owner } = field slot) (other : SlotId) :
    field (next.slot other) = field (frame.slot other) := by
  obtain ⟨-, parent, outer, -, -, ⟨-, rfl⟩ | ⟨-, -, rfl⟩⟩ := rewind_ok rewound
  · exact slot_foldl_modifySlot_of_kept (fun slot => { slot with owner := parent.id }) field
      (fun slot => kept slot parent.id) frame.leftovers frame other
  · rfl

theorem restore_ok (restored : frame.restore id = .ok next) :
    frame.resolved = false ∧ ∃ parent outer,
      frame.active.id = id ∧ frame.enclosing = parent :: outer ∧
        frame.active.rewinds ≠ 0 ∧ frame.active.locals = [] ∧ next = { frame with
            active := { parent with events := parent.events ++ frame.active.events }
            enclosing := outer } := by
  obtain ⟨_, isOpen, restored⟩ := bind_eq_ok.mp restored
  obtain ⟨⟨parent, outer⟩, parent_eq, restored⟩ := bind_eq_ok.mp restored
  obtain ⟨named, enclosing_eq⟩ := parentOf_ok parent_eq
  refine ⟨(ensureOpen_eq_ok frame).mp isOpen, parent, outer, named, enclosing_eq, ?_⟩
  simp only at restored
  split at restored
  · simp at restored
  · rename_i settled
    simp only [pure_eq_ok] at restored
    simp only [Bool.or_eq_true, decide_eq_true_eq, Bool.not_eq_true', not_or,
      Bool.not_eq_false, List.isEmpty_iff] at settled
    exact ⟨settled.1, settled.2, restored.symm⟩

theorem discard_ok (discarded : frame.discard id = .ok next) :
    frame.resolved = false ∧ ∃ parent outer,
      frame.active.id = id ∧ frame.enclosing = parent :: outer ∧ next = { frame.active.locals.foldl
            (fun frame id => frame.modifySlot id Slot.retire) frame with
          active := { parent with
            events := parent.events ++ frame.active.promoted.map Event.allocate }
          enclosing := outer } := by
  obtain ⟨_, isOpen, discarded⟩ := bind_eq_ok.mp discarded
  obtain ⟨⟨parent, outer⟩, parent_eq, discarded⟩ := bind_eq_ok.mp discarded
  obtain ⟨named, enclosing_eq⟩ := parentOf_ok parent_eq
  rw [pure_eq_ok] at discarded
  exact ⟨(ensureOpen_eq_ok frame).mp isOpen, parent, outer, named, enclosing_eq, discarded.symm⟩

/-- The allocator after a slot, with all that share its bytes, has come to share
those of a root. -/
def joined (frame : Allocator) (id root : SlotId) : Allocator :=
  ({ frame with slots := frame.slots.map (Slot.redirect id root) }.modifySlot root
    fun owner => { owner with
      alignment := max owner.alignment (frame.slot id).alignment }).modifySlot id
    fun slot => { slot with aliasOf := some root }

/-- What `makeAlias` checks before it joins two classes. -/
theorem makeAlias_eq (frame : Allocator) (id target : SlotId) : frame.makeAlias id target =
      if frame.resolved then .error .alreadyResolved
      else if frame.isAliased id then .error (.alreadyAliased id)
      else if frame.root target = id then .error (.aliasCycle id)
      else if (frame.slot id).size ≠ (frame.slot (frame.root target)).size then
        .error (.aliasSizeMismatch id (frame.slot id).size (frame.root target)
          (frame.slot (frame.root target)).size)
      else .ok (frame.joined id (frame.root target)) := by
  unfold makeAlias ensureOpen
  by_cases isLaidOut : frame.resolved
  · simp [isLaidOut, bind, Except.bind]
  by_cases already : frame.isAliased id
  · simp [isLaidOut, already, bind, Except.bind, throw, throwThe, MonadExceptOf.throw]
  by_cases cycle : frame.root target = id
  · simp [isLaidOut, already, cycle, bind, Except.bind, throw, throwThe, MonadExceptOf.throw]
  by_cases sameSize : (frame.slot id).size = (frame.slot (frame.root target)).size
  · simp only [if_neg isLaidOut, if_neg already, if_neg cycle, if_neg (not_not.mpr sameSize)]
    rfl
  · simp [isLaidOut, already, cycle, sameSize, bind, Except.bind, throw, throwThe,
      MonadExceptOf.throw]

theorem makeAlias_ok {id target} (aliased : frame.makeAlias id target = .ok next) :
    frame.resolved = false ∧ frame.isAliased id = false ∧ frame.root target ≠ id ∧
      (frame.slot id).size = (frame.slot (frame.root target)).size ∧
      next = frame.joined id (frame.root target) := by
  rw [makeAlias_eq] at aliased
  split_ifs at aliased with isLaidOut already cycle misfit
  exact ⟨by simpa using isLaidOut, by simpa using already, cycle, not_not.mp misfit,
    (Except.ok.inj aliased).symm⟩

@[simp] theorem size_joined (frame : Allocator) (id root : SlotId) :
    (frame.joined id root).slots.size = frame.slots.size := by
  simp [joined]

theorem slot_redirected (frame : Allocator) (id root other : SlotId) :
    { frame with slots := frame.slots.map (Slot.redirect id root) }.slot other =
      Slot.redirect id root (frame.slot other) := by
  simp only [slot_eq, Array.getElem?_map]
  cases frame.slots[other]? with
  | none => simp [Slot.redirect, Slot.absent]
  | some slot => rfl

theorem slot_joined_of_kept (field : Slot → α)
    (keptAlias : ∀ slot target, field { slot with aliasOf := target } = field slot)
    (keptAlignment : ∀ slot alignment, field { slot with alignment } = field slot)
    (frame : Allocator) (id root other : SlotId) :
    field ((frame.joined id root).slot other) = field (frame.slot other) := by
  unfold joined
  rw [slot_modifySlot_of_kept _ field (fun slot => keptAlias slot _),
    slot_modifySlot_of_kept _ field (fun slot => keptAlignment slot _), slot_redirected]
  unfold Slot.redirect
  split
  · exact keptAlias _ _
  · rfl

theorem isAliased_joined {id root other} : (frame.joined id root).isAliased other =
      (frame.isAliased other || decide (id = other ∧ id < frame.slots.size)) := by
  have redirected : ∀ slot : Slot,
      (Slot.redirect id root slot).aliasOf.isSome = slot.aliasOf.isSome := by
    intro slot
    unfold Slot.redirect
    split <;> simp_all
  unfold isAliased joined
  rw [slot_modifySlot]
  split
  · rename_i here
    obtain ⟨rfl, inside⟩ : id = other ∧ id < frame.slots.size := by simpa using here
    simp [inside]
  · rename_i elsewhere
    have outside : ¬(id = other ∧ id < frame.slots.size) := by simpa using elsewhere
    rw [slot_modifySlot, slot_redirected]
    split <;> simp [redirected, outside]

/-! ## The record -/

theorem slot_retire (frame : Allocator) (id other : SlotId) : (frame.retire id).slot other =
      if id = other ∧ id < frame.slots.size then
        (frame.slot other).retire
      else
        frame.slot other := by
  exact slot_modifySlot frame id other Slot.retire

@[simp] theorem size_retire (frame : Allocator) (id : SlotId) :
    (frame.retire id).slots.size = frame.slots.size :=
  size_modifySlot frame id Slot.retire

/-! ## What calls keep -/

/-- No call changes more than the slots and the checkpoints, and none is accepted once the
frame is laid out. -/
theorem apply_eq {step : Step} (ran : frame.apply step = .ok next) :
    frame.resolved = false ∧ ∃ slots active enclosing checkpointCount,
      next = { frame with slots, active, enclosing, checkpointCount } := by
  cases step with
  | allocate size alignment =>
    obtain ⟨_, alloc⟩ := allocate_of_apply ran
    obtain ⟨isOpen, -, -, rfl⟩ := allocate_ok alloc
    exact ⟨isOpen, _, _, _, _, rfl⟩
  | free slot =>
    obtain ⟨isOpen, ⟨-, -, rfl⟩ | ⟨-, -, rfl⟩⟩ := free_ok ran
    all_goals exact ⟨isOpen, _, _, _, _, rfl⟩
  | checkpoint =>
    obtain ⟨_, opened⟩ := checkpoint_of_apply ran
    obtain ⟨isOpen, -, rfl⟩ := checkpoint_ok opened
    exact ⟨isOpen, _, _, _, _, rfl⟩
  | rewind mark =>
    obtain ⟨isOpen, _, _, -, -, ⟨-, rfl⟩ | ⟨-, -, rfl⟩⟩ := rewind_ok ran
    · rw [foldl_modifySlot_eq]
      exact ⟨isOpen, _, _, _, _, rfl⟩
    · exact ⟨isOpen, _, _, _, _, rfl⟩
  | restore mark =>
    obtain ⟨isOpen, _, _, -, -, -, -, rfl⟩ := restore_ok ran
    exact ⟨isOpen, _, _, _, _, rfl⟩
  | discard mark =>
    obtain ⟨isOpen, _, _, -, -, rfl⟩ := discard_ok ran
    rw [foldl_modifySlot_eq]
    exact ⟨isOpen, _, _, _, _, rfl⟩
  | makeAlias slot target =>
    obtain ⟨isOpen, -, -, -, rfl⟩ := makeAlias_ok ran
    exact ⟨isOpen, _, _, _, _, rfl⟩

/-- The slots are as they were, but for where they lie, who owns them and whether they are
in use. -/
structure SameSlots (frame next : Allocator) : Prop where
  count_eq : next.slots.size = frame.slots.size
  form_eq : ∀ id, (next.slot id).form = (frame.slot id).form

namespace SameSlots

variable (same : frame.SameSlots next) (id : SlotId)
include same

theorem size_eq : (next.slot id).size = (frame.slot id).size :=
  congrArg Prod.fst (same.form_eq id)

theorem alignment_eq : (next.slot id).alignment = (frame.slot id).alignment :=
  congrArg (fun form => form.2.1) (same.form_eq id)

theorem alias_eq : (next.slot id).aliasOf = (frame.slot id).aliasOf :=
  congrArg (fun form => form.2.2) (same.form_eq id)

end SameSlots

theorem sameSlots_checkpoint (opened : frame.checkpoint = .ok (next, id)) :
    frame.SameSlots next := by
  obtain ⟨-, -, rfl⟩ := checkpoint_ok opened
  exact ⟨rfl, fun _ => rfl⟩

theorem sameSlots_apply {step : Step} (rearranges : step.rearranges = true)
    (ran : frame.apply step = .ok next) : frame.SameSlots next := by
  have changed : ∀ change : Slot → Slot, (∀ slot, (change slot).form = slot.form) →
      ∀ ids : List SlotId,
        frame.SameSlots (ids.foldl (fun frame id => frame.modifySlot id change) frame) :=
    fun change kept ids => ⟨size_foldl_modifySlot change ids frame,
      slot_foldl_modifySlot_of_kept change Slot.form kept ids frame⟩
  have retired := changed Slot.retire fun _ => rfl
  cases step with
  | allocate size alignment => cases rearranges
  | free slot =>
    obtain ⟨-, ⟨-, -, rfl⟩ | ⟨-, -, rfl⟩⟩ := free_ok ran
    all_goals exact ⟨(retired [slot]).count_eq, (retired [slot]).form_eq⟩
  | checkpoint =>
    obtain ⟨_, opened⟩ := checkpoint_of_apply ran
    exact sameSlots_checkpoint opened
  | rewind mark =>
    obtain ⟨-, parent, _, -, -, ⟨-, rfl⟩ | ⟨-, -, rfl⟩⟩ := rewind_ok ran
    · have adopted := changed (fun slot => { slot with owner := parent.id }) (fun _ => rfl)
        frame.leftovers
      exact ⟨adopted.count_eq, adopted.form_eq⟩
    · exact ⟨rfl, fun _ => rfl⟩
  | restore mark =>
    obtain ⟨-, _, _, -, -, -, -, rfl⟩ := restore_ok ran
    exact ⟨rfl, fun _ => rfl⟩
  | discard mark =>
    obtain ⟨-, _, _, -, -, rfl⟩ := discard_ok ran
    exact ⟨(retired _).count_eq, (retired _).form_eq⟩
  | makeAlias slot target => cases rearranges

/-! ## Bytes -/

def HasBytes (frame : Allocator) (id : SlotId) : Prop :=
  0 < (frame.slot id).size

theorem hasBytes_allocate {size} (alloc : frame.allocate size alignment = .ok (next, allocation))
    (positive : 0 < allocation.size) : next.HasBytes allocation.id := by
  have slot_eq := (slots_allocate alloc).2
  obtain ⟨-, -, rfl, -⟩ := allocate_ok alloc
  rwa [HasBytes, slot_eq, if_pos rfl]

end Allocator
end StructWasm.Frame

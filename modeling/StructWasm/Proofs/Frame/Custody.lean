import StructWasm.Proofs.Frame.Recorded
import StructWasm.Proofs.Frame.Rooted

/-!
# Who holds the slots of a frame

Between two moments of a frame slots come and go. Those that came in between and
still hold a value in bytes of their own are in somebody's custody, and nothing
else has changed for those who held slots before. Whoever holds a slot can give it
back or let it share the bytes of another slot of its size.
-/

namespace StructWasm.Frame

open List Nat Allocator Slot Checkpoint Bool

/-- What a slot is to those who hold it: its size, whether it is in use, and
whether it shares the bytes of another. -/
def Slot.standing (slot : Slot) : Nat × Bool × Bool :=
  (slot.size, slot.inUse, slot.aliasOf.isSome)

/-- A checkpoint later on: it may have got slots from a number on. -/
structure Checkpoint.Grows (limit : Nat) (before after : Checkpoint) : Prop where
  id_eq : after.id = before.id
  rewinds_eq : after.rewinds = before.rewinds
  locals : ∀ id ∈ after.locals, id ∈ before.locals ∨ limit ≤ id

theorem Checkpoint.Grows.refl (limit : Nat) (mark : Checkpoint) :
    Checkpoint.Grows limit mark mark :=
  ⟨rfl, rfl, fun _ mem => .inl mem⟩

theorem Checkpoint.Grows.trans {limit later before between after}
    (first : Checkpoint.Grows limit before between)
    (second : Checkpoint.Grows later between after) (limit_le : limit ≤ later) :
    Checkpoint.Grows limit before after where
  id_eq := second.id_eq.trans first.id_eq
  rewinds_eq := second.rewinds_eq.trans first.rewinds_eq
  locals := fun id mem => by
    rcases second.locals id mem with early | late
    · exact first.locals id early
    · exact .inr (le_trans limit_le late)

theorem Checkpoint.grows_without
    (limit : Nat) (mark : Checkpoint) (owner : CheckpointId) (id : SlotId) :
    Checkpoint.Grows limit mark (mark.without owner id) := by
  unfold without
  split
  · exact ⟨rfl, rfl, fun _ mem => .inl (mem_of_mem_erase mem)⟩
  · exact .refl limit mark

namespace Allocator

variable {frame mid next : Allocator}

/-! ## Frames from which no record was discarded -/

/-- Every slot has come and is aligned to a power of two, a slot that went is no alias,
and every alias shares the bytes of a slot of its size that is no alias. -/
structure Proper (frame : Allocator) : Prop where
  recorded : frame.Recorded
  complete : ∀ id < frame.slots.size, Event.allocate id ∈ frame.timeline
  retired : ∀ id, Event.free id ∈ frame.timeline → (frame.slot id).aliasOf = none
  powers : ∀ id, (frame.slot id).alignment.isPowerOfTwo
  rooted : frame.Rooted

namespace Proper

theorem new (policy : FreePolicy) (frameAlignment : Nat) :
    (Allocator.new policy frameAlignment).Proper where
  recorded := .new policy frameAlignment
  complete := fun id inside => by simp [Allocator.new] at inside
  retired := fun id goes => by simp [Allocator.new, timeline, Checkpoint.fresh] at goes
  powers := fun id => ⟨0, by simp [Allocator.new, slot_eq, Slot.absent]⟩
  rooted := .new policy frameAlignment

section

variable (proper : frame.Proper)
include proper

/-- A longer record of slots that share what they shared. -/
theorem of_same_slots (recorded : next.Recorded) (same : frame.SameSlots next)
    (timeline_subset : ∀ event ∈ frame.timeline, event ∈ next.timeline)
    (retired : ∀ id, Event.free id ∈ next.timeline → (frame.slot id).aliasOf = none) :
    next.Proper where
  recorded := recorded
  complete := fun id inside => timeline_subset _ (proper.complete id (same.count_eq ▸ inside))
  retired := fun id goes => (same.alias_eq id).trans (retired id goes)
  powers := fun id => same.alignment_eq id ▸ proper.powers id
  rooted := proper.rooted.of_same_slots same

/-- The record is the same. -/
theorem of_same_timeline (recorded : next.Recorded)
    (same : frame.SameSlots next) (timeline_eq : next.timeline = frame.timeline) : next.Proper :=
  proper.of_same_slots recorded same (fun _ mem => timeline_eq ▸ mem)
    fun other goes => proper.retired other (timeline_eq ▸ goes)

theorem allocate {size alignment}
    (alloc : frame.allocate size alignment = .ok (next, allocation)) : next.Proper := by
  have timeline_eq := timeline_allocate alloc
  have recorded := proper.recorded.allocate alloc
  obtain ⟨-, power, -, next_eq⟩ := allocate_ok alloc
  obtain ⟨size_eq, slot_eq⟩ := slots_allocate alloc
  refine ⟨recorded, ?_, ?_, ?_, proper.rooted.allocate alloc⟩
  · intro id inside
    rw [timeline_eq, mem_append, mem_singleton]
    by_cases old : id < frame.slots.size
    · exact .inl (proper.complete id old)
    · exact .inr (congrArg Event.allocate (Nat.eq_of_lt_succ_of_not_lt (size_eq ▸ inside) old))
  · intro id goes
    rw [slot_eq]
    split
    · rfl
    · exact proper.retired id (by simpa [timeline_eq] using goes)
  · intro id
    rw [slot_eq]
    split
    · exact power
    · exact proper.powers id

theorem free {id} (freed : frame.free id = .ok next) : next.Proper := by
  have recorded := proper.recorded.free freed
  have same := @sameSlots_apply _ _ (.free id) rfl freed
  obtain ⟨-, ⟨-, -, rfl⟩ | ⟨hasBytes, -, rfl⟩⟩ := free_ok freed
  · exact proper.of_same_timeline recorded same (timeline_retire frame id)
  · refine proper.of_same_slots recorded same ?_ ?_
    · intro event recordedBefore
      rw [timeline_record, timeline_retire]
      exact mem_append_left _ recordedBefore
    · intro other goes
      rw [timeline_record, timeline_retire, mem_append, mem_singleton] at goes
      rcases goes with goes | same
      · exact proper.retired other goes
      · obtain rfl := Event.free.inj same
        unfold noBytes? at hasBytes
        split at hasBytes
        · simp at hasBytes
        · rename_i alone
          exact Option.not_isSome_iff_eq_none.mp alone

end

variable {id : CheckpointId}

variable (proper : frame.Proper)
include proper

theorem checkpoint (opened : frame.checkpoint = .ok (next, id)) : next.Proper :=
  proper.of_same_timeline (proper.recorded.checkpoint opened) (sameSlots_checkpoint opened)
    (timeline_checkpoint opened)

theorem rewind (rewound : frame.rewind id = .ok next) : next.Proper :=
  proper.of_same_timeline (proper.recorded.rewind rewound)
    (@sameSlots_apply _ _ (.rewind id) rfl rewound) (timeline_rewind rewound)

theorem restore (restored : frame.restore id = .ok next) : next.Proper :=
  proper.of_same_timeline (proper.recorded.restore restored)
    (@sameSlots_apply _ _ (.restore id) rfl restored) (timeline_restore restored)

end Proper

theorem alignment_joined (frame : Allocator) (id root other : SlotId) :
    ((frame.joined id root).slot other).alignment = if root = other ∧ root < frame.slots.size then
        max (frame.slot other).alignment (frame.slot id).alignment
      else
        (frame.slot other).alignment := by
  have redirected : ∀ slot : Slot, (redirect id root slot).alignment = slot.alignment := by
    intro slot
    unfold redirect
    split <;> rfl
  unfold joined
  rw [slot_modifySlot_of_kept _ alignment (by intro slot; rfl), slot_modifySlot,
    Array.size_map, slot_redirected]
  split
  · exact congrArg (max · (frame.slot id).alignment) (redirected _)
  · exact redirected _

theorem Proper.makeAlias (proper : frame.Proper) {id} (owned : frame.ownsBytes id = true)
    (targetInside : target < frame.slots.size) (aliased : frame.makeAlias id target = .ok next) :
    next.Proper := by
  have inside := Recorded.lt_size_of_ownsBytes owned
  have recorded := proper.recorded.makeAlias aliased
  have rooted := proper.rooted.makeAlias inside targetInside aliased
  obtain ⟨-, -, -, -, rfl⟩ := makeAlias_ok aliased
  refine ⟨recorded, ?_, ?_, ?_, rooted⟩
  · intro other otherInside
    rw [size_joined] at otherInside
    exact proper.complete other otherInside
  · -- Who holds a value has not gone, so it is no slot that went that comes to share bytes.
    intro other goes
    have wentBefore : Event.free other ∈ frame.timeline := goes
    have alone := proper.retired other wentBefore
    rw [aliasOf_joined frame inside, alone, if_neg]
    rintro (rfl | impossible)
    · exact (proper.recorded.live other owned).2 wentBefore
    · cases impossible
  · intro other
    rw [alignment_joined]
    split
    · exact max_rec' isPowerOfTwo (proper.powers other) (proper.powers id)
    · exact proper.powers other

/-! ## Holders -/

/-- A slot holds a value in bytes of its own. -/
def Holds (frame : Allocator) (id : SlotId) : Prop :=
  frame.ownsBytes id = true ∧ 0 < (frame.slot id).size

/-- What somebody who holds a slot can rely on. -/
structure Held (frame : Allocator) (slot : Allocation) : Prop where
  owns : frame.ownsBytes slot.id = true
  size_eq : (frame.slot slot.id).size = slot.size

theorem ownsBytes_of_standing {id} (same : (next.slot id).standing = (frame.slot id).standing) :
    next.ownsBytes id = frame.ownsBytes id := by
  simp only [standing, Prod.mk.injEq] at same
  unfold ownsBytes isAliased
  rw [same.2.1, same.2.2]

theorem size_of_standing {id} (same : (next.slot id).standing = (frame.slot id).standing) :
    (next.slot id).size = (frame.slot id).size :=
  congrArg Prod.fst same

theorem Held.of_standing {slot} (held : frame.Held slot)
    (same : (next.slot slot.id).standing = (frame.slot slot.id).standing) : next.Held slot :=
  ⟨(ownsBytes_of_standing same).trans held.owns, (size_of_standing same).trans held.size_eq⟩

theorem Held.lt_size {slot} (held : frame.Held slot) : slot.id < frame.slots.size :=
  Recorded.lt_size_of_ownsBytes held.owns

theorem Held.free {slot} (held : frame.Held slot) (isOpen : frame.resolved = false)
    (sized : 0 < slot.size) :
    frame.free slot.id = .ok ((frame.retire slot.id).record (.free slot.id)) := by
  have owned := held.owns
  simp only [ownsBytes, Bool.and_eq_true, Bool.not_eq_true'] at owned
  have hasBytes : frame.noBytes? slot.id = none := by
    unfold noBytes?
    rw [owned.1, held.size_eq]
    simp [Nat.ne_of_gt sized]
  unfold Allocator.free ensureOpen
  rw [isOpen, hasBytes]
  simp [owned.2]

/-- The slots that came between two moments and hold values are those in a list,
and nothing has changed for those who held slots before. -/
structure Entrusts (frame next : Allocator) (slots : List Allocation) : Prop where
  proper : next.Proper
  size_le : frame.slots.size ≤ next.slots.size
  old : ∀ id < frame.slots.size, (next.slot id).standing = (frame.slot id).standing
  held : ∀ slot ∈ slots, next.Held slot
  came : ∀ slot ∈ slots, frame.slots.size ≤ slot.id
  only : ∀ id, frame.slots.size ≤ id → next.Holds id → ∃ slot ∈ slots, slot.id = id
  distinct : (slots.map Allocation.id).Nodup

namespace Entrusts

variable {slots more : List Allocation} {slot : Allocation}

theorem refl (proper : frame.Proper) : frame.Entrusts frame [] where
  proper := proper
  size_le := le_refl _
  old := fun _ _ => rfl
  held := fun _ mem => by simp at mem
  came := fun _ mem => by simp at mem
  only := fun id beyond holds => by
    exact absurd (Recorded.lt_size_of_ownsBytes holds.1) (not_lt.mpr beyond)
  distinct := nodup_nil

theorem stays (entrusts : frame.Entrusts next slots) (held : frame.Held slot) : next.Held slot :=
  held.of_standing (entrusts.old slot.id held.lt_size)

theorem trans (first : frame.Entrusts mid slots) (second : mid.Entrusts next more) :
    frame.Entrusts next (slots ++ more) where
  proper := second.proper
  size_le := Nat.le_trans first.size_le second.size_le
  old := fun id inside =>
    (second.old id (Nat.lt_of_lt_of_le inside first.size_le)).trans (first.old id inside)
  held := fun slot mem => by
    rcases mem_append.mp mem with early | late
    · exact second.stays (first.held slot early)
    · exact second.held slot late
  came := fun slot mem => by
    rcases mem_append.mp mem with early | late
    · exact first.came slot early
    · exact Nat.le_trans first.size_le (second.came slot late)
  only := fun id fresh holds => by
    by_cases early : id < mid.slots.size
    · have same := second.old id early
      obtain ⟨slot, mem, id_eq⟩ := first.only id fresh
        ⟨(ownsBytes_of_standing same).symm.trans holds.1, size_of_standing same ▸ holds.2⟩
      exact ⟨slot, mem_append_left _ mem, id_eq⟩
    · obtain ⟨slot, mem, id_eq⟩ := second.only id (Nat.le_of_not_lt early) holds
      exact ⟨slot, mem_append_right _ mem, id_eq⟩
  distinct := by
    rw [map_append, nodup_append]
    refine ⟨first.distinct, second.distinct, ?_⟩
    intro id early other late same
    obtain ⟨slot, mem, rfl⟩ := mem_map.mp early
    obtain ⟨lateSlot, lateMember, rfl⟩ := mem_map.mp late
    have before := (first.held slot mem).lt_size
    have after := second.came lateSlot lateMember
    rw [same] at before
    exact absurd before (Nat.not_lt.mpr after)

theorem perm (entrusts : frame.Entrusts next slots) (same : slots.Perm more) :
    frame.Entrusts next more where
  proper := entrusts.proper
  size_le := entrusts.size_le
  old := entrusts.old
  held := fun slot mem => entrusts.held slot (same.mem_iff.mpr mem)
  came := fun slot mem => entrusts.came slot (same.mem_iff.mpr mem)
  only := fun id fresh holds => by
    obtain ⟨slot, mem, id_eq⟩ := entrusts.only id fresh holds
    exact ⟨slot, same.mem_iff.mp mem, id_eq⟩
  distinct := (same.map Allocation.id).nodup_iff.mp entrusts.distinct

theorem of_same_standing (entrusts : frame.Entrusts mid slots) (proper : next.Proper)
    (size_eq : next.slots.size = mid.slots.size)
    (same : ∀ id, (next.slot id).standing = (mid.slot id).standing) :
    frame.Entrusts next slots where
  proper := proper
  size_le := size_eq ▸ entrusts.size_le
  old := fun id inside => (same id).trans (entrusts.old id inside)
  held := fun slot mem => (entrusts.held slot mem).of_standing (same slot.id)
  came := entrusts.came
  only := fun id fresh holds =>
    entrusts.only id fresh ⟨(ownsBytes_of_standing (same id)).symm.trans holds.1,
      size_of_standing (same id) ▸ holds.2⟩
  distinct := entrusts.distinct

/-- A moment at which all slots stand as before but for one that holds no bytes of
its own any more. -/
theorem without (entrusts : frame.Entrusts mid (slot :: slots)) (proper : next.Proper)
    (size_eq : next.slots.size = mid.slots.size)
    (same : ∀ id, id ≠ slot.id → (next.slot id).standing = (mid.slot id).standing)
    (gone : ¬next.Holds slot.id) : frame.Entrusts next slots := by
  have fresh := entrusts.came slot mem_cons_self
  obtain ⟨notAmong, distinct⟩ := nodup_cons.mp entrusts.distinct
  refine ⟨proper, size_eq ▸ entrusts.size_le, ?_, ?_, ?_, ?_, distinct⟩
  · intro id inside
    have ne : id ≠ slot.id := Nat.ne_of_lt (Nat.lt_of_lt_of_le inside fresh)
    exact (same id ne).trans (entrusts.old id inside)
  · intro other mem
    have ne : other.id ≠ slot.id := by
      intro sameId
      exact notAmong (sameId ▸ mem_map_of_mem mem)
    exact (entrusts.held other (mem_cons_of_mem _ mem)).of_standing (same _ ne)
  · exact fun other mem => entrusts.came other (mem_cons_of_mem _ mem)
  · intro id idFresh holds
    have ne : id ≠ slot.id := by
      rintro rfl
      exact gone holds
    have standing := same id ne
    obtain ⟨other, mem, id_eq⟩ := entrusts.only id idFresh
      ⟨(ownsBytes_of_standing standing).symm.trans holds.1, size_of_standing standing ▸ holds.2⟩
    rcases mem_cons.mp mem with rfl | mem
    · exact absurd id_eq.symm ne
    · exact ⟨other, mem, id_eq⟩

end Entrusts

theorem standing_joined {id} (ne : other ≠ id) (frame : Allocator) (root : SlotId) :
    ((frame.joined id root).slot other).standing = (frame.slot other).standing := by
  have aliased : (frame.joined id root).isAliased other = frame.isAliased other := by
    rw [isAliased_joined, decide_eq_false fun both => ne both.1.symm, Bool.or_false]
  unfold Slot.standing
  rw [slot_joined_of_kept Slot.size (fun _ _ => rfl) (fun _ _ => rfl),
    slot_joined_of_kept Slot.inUse (fun _ _ => rfl) (fun _ _ => rfl)]
  exact congrArg (fun shared => (_, _, shared)) aliased

/-- A slot that is held can share the bytes of another one exactly if it has its
size. -/
theorem makeAlias_of_held (isOpen : frame.resolved = false) {slot} (held : frame.Held slot)
    (target : frame.Held result) (ne : result.id ≠ slot.id) : frame.makeAlias slot.id result.id =
      if slot.size = result.size then
        .ok (frame.joined slot.id result.id)
      else
        .error (.aliasSizeMismatch slot.id slot.size result.id result.size) := by
  have owned := held.owns
  have targetOwned := target.owns
  simp only [ownsBytes, and_eq_true, not_eq_true'] at owned targetOwned
  have root_eq : frame.root result.id = result.id := by
    have alone := targetOwned.1
    simp only [isAliased, Option.isSome_eq_false_iff, Option.isNone_iff_eq_none] at alone
    rw [root, alone, Option.getD_none]
  unfold makeAlias ensureOpen
  simp only [isOpen, false_eq_true, if_false, owned.1, root_eq, ne, held.size_eq, target.size_eq]
  by_cases sameSize : slot.size = result.size
  · simp [sameSize, joined, isOpen, pure, Except.pure, bind, Except.bind]
  · simp only [sameSize, not_false_eq_true, if_true, if_false, ne_eq]
    rfl

/-! ## Open branches -/

/-- The open checkpoints, innermost first. -/
def checkpoints (frame : Allocator) : List Checkpoint :=
  frame.active :: frame.enclosing

/-- The open checkpoints later on. -/
abbrev Nested (limit : Nat) (before after : List Checkpoint) : Prop :=
  List.Forall₂ (Checkpoint.Grows limit) before after

theorem nested_refl (limit : Nat) :
    ∀ checkpoints : List Checkpoint, Nested limit checkpoints checkpoints
  | [] => .nil
  | mark :: outer => .cons (.refl limit mark) (nested_refl limit outer)

theorem Nested.trans {limit later before between after} (first : Nested limit before between)
    (second : Nested later between after) (limit_le : limit ≤ later) :
    Nested limit before after := by
  induction first generalizing after with
  | nil =>
    cases second
    exact .nil
  | cons grows _ ih =>
    cases second with
    | cons growsToo rest => exact .cons (grows.trans growsToo limit_le) (ih rest)

theorem nested_retire (limit : Nat) (frame : Allocator) (id : SlotId) :
    Nested limit frame.checkpoints (frame.retire id).checkpoints := by
  refine .cons (grows_without limit _ _ id) ?_
  show Nested limit frame.enclosing (frame.enclosing.map _)
  induction frame.enclosing with
  | nil => exact .nil
  | cons mark outer ih =>
    exact .cons (grows_without limit _ _ id) ih

/-- Slots are entrusted while the same branches are open. -/
structure Custody (frame next : Allocator) (slots : List Allocation) : Prop
    extends Entrusts frame next slots where
  nested : Nested frame.slots.size frame.checkpoints next.checkpoints

namespace Custody

variable {slots more : List Allocation} {slot : Allocation}

theorem refl (proper : frame.Proper) : frame.Custody frame [] :=
  ⟨.refl proper, nested_refl _ _⟩

theorem trans (first : frame.Custody mid slots) (second : mid.Custody next more) :
    frame.Custody next (slots ++ more) :=
  ⟨first.toEntrusts.trans second.toEntrusts, first.nested.trans second.nested first.size_le⟩

theorem perm (custody : frame.Custody next slots) (same : slots.Perm more) :
    frame.Custody next more :=
  ⟨custody.toEntrusts.perm same, custody.nested⟩

/-- A new slot is in the custody of whoever asked for it. -/
theorem allocate (proper : frame.Proper) {size alignment}
    (alloc : frame.allocate size alignment = .ok (next, slot)) :
    frame.Custody next [slot] ∧ slot.size = size := by
  have properNext := proper.allocate alloc
  obtain ⟨-, -, rfl, next_eq⟩ := allocate_ok alloc
  obtain ⟨size_eq, slot_eq⟩ := slots_allocate alloc
  refine ⟨⟨⟨properNext, size_eq ▸ Nat.le_succ _, ?_, ?_, ?_, ?_, by simp⟩, ?_⟩, rfl⟩
  · intro id inside
    rw [slot_eq, if_neg (Nat.ne_of_lt inside)]
  · intro slot mem
    rw [mem_singleton.mp mem]
    constructor <;> simp [ownsBytes, isAliased, slot_eq]
  · intro slot mem
    obtain rfl := mem_singleton.mp mem
    exact Nat.le_refl _
  · intro id fresh holds
    have inside := Recorded.lt_size_of_ownsBytes holds.1
    rw [size_eq] at inside
    exact ⟨_, mem_singleton_self _, Nat.le_antisymm fresh (Nat.le_of_lt_succ inside)⟩
  · rw [next_eq]
    refine .cons ⟨rfl, rfl, fun id mem => ?_⟩ (nested_refl _ _)
    rcases mem_append.mp mem with old | new
    · exact .inl old
    · exact .inr (Nat.le_of_eq (mem_singleton.mp new).symm)

theorem forget (custody : frame.Custody next (slot :: slots)) (unsized : slot.size = 0) :
    frame.Custody next slots := by
  have held := custody.held slot mem_cons_self
  refine ⟨custody.toEntrusts.without custody.proper rfl (fun _ _ => rfl) ?_, custody.nested⟩
  intro holds
  rw [Holds, held.size_eq, unsized] at holds
  exact absurd holds.2 (lt_irrefl 0)

/-- A slot that is held can be given back. -/
theorem free (custody : frame.Custody mid (slot :: slots)) (sized : 0 < slot.size) :
    ∃ next, mid.free slot.id = .ok next ∧ frame.Custody next slots := by
  have freed := (custody.held slot mem_cons_self).free custody.proper.recorded.isOpen sized
  refine ⟨_, freed, custody.toEntrusts.without (custody.proper.free freed)
    (size_retire mid slot.id) ?_ ?_, ?_⟩
  · intro id ne
    show ((mid.retire slot.id).slot id).standing = _
    rw [slot_retire, if_neg fun both => ne both.1.symm]
  · intro holds
    have stillOwned : (mid.retire slot.id).ownsBytes slot.id = true := holds.1
    exact (Recorded.ownsBytes_retire stillOwned).2 rfl
  · refine custody.nested.trans ?_ custody.size_le
    cases nested_retire mid.slots.size mid slot.id with
    | cons active outer => exact .cons ⟨active.id_eq, active.rewinds_eq, active.locals⟩ outer

/-- A slot that is held can share the bytes of another one of its size. -/
theorem share (custody : frame.Custody mid (slot :: slots))
    (target : mid.Held result) (ne : result.id ≠ slot.id) (sameSize : slot.size = result.size) :
    ∃ next, mid.makeAlias slot.id result.id = .ok next ∧ frame.Custody next slots ∧
      next.Held result := by
  have held := custody.held slot mem_cons_self
  have aliased := makeAlias_of_held custody.proper.recorded.isOpen held target ne
  rw [if_pos sameSize] at aliased
  refine ⟨_, aliased, ⟨custody.toEntrusts.without
    (custody.proper.makeAlias held.owns target.lt_size aliased) (size_joined _ _ _)
    (fun id other => standing_joined other mid result.id) ?_, custody.nested⟩,
    target.of_standing (standing_joined ne mid result.id)⟩
  intro holds
  have owned := holds.1
  rw [ownsBytes, isAliased_joined, decide_eq_true ⟨rfl, held.lt_size⟩] at owned
  simp at owned

end Custody

end Allocator
end StructWasm.Frame

import StructWasm.Proofs.Frame.Placed

/-!
# Frames that go on

While code is emitted a frame only gains: its record gets longer, no slot changes its
size, and the bytes of a slot are aligned at least as much as before.
-/

namespace StructWasm.Frame.Allocator

open Option Nat

variable {frame next : Allocator} {id : SlotId}

/-- What every later moment of a frame keeps. -/
structure Onward (frame next : Allocator) : Prop extends frame.Extends next where
  proper : next.Proper
  level_le : ∀ id < frame.slots.size, frame.level id ≤ next.level id

namespace Onward

theorem refl (proper : frame.Proper) : frame.Onward frame :=
  ⟨.refl frame, proper, fun _ _ => le_refl _⟩

theorem trans (first : frame.Onward mid) (second : mid.Onward next) : frame.Onward next where
  toExtends := first.toExtends.trans second.toExtends
  proper := second.proper
  level_le := fun id inside =>
    le_trans (first.level_le id inside) (second.level_le id (lt_of_lt_of_le inside first.size_le))

theorem of_same_slots (goesOn : frame.Extends next) (proper : next.Proper)
    (same : frame.SameSlots next) : frame.Onward next where
  toExtends := goesOn
  proper := proper
  level_le := fun id _ => by
    unfold level root
    rw [same.alignment_eq, same.alias_eq]

end Onward

variable {checkpoint : CheckpointId} {size : Nat}

theorem Rooted.level_allocate (rooted : frame.Rooted)
    (alloc : frame.allocate size alignment = .ok (next, allocation))
    (inside : id < frame.slots.size) :
    next.slot id = frame.slot id ∧ next.level id = frame.level id := by
  have slot_eq {id : SlotId} (inside : id < frame.slots.size) : next.slot id = frame.slot id :=
    ((slots_allocate alloc).2 id).trans (if_neg (Nat.ne_of_lt inside))
  have root_eq : next.root id = frame.root id := by
    unfold root
    rw [slot_eq inside]
  refine ⟨slot_eq inside, ?_⟩
  unfold level
  rw [root_eq, slot_eq (rooted.root_spec inside).1]

/-- Who shared the bytes of a slot shares those of the root, which has its alignment. -/
theorem Rooted.level_le_makeAlias (rooted : frame.Rooted) (inside : id < frame.slots.size)
    (targetInside : target < frame.slots.size) (aliased : frame.makeAlias id target = .ok next)
    (other : SlotId) : frame.level other ≤ next.level other := by
  obtain ⟨-, notAliased, -, -, rfl⟩ := makeAlias_ok aliased
  have idOwns : (frame.slot id).aliasOf = none :=
    not_isSome_iff_eq_none.mp (ne_true_of_eq_false notAliased)
  have rootInside := (rooted.root_spec targetInside).1
  unfold level root
  rw [aliasOf_joined frame inside, alignment_joined]
  split
  · rename_i joins
    have level_eq : (frame.slot other).aliasOf.getD other = id := by
      rcases joins with rfl | shared
      · rw [idOwns, getD_none]
      · rw [shared, getD_some]
    rw [level_eq, getD_some, if_pos ⟨rfl, rootInside⟩]
    exact le_max_right _ _
  · split
    · exact le_max_left _ _
    · exact le_refl _

section

variable (proper : frame.Proper)
include proper

theorem Proper.onward_allocate (alloc : frame.allocate size alignment = .ok (next, allocation)) :
    frame.Onward next :=
  ⟨extends_allocate alloc, proper.allocate alloc,
    fun _ inside => (proper.rooted.level_allocate alloc inside).2.ge⟩

theorem Proper.onward_free (freed : frame.free id = .ok next) : frame.Onward next :=
  .of_same_slots (extends_free freed) (proper.free freed)
    (@sameSlots_apply _ _ (.free id) rfl freed)

theorem Proper.onward_checkpoint (opened : frame.checkpoint = .ok (next, checkpoint)) :
    frame.Onward next :=
  .of_same_slots (extends_checkpoint opened) (proper.checkpoint opened)
    (sameSlots_checkpoint opened)

theorem Proper.onward_rewind (rewound : frame.rewind checkpoint = .ok next) : frame.Onward next :=
  .of_same_slots (extends_rewind rewound) (proper.rewind rewound)
    (@sameSlots_apply _ _ (.rewind checkpoint) rfl rewound)

theorem Proper.onward_restore (restored : frame.restore checkpoint = .ok next) :
    frame.Onward next :=
  .of_same_slots (extends_restore restored) (proper.restore restored)
    (@sameSlots_apply _ _ (.restore checkpoint) rfl restored)

theorem Proper.onward_makeAlias (owned : frame.ownsBytes id = true)
    (targetInside : target < frame.slots.size) (aliased : frame.makeAlias id target = .ok next) :
    frame.Onward next :=
  ⟨extends_makeAlias aliased, proper.makeAlias owned targetInside aliased, fun other _ =>
    proper.rooted.level_le_makeAlias (Recorded.lt_size_of_ownsBytes owned) targetInside aliased
      other⟩

/-- A slot that comes to share the bytes of another finds its own size and alignment
there. -/
theorem Proper.level_makeAlias (owned : frame.ownsBytes id = true)
    (targetInside : target < frame.slots.size) (aliased : frame.makeAlias id target = .ok next) :
    (frame.slot target).size = (frame.slot id).size ∧ frame.level id ≤ next.level target := by
  have inside := Recorded.lt_size_of_ownsBytes owned
  obtain ⟨rootInside, -, rootSize⟩ := proper.rooted.root_spec targetInside
  obtain ⟨-, notAliased, notCycle, sameSize, rfl⟩ := makeAlias_ok aliased
  have idOwns : (frame.slot id).aliasOf = none :=
    not_isSome_iff_eq_none.mp (ne_true_of_eq_false notAliased)
  have root_eq : (frame.joined id (frame.root target)).root target = frame.root target := by
    unfold root at notCycle ⊢
    rw [aliasOf_joined frame inside, if_neg]
    rintro (rfl | shared)
    · simp [idOwns] at notCycle
    · simp [shared] at notCycle
  refine ⟨(sameSize.trans rootSize).symm, ?_⟩
  unfold level
  rw [root_eq, alignment_joined, if_pos ⟨rfl, rootInside⟩]
  unfold root
  rw [idOwns, getD_none]
  exact le_max_right _ _

end

end StructWasm.Frame.Allocator

import StructWasm.Proofs.Frame.Script

/-!
# Slots that share bytes

Every alias shares the bytes of a slot of its size that is no alias itself. This
holds along every script whose calls name slots that are there.
-/

namespace StructWasm.Frame

/-! ## Scripts that name slots that are there -/

/-- The slots that a call names are there. -/
def Step.Known (frame : Allocator) : Step → Prop
  | .free slot => slot < frame.slots.size
  | .makeAlias slot target => slot < frame.slots.size ∧ target < frame.slots.size
  | .allocate _ _ | .checkpoint | .rewind _ | .restore _ | .discard _ => True

instance decidableKnown (frame : Allocator) (step : Step) : Decidable (step.Known frame) :=
  match step with
  | .free slot => inferInstanceAs (Decidable (slot < frame.slots.size))
  | .makeAlias slot target =>
    inferInstanceAs (Decidable (slot < frame.slots.size ∧ target < frame.slots.size))
  | .allocate _ _ | .checkpoint | .rewind _ | .restore _ | .discard _ => isTrue trivial

namespace Allocator

variable {frame next : Allocator}

/-- Every call of a script names slots that are there when it is made. -/
def Named (frame : Allocator) : List Step → Prop
  | [] => True
  | step :: script => step.Known frame ∧ (frame.attempt step).Named script

instance decidableNamed (frame : Allocator) (script : List Step) : Decidable (frame.Named script) :=
  match script with
  | [] => isTrue trivial
  | step :: script =>
    have := decidableNamed (frame.attempt step) script
    inferInstanceAs (Decidable (step.Known frame ∧ (frame.attempt step).Named script))

/-! ## Aliases -/

/-- Every alias shares the bytes of a slot of its size that is there and is no
alias. -/
def Rooted (frame : Allocator) : Prop :=
  ∀ id root, (frame.slot id).aliasOf = some root →
    root < frame.slots.size ∧ (frame.slot root).aliasOf = none ∧
      (frame.slot root).size = (frame.slot id).size

theorem aliasOf_joined (frame : Allocator) {id} (inside : id < frame.slots.size)
    (root other : SlotId) : ((frame.joined id root).slot other).aliasOf =
      if other = id ∨ (frame.slot other).aliasOf = some id then
        some root
      else
        (frame.slot other).aliasOf := by
  unfold joined
  rw [slot_modifySlot, size_modifySlot, Array.size_map]
  by_cases same : other = id
  · rw [if_pos ⟨same.symm, inside⟩, if_pos (.inl same)]
  · rw [if_neg fun both => same both.1.symm,
      slot_modifySlot_of_kept _ Slot.aliasOf (by intro slot; rfl), slot_redirected]
    unfold Slot.redirect
    split
    · rename_i shared
      rw [if_pos (.inr shared)]
    · rename_i elsewhere
      rw [if_neg (by simp [same, elsewhere])]

namespace Rooted

theorem new (policy : FreePolicy) (frameAlignment : Nat) :
    (Allocator.new policy frameAlignment).Rooted := by
  intro id root shared
  simp [Allocator.new, slot_eq, Slot.absent] at shared

section

variable (rooted : frame.Rooted)
include rooted

theorem of_same_slots (same : frame.SameSlots next) : next.Rooted := by
  intro id root shared
  rw [same.count_eq, same.alias_eq, same.size_eq, same.size_eq]
  exact rooted id root ((same.alias_eq id).symm.trans shared)

theorem allocate {size}
    (alloc : frame.allocate size alignment = .ok (next, allocation)) : next.Rooted := by
  obtain ⟨size_eq, slot_eq⟩ := slots_allocate alloc
  intro id root shared
  rw [slot_eq] at shared
  split at shared
  · simp at shared
  · rename_i old
    obtain ⟨inside, owns, sameSize⟩ := rooted id root shared
    rw [slot_eq root, slot_eq id, if_neg (Nat.ne_of_lt inside), if_neg old]
    exact ⟨size_eq ▸ Nat.lt_succ_of_lt inside, owns, sameSize⟩

theorem root_spec {id} (inside : id < frame.slots.size) :
    frame.root id < frame.slots.size ∧ (frame.slot (frame.root id)).aliasOf = none ∧
      (frame.slot (frame.root id)).size = (frame.slot id).size := by
  unfold root
  cases shared : (frame.slot id).aliasOf with
  | none => exact ⟨inside, shared, rfl⟩
  | some root => exact rooted id root shared

/-- The class of a slot is joined to that of another one: whatever shared the bytes of
the first slot now shares those of the root of the second. -/
theorem makeAlias {id target} (inside : id < frame.slots.size)
    (targetInside : target < frame.slots.size) (aliased : frame.makeAlias id target = .ok next) :
    next.Rooted := by
  obtain ⟨-, -, notCycle, sameSize, rfl⟩ := makeAlias_ok aliased
  have size_eq := slot_joined_of_kept Slot.size (fun _ _ => rfl) (fun _ _ => rfl) frame id
    (frame.root target)
  obtain ⟨rootInside, rootOwns, -⟩ := rooted.root_spec targetInside
  have rootStays : ((frame.joined id (frame.root target)).slot (frame.root target)).aliasOf =
      none := by
    rw [aliasOf_joined frame inside, rootOwns, if_neg (by simp [notCycle])]
  intro other root shared
  rw [size_joined, size_eq, size_eq]
  rw [aliasOf_joined frame inside] at shared
  split at shared
  · rename_i joins
    obtain rfl : frame.root target = root := by simpa using shared
    refine ⟨rootInside, rootStays, ?_⟩
    rcases joins with rfl | sharedBefore
    · exact sameSize.symm
    · exact sameSize.symm.trans (rooted other id sharedBefore).2.2
  · rename_i elsewhere
    obtain ⟨isInside, owns, sizeSame⟩ := rooted other root shared
    refine ⟨isInside, ?_, sizeSame⟩
    rw [aliasOf_joined frame inside, owns, if_neg]
    rintro (rfl | impossible)
    · exact elsewhere (.inr shared)
    · cases impossible

/-- A call that names slots that are there keeps aliases rooted. -/
theorem apply {step} (known : step.Known frame) (ran : frame.apply step = .ok next) :
    next.Rooted := by
  cases step with
  | allocate size alignment =>
    obtain ⟨_, alloc⟩ := allocate_of_apply ran
    exact rooted.allocate alloc
  | makeAlias id target => exact rooted.makeAlias known.1 known.2 ran
  | _ => exact rooted.of_same_slots (sameSlots_apply rfl ran)

theorem run (named : frame.Named script) : (frame.run script).Rooted := by
  induction script generalizing frame with
  | nil => exact rooted
  | cons step script ih =>
    refine ih ?_ named.2
    unfold attempt
    split
    · rename_i ran
      exact rooted.apply named.1 ran
    · exact rooted

end

end Rooted
end Allocator
end StructWasm.Frame

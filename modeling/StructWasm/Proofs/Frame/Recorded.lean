import StructWasm.Frame.Replay
import StructWasm.Proofs.Frame.Record
import StructWasm.Proofs.Frame.Script

/-!
# Frames and their records

Every script leaves the frame with a valid record in which each slot that holds a
value in bytes of its own is there at the end. Two slots that were both in use at
some moment are there together at some point of the record, unless the record of
one of them was discarded or it became an alias.
-/

namespace StructWasm.Frame.Allocator

open List Allocator Slot Checkpoint

theorem mem_timeline {frame : Allocator} : event ∈ frame.timeline ↔
      ∃ mark ∈ frame.active :: frame.enclosing, event ∈ mark.events := by
  simp only [timeline, mem_append, mem_flatMap, mem_reverse, exists_mem_cons_iff]
  exact or_comm

variable {frame next : Allocator}

theorem timeline_record (frame : Allocator) (event : Event) :
    (frame.record event).timeline = frame.timeline ++ [event] := by
  simp [timeline, record]

theorem timeline_retire (frame : Allocator) (id : SlotId) :
    (frame.retire id).timeline = frame.timeline := by
  simp [timeline, retire, events_without, flatMap_map, ← map_reverse, modifySlot]

theorem timeline_allocate {size alignment}
    (alloc : frame.allocate size alignment = .ok (next, allocation)) :
    next.timeline = frame.timeline ++ [.allocate frame.slots.size] := by
  obtain ⟨-, -, -, rfl⟩ := allocate_ok alloc
  simp [timeline]

variable {id : CheckpointId} {step : Step} {first second : SlotId}

theorem timeline_checkpoint (opened : frame.checkpoint = .ok (next, id)) :
    next.timeline = frame.timeline := by
  obtain ⟨-, -, rfl⟩ := checkpoint_ok opened
  simp [timeline, fresh]

theorem timeline_rewind (rewound : frame.rewind id = .ok next) :
    next.timeline = frame.timeline := by
  obtain ⟨-, parent, outer, -, enclosing_eq, ⟨-, rfl⟩ | ⟨-, -, rfl⟩⟩ := rewind_ok rewound
  · simp [timeline, enclosing_eq]
  · rfl

theorem timeline_restore (restored : frame.restore id = .ok next) :
    next.timeline = frame.timeline := by
  obtain ⟨-, parent, outer, -, enclosing_eq, -, -, rfl⟩ := restore_ok restored
  simp [timeline, enclosing_eq]

theorem timeline_discard (discarded : frame.discard id = .ok next) :
    ∃ kept, frame.timeline = kept ++ frame.active.events ∧
      next.timeline = kept ++ frame.active.promoted.map Event.allocate := by
  obtain ⟨-, parent, outer, -, enclosing_eq, rfl⟩ := discard_ok discarded
  refine ⟨outer.reverse.flatMap events ++ parent.events, ?_, ?_⟩
  · simp [timeline, enclosing_eq]
  · simp [timeline]

/-! ## Later moments -/

/-- What every later moment of a frame keeps: its record goes on, and no slot changes its
size. -/
structure Extends (frame next : Allocator) : Prop where
  resolved_eq : next.resolved = frame.resolved
  size_le : frame.slots.size ≤ next.slots.size
  size_eq : ∀ id < frame.slots.size, (next.slot id).size = (frame.slot id).size
  record : frame.timeline <+: next.timeline

namespace Extends

theorem refl (frame : Allocator) : frame.Extends frame :=
  ⟨rfl, Nat.le_refl _, fun _ _ => rfl, prefix_rfl⟩

theorem trans {mid : Allocator} (first : frame.Extends mid) (second : mid.Extends next) :
    frame.Extends next where
  resolved_eq := second.resolved_eq.trans first.resolved_eq
  size_le := Nat.le_trans first.size_le second.size_le
  size_eq := fun id inside =>
    (second.size_eq id (Nat.lt_of_lt_of_le inside first.size_le)).trans (first.size_eq id inside)
  record := first.record.trans second.record

theorem hasBytes (goesOn : frame.Extends next) {slot} (bytes : frame.HasBytes slot) :
    next.HasBytes slot := by
  have inside : slot < frame.slots.size := by
    by_contra beyond
    rw [HasBytes, slot_of_size_le (Nat.le_of_not_lt beyond)] at bytes
    exact Nat.lt_irrefl 0 bytes
  rwa [HasBytes, goesOn.size_eq slot inside]

end Extends

theorem extends_allocate {size alignment}
    (alloc : frame.allocate size alignment = .ok (next, allocation)) : frame.Extends next := by
  obtain ⟨size_eq, slot_eq⟩ := slots_allocate alloc
  refine ⟨?_, size_eq ▸ Nat.le_succ _, ?_, ⟨_, (timeline_allocate alloc).symm⟩⟩
  · obtain ⟨-, -, -, rfl⟩ := allocate_ok alloc
    rfl
  · intro slot inside
    rw [slot_eq, if_neg (Nat.ne_of_lt inside)]

theorem extends_of_rearranges (rearranges : step.rearranges = true)
    (ran : frame.apply step = .ok next) (record : frame.timeline <+: next.timeline) :
    frame.Extends next := by
  have same := sameSlots_apply rearranges ran
  obtain ⟨-, _, _, _, _, next_eq⟩ := apply_eq ran
  exact ⟨by rw [next_eq], same.count_eq.ge, fun slot _ => same.size_eq slot, record⟩

theorem extends_free {slot} (freed : frame.free slot = .ok next) : frame.Extends next := by
  refine @extends_of_rearranges _ _ (.free slot) rfl freed ?_
  obtain ⟨-, ⟨-, -, rfl⟩ | ⟨-, -, rfl⟩⟩ := free_ok freed
  · rw [timeline_retire]
  · rw [timeline_record, timeline_retire]
    exact prefix_append _ _

theorem extends_checkpoint (opened : frame.checkpoint = .ok (next, id)) : frame.Extends next := by
  have record := (timeline_checkpoint opened).symm
  obtain ⟨-, -, rfl⟩ := checkpoint_ok opened
  exact ⟨rfl, Nat.le_refl _, fun _ _ => rfl, ⟨[], by rw [append_nil, record]⟩⟩

theorem extends_rewind (rewound : frame.rewind id = .ok next) : frame.Extends next :=
  @extends_of_rearranges _ _ (.rewind id) rfl rewound (by rw [timeline_rewind rewound])

theorem extends_restore (restored : frame.restore id = .ok next) : frame.Extends next :=
  @extends_of_rearranges _ _ (.restore id) rfl restored (by rw [timeline_restore restored])

theorem extends_makeAlias {slot} (aliased : frame.makeAlias slot target = .ok next) :
    frame.Extends next := by
  obtain ⟨-, -, -, -, rfl⟩ := makeAlias_ok aliased
  refine ⟨rfl, (size_joined _ _ _).ge, fun other _ => ?_, prefix_rfl⟩
  exact slot_joined_of_kept Slot.size (fun _ _ => rfl) (fun _ _ => rfl) frame slot _ other

/-- What holds of every frame that is not laid out yet. -/
structure Recorded (frame : Allocator) : Prop where
  /-- The frame is not laid out. -/
  isOpen : frame.resolved = false
  /-- No slot has a place. -/
  unplaced : ∀ id, (frame.slot id).offset = none
  /-- The record is valid. -/
  valid : Valid frame.timeline
  /-- Only slots that there are have come. -/
  bounded : ∀ id, .allocate id ∈ frame.timeline → id < frame.slots.size
  /-- A slot that holds a value is there. -/
  live : ∀ id, frame.ownsBytes id = true → Live frame.timeline id
  /-- The open checkpoints keep the slots that hold values. -/
  keep : AllKeep (fun id => frame.ownsBytes id = true) [] (frame.active :: frame.enclosing)

namespace Recorded

theorem lt_size_of_ownsBytes {id} (owned : frame.ownsBytes id = true) : id < frame.slots.size := by
  by_contra beyond
  simp [ownsBytes, slot_of_size_le (Nat.le_of_not_lt beyond), absent] at owned

theorem exists_holder (recorded : frame.Recorded) {id : SlotId}
    (owned : frame.ownsBytes id = true) :
    ∃ holder ∈ frame.active :: frame.enclosing, id ∈ holder.locals := by
  obtain ⟨mark, isOpen, comes⟩ := mem_timeline.mp (recorded.live id owned).1
  exact recorded.keep.exists_holder isOpen comes owned

/-- A frame whose record is the same, and in which no more slots hold values. -/
theorem of_same_record (recorded : frame.Recorded) (resolved_eq : next.resolved = frame.resolved)
    (size_eq : next.slots.size = frame.slots.size) (timeline_eq : next.timeline = frame.timeline)
    (offset_eq : ∀ id, (next.slot id).offset = (frame.slot id).offset)
    (fewer : ∀ id, next.ownsBytes id = true → frame.ownsBytes id = true)
    (keep : AllKeep (fun id => next.ownsBytes id = true) [] (next.active :: next.enclosing)) :
    next.Recorded where
  isOpen := by rw [resolved_eq, recorded.isOpen]
  unplaced := fun id => by rw [offset_eq, recorded.unplaced]
  valid := by rw [timeline_eq]; exact recorded.valid
  bounded := by rw [timeline_eq, size_eq]; exact recorded.bounded
  live := fun id owned => by rw [timeline_eq]; exact recorded.live id (fewer id owned)
  keep := keep

theorem new (policy : FreePolicy) (frameAlignment : Nat) :
    (Allocator.new policy frameAlignment).Recorded where
  isOpen := rfl
  unplaced := fun id => by simp [Allocator.new, slot_eq, Slot.absent]
  valid := .nil
  bounded := fun id comes => by simp [Allocator.new, timeline, Checkpoint.fresh] at comes
  live := fun id owned => by
    simp [Allocator.new, ownsBytes, slot_eq, Slot.absent] at owned
  keep := by
    refine ⟨?_, rfl⟩
    constructor <;> simp [Allocator.new, Checkpoint.fresh]

theorem allocate (recorded : frame.Recorded) {size alignment}
    (alloc : frame.allocate size alignment = .ok (next, allocation)) : next.Recorded := by
  obtain ⟨isOpen, -, -, next_eq⟩ := allocate_ok alloc
  have absent : .allocate frame.slots.size ∉ frame.timeline :=
    fun comes => Nat.lt_irrefl _ (recorded.bounded _ comes)
  have timeline_eq := timeline_allocate alloc
  have slot_eq := (slots_allocate alloc).2
  have owned_or_new : ∀ id, next.ownsBytes id = true →
      frame.ownsBytes id = true ∨ id = frame.slots.size := by
    intro id owned
    by_cases isNew : id = frame.slots.size
    · exact .inr isNew
    · left
      simpa [ownsBytes, isAliased, slot_eq, isNew] using owned
  refine ⟨by simp [next_eq, isOpen], ?_, ?_, ?_, ?_, ?_⟩
  · intro id
    rw [slot_eq]
    split
    · rfl
    · exact recorded.unplaced id
  · rw [timeline_eq]
    exact .allocate recorded.valid absent
  · intro id comes
    rw [timeline_eq, mem_append, mem_singleton, Event.allocate.injEq] at comes
    rcases comes with comes | rfl
    · have := recorded.bounded id comes
      simp [next_eq]
      omega
    · simp [next_eq]
  · intro id owned
    rw [timeline_eq]
    rcases owned_or_new id owned with owned | rfl
    · obtain ⟨comes, stays⟩ := recorded.live id owned
      exact ⟨mem_append_left _ comes, by simpa using stays⟩
    · refine ⟨by simp, ?_⟩
      simpa using fun goes => absent (recorded.valid.comes_of_goes goes)
  · have absentIn : ∀ mark ∈ frame.active :: frame.enclosing,
        .allocate frame.slots.size ∉ mark.events := fun mark mem comes =>
      absent (mem_timeline.mpr ⟨mark, mem, comes⟩)
    obtain ⟨keeps, outerKeep⟩ := recorded.keep
    have withNew : AllKeep (fun id => frame.ownsBytes id = true ∨ id = frame.slots.size) []
        (next.active :: next.enclosing) := by
      rw [next_eq]
      refine ⟨keeps.adopt (absentIn _ mem_cons_self), outerKeep.mono ?_⟩
      rintro id (owned | rfl)
      · exact .inl owned
      · refine .inr ⟨fun promoted => ?_, fun mark mem =>
          absentIn mark (mem_cons_of_mem _ mem)⟩
        exact absentIn _ mem_cons_self (keeps.promoted_recorded _ promoted)
    exact withNew.mono fun id owned => .inl (owned_or_new id owned)

theorem ownsBytes_retire {id} (owned : (frame.retire id).ownsBytes other = true) :
    frame.ownsBytes other = true ∧ other ≠ id := by
  have inside := lt_size_of_ownsBytes owned
  rw [size_retire] at inside
  simp only [ownsBytes, isAliased, slot_retire] at owned ⊢
  split at owned
  · simp [Slot.retire] at owned
  · rename_i ne
    refine ⟨owned, ?_⟩
    rintro rfl
    exact ne ⟨rfl, inside⟩

theorem retire (recorded : frame.Recorded) (id : SlotId) : (frame.retire id).Recorded := by
  refine recorded.of_same_record rfl (size_retire frame id) (timeline_retire frame id) ?_ ?_ ?_
  · intro other
    rw [slot_retire]
    split <;> rfl
  · exact fun other owned => (ownsBytes_retire owned).1
  · have keep : AllKeep (fun other => (frame.retire id).ownsBytes other = true) []
        (frame.active :: frame.enclosing) :=
      recorded.keep.mono fun other owned => .inl (ownsBytes_retire owned).1
    exact keep.without (frame.slot id).owner fun owned => (ownsBytes_retire owned).2 rfl

theorem free (recorded : frame.Recorded) {id} (freed : frame.free id = .ok next) :
    next.Recorded := by
  obtain ⟨-, ⟨-, -, rfl⟩ | ⟨hasBytes, inUse, rfl⟩⟩ := free_ok freed
  · exact recorded.retire id
  · have retired := recorded.retire id
    have owned : frame.ownsBytes id = true := by
      unfold noBytes? at hasBytes
      split at hasBytes
      · simp at hasBytes
      · rename_i notAliased
        simp [ownsBytes, notAliased, inUse]
    have timeline_eq : ((frame.retire id).record (.free id)).timeline =
        frame.timeline ++ [.free id] := by
      rw [timeline_record, timeline_retire]
    refine ⟨retired.isOpen, retired.unplaced, ?_, ?_, ?_, ?_⟩
    · rw [timeline_eq]
      exact .free recorded.valid (recorded.live id owned)
    · intro other comes
      rw [timeline_eq] at comes
      exact (size_retire frame id).symm ▸ recorded.bounded other (by simpa using comes)
    · intro other otherOwned
      have stillOwned : (frame.retire id).ownsBytes other = true := otherOwned
      obtain ⟨otherOwned, ne⟩ := ownsBytes_retire stillOwned
      obtain ⟨comes, stays⟩ := recorded.live other otherOwned
      rw [timeline_eq]
      exact ⟨mem_append_left _ comes, by simp [stays, ne]⟩
    · exact ⟨retired.keep.1.recordFree id, retired.keep.2⟩

variable {id : CheckpointId}

theorem checkpoint (recorded : frame.Recorded) (opened : frame.checkpoint = .ok (next, id)) :
    next.Recorded := by
  have timeline_eq := timeline_checkpoint opened
  obtain ⟨-, -, rfl⟩ := checkpoint_ok opened
  refine recorded.of_same_record rfl rfl timeline_eq (fun _ => rfl) (fun _ owned => owned) ?_
  refine ⟨?_, recorded.keep⟩
  constructor <;> simp [fresh]

theorem ownsBytes_adopted
    (frame : Allocator) (ids : List SlotId) (owner : CheckpointId) (id : SlotId) :
    (ids.foldl (fun frame id => frame.modifySlot id fun slot => { slot with owner })
      frame).ownsBytes id = frame.ownsBytes id := by
  exact slot_foldl_modifySlot_of_kept (fun slot => { slot with owner })
    (fun slot => !slot.aliasOf.isSome && slot.inUse) (fun _ => rfl) ids frame id

theorem rewind (recorded : frame.Recorded) (rewound : frame.rewind id = .ok next) :
    next.Recorded := by
  obtain ⟨-, parent, outer, -, enclosing_eq, ⟨isFirst, next_eq⟩ | ⟨-, nothingLeft, rfl⟩⟩ :=
    rewind_ok rewound
  · have ownsBytes_eq : ∀ id, next.ownsBytes id = frame.ownsBytes id := by
      intro id
      rw [next_eq]
      exact ownsBytes_adopted frame frame.leftovers parent.id id
    have slot_eq : ∀ id, (next.slot id).offset = (frame.slot id).offset := by
      intro id
      rw [next_eq]
      exact slot_foldl_modifySlot_of_kept (fun slot => { slot with owner := parent.id })
        offset (fun _ => rfl) frame.leftovers frame id
    have resolved_eq : next.resolved = frame.resolved := by
      rw [next_eq, foldl_modifySlot_eq]
    have size_eq : next.slots.size = frame.slots.size := by
      rw [next_eq]
      exact size_foldl_modifySlot _ _ _
    refine recorded.of_same_record resolved_eq size_eq (timeline_rewind rewound) slot_eq
      (fun id owned => ownsBytes_eq id ▸ owned) ?_
    obtain ⟨keeps, outerKeep⟩ := recorded.keep
    rw [enclosing_eq] at outerKeep
    have notHanded := keeps.promoted_empty isFirst
    have parentKeeps := outerKeep.1
    rw [notHanded] at parentKeeps
    have apart : ∀ id, .allocate id ∈ frame.active.events → .allocate id ∉ parent.events := by
      have valid := recorded.valid
      simp only [timeline, enclosing_eq] at valid
      intro id comes inParent
      exact valid.not_mem_of_mem_append comes (by simp [inParent])
    simp only [ownsBytes_eq]
    rw [next_eq]
    exact ⟨keeps.finishFirst notHanded, parentKeeps.adoptAll keeps apart, outerKeep.2⟩
  · obtain ⟨keeps, outerKeep⟩ := recorded.keep
    refine recorded.of_same_record rfl rfl rfl (fun _ => rfl) (fun _ owned => owned) ?_
    refine ⟨{ keeps with
      locals_recorded := by simp
      handed_held := by simp
      held := ?_
      locals_nodup := nodup_nil
      promoted_empty := by simp }, outerKeep⟩
    intro id owned comes
    rcases keeps.held id owned comes with isLocal | promoted
    · have left : id ∈ frame.leftovers := mem_filter.mpr ⟨isLocal, owned⟩
      simp [nothingLeft] at left
    · exact .inr promoted

theorem restore (recorded : frame.Recorded) (restored : frame.restore id = .ok next) :
    next.Recorded := by
  have timeline_eq := timeline_restore restored
  obtain ⟨-, parent, outer, -, enclosing_eq, -, noLocals, rfl⟩ := restore_ok restored
  obtain ⟨keeps, outerKeep⟩ := recorded.keep
  rw [enclosing_eq] at outerKeep
  refine recorded.of_same_record rfl rfl timeline_eq (fun _ => rfl) (fun _ owned => owned) ?_
  refine ⟨outerKeep.1.absorb keeps.promoted_recorded ?_, outerKeep.2⟩
  intro id owned comes
  simpa [noLocals] using keeps.held id owned comes

theorem ownsBytes_swept {ids : List SlotId} {id}
    (owned : (ids.foldl (fun frame id => frame.modifySlot id Slot.retire) frame).ownsBytes id =
      true) : frame.ownsBytes id = true ∧ id ∉ ids := by
  induction ids generalizing frame with
  | nil => exact ⟨owned, not_mem_nil⟩
  | cons first ids ih =>
    obtain ⟨ownedBefore, notLater⟩ := ih owned
    have ownedRetired : (frame.retire first).ownsBytes id = true := ownedBefore
    obtain ⟨ownedBefore, ne⟩ := ownsBytes_retire ownedRetired
    exact ⟨ownedBefore, by simp [ne, notLater]⟩

section

variable (recorded : frame.Recorded)
include recorded

theorem discard (discarded : frame.discard id = .ok next) : next.Recorded := by
  obtain ⟨isOpen, parent, outer, -, enclosing_eq, next_eq⟩ := discard_ok discarded
  obtain ⟨keeps, outerKeep⟩ := recorded.keep
  rw [enclosing_eq] at outerKeep
  have owned_before : ∀ id, next.ownsBytes id = true →
      frame.ownsBytes id = true ∧ id ∉ frame.active.locals := by
    intro id owned
    rw [next_eq] at owned
    exact ownsBytes_swept owned
  have size_eq : next.slots.size = frame.slots.size := by
    rw [next_eq]
    exact size_foldl_modifySlot _ _ _
  obtain ⟨kept, timeline_eq, next_timeline_eq⟩ := timeline_discard discarded
  have valid := recorded.valid
  rw [timeline_eq] at valid
  refine ⟨?_, ?_, ?_, ?_, ?_, ?_⟩
  · rw [next_eq, foldl_modifySlot_eq]
    exact isOpen
  · intro id
    have offset_eq : (next.slot id).offset = (frame.slot id).offset := by
      rw [next_eq]
      exact slot_foldl_modifySlot_of_kept Slot.retire Slot.offset (fun _ => rfl)
        frame.active.locals frame id
    rw [offset_eq, recorded.unplaced]
  · rw [next_timeline_eq]
    exact valid.of_append.append_allocates keeps.promoted_nodup fun id promoted =>
      valid.not_mem_of_mem_append (keeps.promoted_recorded id promoted)
  · intro id comes
    rw [size_eq]
    apply recorded.bounded
    rw [next_timeline_eq, mem_append] at comes
    rw [timeline_eq, mem_append]
    refine comes.imp (fun comes => comes) fun promoted => ?_
    exact keeps.promoted_recorded id (by simpa using promoted)
  · intro id owned
    obtain ⟨owned, notSwept⟩ := owned_before id owned
    obtain ⟨comes, stays⟩ := recorded.live id owned
    rw [timeline_eq] at comes stays
    rw [next_timeline_eq]
    refine ⟨?_, ?_⟩
    · rcases mem_append.mp comes with comes | comes
      · exact mem_append_left _ comes
      · have promoted := (keeps.held id owned comes).resolve_left notSwept
        exact mem_append_right _ (mem_map_of_mem promoted)
    · simp only [mem_append, not_or] at stays
      simp [stays.1]
  · have keep : AllKeep (fun id => next.ownsBytes id = true) frame.active.promoted
        (parent :: outer) :=
      outerKeep.mono fun id owned => .inl (owned_before id owned).1
    have stack_eq : next.active :: next.enclosing =
        { parent with
          events := parent.events ++ frame.active.promoted.map Event.allocate } :: outer := by
      rw [next_eq]
    rw [stack_eq]
    refine ⟨keep.1.absorb ?_ ?_, keep.2⟩
    · exact fun id promoted => mem_map_of_mem promoted
    · intro id _ comes
      simpa using comes

theorem makeAlias {id} (aliased : frame.makeAlias id target = .ok next) : next.Recorded := by
  obtain ⟨-, -, -, -, rfl⟩ := makeAlias_ok aliased
  have fewer : ∀ other, (frame.joined id (frame.root target)).ownsBytes other = true →
      frame.ownsBytes other = true := by
    intro other owned
    unfold ownsBytes at owned ⊢
    rw [isAliased_joined, slot_joined_of_kept inUse (fun _ _ => rfl) (fun _ _ => rfl)] at owned
    simp_all
  refine recorded.of_same_record rfl (size_joined _ _ _) rfl ?_ fewer ?_
  · exact slot_joined_of_kept offset (fun _ _ => rfl) (fun _ _ => rfl) frame id _
  · exact recorded.keep.mono fun other owned => .inl (fewer other owned)

theorem apply (ran : frame.apply step = .ok next) : next.Recorded := by
  cases step with
  | allocate size alignment =>
    obtain ⟨_, alloc⟩ := allocate_of_apply ran
    exact recorded.allocate alloc
  | free slot => exact recorded.free ran
  | checkpoint =>
    obtain ⟨_, opened⟩ := checkpoint_of_apply ran
    exact recorded.checkpoint opened
  | rewind mark => exact recorded.rewind ran
  | restore mark => exact recorded.restore ran
  | discard mark => exact recorded.discard ran
  | makeAlias slot target => exact recorded.makeAlias ran

theorem run (script : List Step) : (frame.run script).Recorded :=
  run_induction (fun before ran => before.apply ran) script recorded

end

end Recorded

/-! ## Slots that were in use together -/

/-- Two slots are there together at some point of the record, unless one of them
shares bytes or will never be placed. -/
def Met (frame : Allocator) (first second : SlotId) : Prop :=
  .allocate first ∈ frame.timeline → .allocate second ∈ frame.timeline →
    frame.isAliased first = false → frame.isAliased second = false →
      Coexist frame.timeline first second

theorem Recorded.met (recorded : frame.Recorded) (firstInUse : (frame.slot first).inUse = true)
    (secondInUse : (frame.slot second).inUse = true) : frame.Met first second := by
  intro _ _ firstOwns secondOwns
  exact ⟨frame.timeline, prefix_rfl,
    recorded.live first (by simp [ownsBytes, firstOwns, firstInUse]),
    recorded.live second (by simp [ownsBytes, secondOwns, secondInUse])⟩

/-- How a call changes the record: it adds to its end, or replaces its end by slots
that came there. -/
theorem Recorded.timeline_apply (recorded : frame.Recorded)
    (ran : frame.apply step = .ok next) : (∃ more, next.timeline = frame.timeline ++ more ∧
        ∀ id, .allocate id ∈ more → id = frame.slots.size) ∨
      ∃ (kept dropped : List Event) (ids : List SlotId),
        frame.timeline = kept ++ dropped ∧ next.timeline = kept ++ ids.map Event.allocate ∧
          ∀ id ∈ ids, .allocate id ∈ dropped := by
  cases step with
  | allocate size alignment =>
    obtain ⟨_, alloc⟩ := allocate_of_apply ran
    exact .inl ⟨_, timeline_allocate alloc, by simp⟩
  | free slot =>
    obtain ⟨-, ⟨-, -, rfl⟩ | ⟨-, -, rfl⟩⟩ := free_ok ran
    · exact .inl ⟨[], by simp [timeline_retire], by simp⟩
    · exact .inl ⟨[.free slot], by rw [timeline_record, timeline_retire], by simp⟩
  | checkpoint =>
    obtain ⟨_, opened⟩ := checkpoint_of_apply ran
    exact .inl ⟨[], by simpa using timeline_checkpoint opened, by simp⟩
  | rewind mark => exact .inl ⟨[], by simpa using timeline_rewind ran, by simp⟩
  | restore mark => exact .inl ⟨[], by simpa using timeline_restore ran, by simp⟩
  | discard mark =>
    obtain ⟨kept, timeline_eq, next_timeline_eq⟩ := timeline_discard ran
    exact .inr ⟨kept, _, _, timeline_eq, next_timeline_eq, recorded.keep.1.promoted_recorded⟩
  | makeAlias slot target =>
    obtain ⟨-, -, -, -, rfl⟩ := makeAlias_ok ran
    exact .inl ⟨[], by simp [joined, timeline, modifySlot], by simp⟩

theorem Recorded.comes_of_apply (recorded : frame.Recorded)
    (ran : frame.apply step = .ok next) {id} (inside : id < frame.slots.size)
    (comes : .allocate id ∈ next.timeline) : .allocate id ∈ frame.timeline := by
  rcases recorded.timeline_apply ran with
    ⟨more, timeline_eq, onlyNew⟩ | ⟨kept, dropped, ids, before_eq, after_eq, fromDropped⟩
  · rw [timeline_eq] at comes
    rcases mem_append.mp comes with comes | isNew
    · exact comes
    · exact absurd (onlyNew id isNew) (Nat.ne_of_lt inside)
  · rw [after_eq] at comes
    rw [before_eq, mem_append]
    rcases mem_append.mp comes with comes | isKept
    · exact .inl comes
    · exact .inr (fromDropped id (by simpa using isKept))

/-- Only `makeAlias` changes what slots share. -/
theorem aliasOf_apply (ran : frame.apply step = .ok next)
    (other : ∀ id target, step ≠ .makeAlias id target) (id : SlotId) :
    (next.slot id).aliasOf = (frame.slot id).aliasOf := by
  cases step with
  | allocate size alignment =>
    obtain ⟨_, alloc⟩ := allocate_of_apply ran
    obtain ⟨-, -, -, rfl⟩ := allocate_ok alloc
    refine (congrArg Slot.aliasOf (slot_push frame _ id)).trans ?_
    split
    · rename_i new
      rw [slot_of_size_le (Nat.le_of_eq new.symm)]
      rfl
    · rfl
  | makeAlias slot target => exact absurd rfl (other slot target)
  | _ => exact (sameSlots_apply rfl ran).alias_eq id

/-- Slots stay, and so do aliases. -/
theorem isAliased_apply (ran : frame.apply step = .ok next) {id}
    (inside : id < frame.slots.size) :
    id < next.slots.size ∧ (frame.isAliased id = true → next.isAliased id = true) := by
  cases step with
  | allocate size alignment =>
    have alias_eq := aliasOf_apply ran (by simp) id
    obtain ⟨_, alloc⟩ := allocate_of_apply ran
    obtain ⟨-, -, -, rfl⟩ := allocate_ok alloc
    refine ⟨by simpa using Nat.lt_succ_of_lt inside, fun aliased => ?_⟩
    rwa [isAliased, alias_eq]
  | makeAlias slot target =>
    obtain ⟨-, -, -, -, rfl⟩ := makeAlias_ok ran
    exact ⟨by simpa using inside, fun aliased => by simp [isAliased_joined, aliased]⟩
  | _ =>
    have same := sameSlots_apply rfl ran
    exact ⟨same.count_eq ▸ inside, fun aliased => by rwa [isAliased, same.alias_eq]⟩

/-- Slots that have met have met after every call. -/
theorem Met.apply (met : frame.Met first second) (recorded : frame.Recorded)
    (firstInside : first < frame.slots.size) (secondInside : second < frame.slots.size)
    (ran : frame.apply step = .ok next) : next.Met first second := by
  intro firstComes secondComes firstOwns secondOwns
  have ownedBefore : ∀ {id : SlotId}, id < frame.slots.size →
      next.isAliased id = false → frame.isAliased id = false := by
    intro id inside owns
    have stays := (isAliased_apply ran inside).2
    cases aliased : frame.isAliased id with
    | false => rfl
    | true => simp [stays aliased] at owns
  have together := met (recorded.comes_of_apply ran firstInside firstComes)
    (recorded.comes_of_apply ran secondInside secondComes)
    (ownedBefore firstInside firstOwns) (ownedBefore secondInside secondOwns)
  rcases recorded.timeline_apply ran with
    ⟨more, timeline_eq, -⟩ | ⟨kept, dropped, ids, before_eq, after_eq, -⟩
  · rw [timeline_eq]
    exact together.append more
  · rw [before_eq] at together
    rw [after_eq] at firstComes secondComes ⊢
    exact together.replaceEnd firstComes secondComes

/-- Slots that have met have met after every script. -/
theorem Met.run (met : frame.Met first second) (recorded : frame.Recorded)
    (firstInside : first < frame.slots.size) (secondInside : second < frame.slots.size)
    (script : List Step) : (frame.run script).Met first second := by
  have kept := run_induction (fun {frame next step}
      (before : frame.Recorded ∧ first < frame.slots.size ∧ second < frame.slots.size ∧
        frame.Met first second)
      (ran : frame.apply step = .ok next) =>
      (⟨before.1.apply ran, (isAliased_apply ran before.2.1).1,
        (isAliased_apply ran before.2.2.1).1,
        before.2.2.2.apply before.1 before.2.1 before.2.2.1 ran⟩ :
        next.Recorded ∧ first < next.slots.size ∧ second < next.slots.size ∧ next.Met first second))
    script ⟨recorded, firstInside, secondInside, met⟩
  exact kept.2.2.2

end StructWasm.Frame.Allocator

import StructWasm.Proofs.Frame.Recorded

/-!
# Owners of slots

Every slot that holds a value in bytes of its own belongs to one checkpoint, which
the slot names as its owner and which is open. A checkpoint that is closed keeps no
slots.

The allocator forgets a checkpoint when it is closed. A history keeps the closed
ones beside the allocator, so that something can be said about all checkpoints there
have been.
-/

namespace StructWasm.Frame

open List

/-! ## Histories -/

/-- An allocator, and the checkpoints that it has closed. -/
structure History where
  /-- The allocator. -/
  frame : Allocator
  /-- The closed checkpoints, the latest first. -/
  closed : List Checkpoint

/-- The open checkpoints, the active one first. -/
def Allocator.opened (frame : Allocator) : List Checkpoint :=
  frame.active :: frame.enclosing

namespace History

/-- The history of an empty frame. -/
def new (policy : FreePolicy) (frameAlignment : Nat) : History :=
  { frame := .new policy frameAlignment, closed := [] }

/-- All checkpoints there have been. -/
def checkpoints (history : History) : List Checkpoint :=
  history.frame.opened ++ history.closed

/-- The closed checkpoints after a call that is accepted. A slot that is freed is
taken from its owner, open or closed; a branch that is abandoned gives up the slots
it has. -/
def closedAfter (history : History) : Step → List Checkpoint
  | .free id =>
    let owner := (history.frame.slot id).owner
    history.closed.map fun checkpoint => checkpoint.without owner id
  | .restore _ => history.frame.active :: history.closed
  | .discard _ => { history.frame.active with locals := [] } :: history.closed
  | .allocate _ _ | .checkpoint | .rewind _ | .makeAlias _ _ => history.closed

/-- The history after a call that is skipped if it is refused. -/
def attempt (history : History) (step : Step) : History :=
  match history.frame.apply step with
  | .ok next => { frame := next, closed := history.closedAfter step }
  | .error _ => history

/-- The history after a script. -/
def run (history : History) (script : List Step) : History :=
  script.foldl attempt history

theorem frame_attempt (history : History) (step : Step) :
    (history.attempt step).frame = history.frame.attempt step := by
  unfold attempt Allocator.attempt
  split <;> simp_all

theorem frame_run (history : History) (script : List Step) :
    (history.run script).frame = history.frame.run script := by
  induction script generalizing history with
  | nil => rfl
  | cons step script ih =>
    rw [Allocator.run_cons, ← frame_attempt]
    exact ih (history.attempt step)

end History

/-! ## Shares -/

namespace Checkpoint

/-- The number of a checkpoint, and the slots that it has. -/
def share (checkpoint : Checkpoint) : CheckpointId × List SlotId :=
  (checkpoint.id, checkpoint.locals)

/-- A share without a slot, if its checkpoint is the owner. -/
def takeFrom (owner : CheckpointId) (id : SlotId) (share : CheckpointId × List SlotId) :
    CheckpointId × List SlotId :=
  (share.1, if share.1 = owner then share.2.erase id else share.2)

theorem share_without (checkpoint : Checkpoint) (owner : CheckpointId) (id : SlotId) :
    (checkpoint.without owner id).share = takeFrom owner id checkpoint.share := by
  unfold without takeFrom
  split
  · rename_i owns
    exact Prod.ext rfl (if_pos owns).symm
  · rename_i other
    exact Prod.ext rfl (if_neg other).symm

variable {share : CheckpointId × List SlotId}

theorem mem_of_mem_takeFrom {id} (mem : other ∈ (takeFrom owner id share).2) : other ∈ share.2 := by
  unfold takeFrom at mem
  split at mem
  · exact mem_of_mem_erase mem
  · exact mem

@[simp] theorem id_without (checkpoint : Checkpoint) (owner : CheckpointId) (id : SlotId) :
    (checkpoint.without owner id).id = checkpoint.id := by
  unfold without
  split <;> rfl

theorem without_of_empty {checkpoint : Checkpoint} (empty : checkpoint.locals = [])
    (owner : CheckpointId) (id : SlotId) : checkpoint.without owner id = checkpoint := by
  unfold without
  split
  · rw [empty, erase_nil, ← empty]
  · rfl

end Checkpoint

namespace Allocator

variable {frame next : Allocator}

/-- The shares of the open checkpoints, that of the active one first. -/
def shares (frame : Allocator) : List (CheckpointId × List SlotId) :=
  frame.opened.map Checkpoint.share

/-- The open checkpoints share out slots. -/
structure Owned (frame : Allocator) : Prop where
  /-- The checkpoints are told apart by their numbers. -/
  distinct : (frame.shares.map Prod.fst).Nodup
  /-- The slots of a checkpoint name it as their owner. -/
  owner : ∀ share ∈ frame.shares, ∀ id ∈ share.2,
    id < frame.slots.size ∧ (frame.slot id).owner = share.1

theorem owned_new (policy : FreePolicy) (frameAlignment : Nat) :
    (new policy frameAlignment).Owned where
  distinct := nodup_singleton _
  owner := by simp [new, shares, opened, Checkpoint.share, Checkpoint.fresh]

theorem owner_foldl_modifySlot (owner : CheckpointId) (ids : List SlotId) (frame : Allocator)
    (inside : other < frame.slots.size) :
    ((ids.foldl (fun frame id => frame.modifySlot id fun slot => { slot with owner })
      frame).slot other).owner = if other ∈ ids then owner else (frame.slot other).owner := by
  induction ids generalizing frame with
  | nil => rfl
  | cons id ids ih =>
    rw [foldl_cons, ih _ (by rwa [size_modifySlot]), slot_modifySlot]
    by_cases same : id = other
    · subst same
      simp [inside]
    · have ne : other ≠ id := fun equal => same equal.symm
      simp [same, ne]

namespace Owned

section

variable (owned : frame.Owned)
include owned

theorem eq_of_mem {first second} (isFirst : first ∈ frame.shares)
    (isSecond : second ∈ frame.shares) {id} (inFirst : id ∈ first.2) (inSecond : id ∈ second.2) :
    first = second := by
  have same : first.1 = second.1 := by
    rw [← (owned.owner first isFirst id inFirst).2, (owned.owner second isSecond id inSecond).2]
  exact inj_on_of_nodup_map owned.distinct isFirst isSecond same

/-- No checkpoint gets a slot. -/
theorem shrink (sublist : (next.shares.map Prod.fst).Sublist (frame.shares.map Prod.fst))
    (fewer : ∀ share ∈ next.shares, ∀ id ∈ share.2,
      ∃ more, (share.1, more) ∈ frame.shares ∧ id ∈ more)
    (size_eq : next.slots.size = frame.slots.size)
    (owner_eq : ∀ id, (next.slot id).owner = (frame.slot id).owner) : next.Owned where
  distinct := owned.distinct.sublist sublist
  owner := by
    intro share isShare id mem
    obtain ⟨more, isMore, mem⟩ := fewer share isShare id mem
    rw [size_eq, owner_eq]
    exact owned.owner _ isMore id mem

/-- The active checkpoint gets the new slot. -/
theorem allocate {size}
    (alloc : frame.allocate size alignment = .ok (next, allocation)) : next.Owned := by
  obtain ⟨-, -, -, next_eq⟩ := allocate_ok alloc
  have shares_eq : next.shares =
      (frame.active.id, frame.active.locals ++ [frame.slots.size]) :: frame.shares.tail := by
    rw [next_eq]
    rfl
  have active : frame.active.share ∈ frame.shares := mem_cons_self
  obtain ⟨size_eq, slot_eq⟩ := slots_allocate alloc
  have old : ∀ share ∈ frame.shares, ∀ id ∈ share.2,
      id < next.slots.size ∧ (next.slot id).owner = share.1 := by
    intro share isShare id mem
    obtain ⟨inside, owner_eq⟩ := owned.owner share isShare id mem
    rw [slot_eq, if_neg (Nat.ne_of_lt inside), size_eq]
    exact ⟨Nat.lt_succ_of_lt inside, owner_eq⟩
  constructor
  · rw [shares_eq]
    exact owned.distinct
  · rw [shares_eq]
    rintro share (- | ⟨_, isShare⟩) id mem
    · rcases mem_append.mp mem with mem | isNew
      · exact old _ active id mem
      · rw [slot_eq, if_pos (mem_singleton.mp isNew), size_eq, mem_singleton.mp isNew]
        exact ⟨Nat.lt_succ_self _, rfl⟩
    · exact old share (mem_of_mem_tail isShare) id mem

/-- The owner of a slot that is retired no longer has it. -/
theorem retire (id : SlotId) : (frame.retire id).Owned := by
  have shares_eq : (frame.retire id).shares =
      frame.shares.map (Checkpoint.takeFrom (frame.slot id).owner id) := by
    simp only [shares, opened, Allocator.retire, map_cons, map_map, Checkpoint.share_without]
    congr 1
    exact map_congr_left fun checkpoint _ => checkpoint.share_without _ id
  refine owned.shrink ?_ ?_ (size_retire frame id)
    (slot_modifySlot_of_kept Slot.retire Slot.owner (fun _ => rfl) frame id)
  · rw [shares_eq, map_map]
    exact List.Sublist.refl _
  · rw [shares_eq, forall_mem_map]
    exact fun share isShare other mem => ⟨_, isShare, Checkpoint.mem_of_mem_takeFrom mem⟩

theorem free {id} (freed : frame.free id = .ok next) : next.Owned := by
  obtain ⟨-, ⟨-, -, rfl⟩ | ⟨-, -, rfl⟩⟩ := free_ok freed
  · exact owned.retire id
  · exact ⟨(owned.retire id).distinct, (owned.retire id).owner⟩

end

variable {id : CheckpointId}

variable (owned : frame.Owned)
include owned

/-- A new checkpoint has no slots. -/
theorem checkpoint (fresh : ∀ share ∈ frame.shares, share.1 < frame.checkpointCount)
    (opened : frame.checkpoint = .ok (next, id)) : next.Owned := by
  obtain ⟨-, rfl, rfl⟩ := checkpoint_ok opened
  refine ⟨nodup_cons.mpr ⟨?_, owned.distinct⟩, ?_⟩
  · intro known
    obtain ⟨share, isShare, same⟩ := mem_map.mp known
    exact Nat.lt_irrefl _ (same ▸ fresh share isShare)
  · rintro share (- | ⟨_, isShare⟩) other mem
    · cases mem
    · exact owned.owner share isShare other mem

/-- The active checkpoint can be closed, whatever it has. -/
theorem close (shares_eq : next.shares = frame.shares.tail)
    (size_eq : next.slots.size = frame.slots.size)
    (owner_eq : ∀ id, (next.slot id).owner = (frame.slot id).owner) : next.Owned := by
  refine owned.shrink ?_ ?_ size_eq owner_eq
  · rw [shares_eq]
    exact (tail_sublist _).map _
  · rw [shares_eq]
    exact fun share isShare id mem => ⟨_, mem_of_mem_tail isShare, mem⟩

/-- The first arm hands its slots to the checkpoint around the branch. -/
theorem handOver (enclosing_eq : frame.enclosing = parent :: outer)
    (adopted_eq : adopted = frame.leftovers.foldl
      (fun frame id => frame.modifySlot id fun slot => { slot with owner := parent.id }) frame)
    (shares_eq : next.shares = (frame.active.id, []) ::
      (parent.id, parent.locals ++ frame.leftovers) :: outer.map Checkpoint.share)
    (slots_eq : next.slots = adopted.slots) : next.Owned := by
  have known : frame.shares = frame.active.share :: parent.share :: outer.map Checkpoint.share := by
    rw [shares, opened, enclosing_eq]
    rfl
  have active : frame.active.share ∈ frame.shares := known ▸ mem_cons_self
  have around : parent.share ∈ frame.shares := known ▸ mem_cons_of_mem _ mem_cons_self
  have outside : ∀ share ∈ outer.map Checkpoint.share, share ∈ frame.shares := fun share isShare =>
    known ▸ mem_cons_of_mem _ (mem_cons_of_mem _ isShare)
  have distinct := owned.distinct
  rw [known] at distinct
  have isLocal : ∀ id ∈ frame.leftovers, id ∈ frame.active.share.2 := fun id mem =>
    (mem_filter.mp mem).1
  have size_eq : next.slots.size = frame.slots.size := by
    rw [slots_eq, adopted_eq, size_foldl_modifySlot]
  have owner_eq : ∀ id, id < frame.slots.size → (next.slot id).owner =
      if id ∈ frame.leftovers then parent.id else (frame.slot id).owner := by
    intro id inside
    rw [← owner_foldl_modifySlot parent.id frame.leftovers frame inside, ← adopted_eq, slot, slot,
      slots_eq]
  constructor
  · rw [shares_eq]
    exact distinct
  · rw [shares_eq, size_eq]
    rintro share (- | ⟨_, - | ⟨_, isShare⟩⟩) id mem
    · cases mem
    · rcases mem_append.mp mem with mem | mem
      · obtain ⟨inside, named⟩ := owned.owner _ around id mem
        refine ⟨inside, ?_⟩
        rw [owner_eq id inside, named]
        exact ite_self _
      · have inside := (owned.owner _ active id (isLocal id mem)).1
        refine ⟨inside, ?_⟩
        rw [owner_eq id inside, if_pos mem]
    · obtain ⟨inside, named⟩ := owned.owner share (outside share isShare) id mem
      refine ⟨inside, ?_⟩
      rw [owner_eq id inside, if_neg, named]
      intro inLeft
      have same := owned.eq_of_mem (outside share isShare) active mem (isLocal id inLeft)
      exact (nodup_cons.mp distinct).1 (mem_cons_of_mem _ (same ▸ mem_map_of_mem isShare))

theorem rewind (rewound : frame.rewind id = .ok next) : next.Owned := by
  obtain ⟨-, parent, outer, -, enclosing_eq, ⟨-, rfl⟩ | ⟨-, -, rfl⟩⟩ := rewind_ok rewound
  · exact owned.handOver enclosing_eq rfl rfl rfl
  · refine owned.shrink (List.Sublist.refl _) ?_ rfl fun _ => rfl
    rintro share (- | ⟨_, isShare⟩) id mem
    · cases mem
    · exact ⟨_, mem_cons_of_mem _ isShare, mem⟩

theorem restore (restored : frame.restore id = .ok next) : next.Owned := by
  obtain ⟨-, parent, outer, -, enclosing_eq, -, -, rfl⟩ := restore_ok restored
  refine owned.close ?_ rfl fun _ => rfl
  rw [shares, shares, opened, opened, enclosing_eq]
  rfl

theorem discard (discarded : frame.discard id = .ok next) : next.Owned := by
  obtain ⟨-, parent, outer, -, enclosing_eq, rfl⟩ := discard_ok discarded
  refine owned.close ?_ (size_foldl_modifySlot _ _ _)
    (slot_foldl_modifySlot_of_kept Slot.retire Slot.owner (fun _ => rfl) _ frame)
  rw [shares, shares, opened, opened, enclosing_eq]
  rfl

theorem makeAlias {id target} (aliased : frame.makeAlias id target = .ok next) : next.Owned := by
  obtain ⟨-, -, -, -, rfl⟩ := makeAlias_ok aliased
  refine owned.shrink (List.Sublist.refl _) ?_ (size_joined _ _ _)
    (slot_joined_of_kept Slot.owner (fun _ _ => rfl) (fun _ _ => rfl) frame id _)
  exact fun share isShare other mem => ⟨_, isShare, mem⟩

end Owned
end Allocator

/-! ## All checkpoints -/

namespace History

/-- Every slot belongs to the checkpoint that it names as its owner. -/
structure Belongs (history : History) : Prop where
  /-- The open and the closed checkpoints are all there have been. -/
  complete : (history.checkpoints.map Checkpoint.id).Perm
    (List.range history.frame.checkpointCount)
  /-- A checkpoint has a slot once. -/
  nodup : ∀ checkpoint ∈ history.checkpoints, checkpoint.locals.Nodup
  /-- A slot belongs to at most one checkpoint. -/
  unique : ∀ first ∈ history.checkpoints, ∀ second ∈ history.checkpoints,
    ∀ id, id ∈ first.locals → id ∈ second.locals → first = second
  /-- A slot that holds a value belongs to its owner and to no other checkpoint, and its
  owner is open. -/
  owner : ∀ id, history.frame.ownsBytes id = true →
    (∃ checkpoint ∈ history.frame.opened, checkpoint.id = (history.frame.slot id).owner) ∧
      ∀ checkpoint ∈ history.checkpoints,
        id ∈ checkpoint.locals ↔ checkpoint.id = (history.frame.slot id).owner
  /-- A closed checkpoint has no slots. -/
  empty : ∀ checkpoint ∈ history.closed, checkpoint.locals = []

/-- What every call keeps. -/
structure Shared (history : History) : Prop where
  complete : (history.checkpoints.map Checkpoint.id).Perm
    (List.range history.frame.checkpointCount)
  owned : history.frame.Owned
  empty : ∀ checkpoint ∈ history.closed, checkpoint.locals = []

namespace Shared

variable {history : History} {next : Allocator}

variable (shared : history.Shared)
include shared

theorem ids_lt : ∀ share ∈ history.frame.shares, share.1 < history.frame.checkpointCount := by
  intro share isShare
  obtain ⟨checkpoint, isOpen, rfl⟩ := mem_map.mp isShare
  refine mem_range.mp (shared.complete.mem_iff.mp ?_)
  exact mem_map_of_mem (mem_append_left _ isOpen)

theorem of_same_ids (owned : next.Owned)
    (ids_eq : next.opened.map Checkpoint.id = history.frame.opened.map Checkpoint.id)
    (count_eq : next.checkpointCount = history.frame.checkpointCount) :
    Shared { frame := next, closed := history.closed } where
  complete := by
    rw [checkpoints, map_append, ids_eq, count_eq, ← map_append]
    exact shared.complete
  owned := owned
  empty := shared.empty

theorem archive (owned : next.Owned) (left_id : left.id = history.frame.active.id)
    (left_locals : left.locals = [])
    (ids_eq : next.opened.map Checkpoint.id = history.frame.enclosing.map Checkpoint.id)
    (count_eq : next.checkpointCount = history.frame.checkpointCount) :
    Shared { frame := next, closed := left :: history.closed } where
  complete := by
    rw [checkpoints, map_append, ids_eq, count_eq, map_cons, left_id]
    refine perm_middle.trans ?_
    rw [← map_append]
    exact shared.complete
  owned := owned
  empty := forall_mem_cons.mpr ⟨left_locals, shared.empty⟩

theorem of_apply (ran : history.frame.apply step = .ok next) :
    Shared { frame := next, closed := history.closedAfter step } := by
  cases step with
  | allocate size alignment =>
    obtain ⟨allocation, alloc⟩ := Allocator.allocate_of_apply ran
    refine shared.of_same_ids (shared.owned.allocate alloc) ?_ ?_ <;>
    · obtain ⟨-, -, -, rfl⟩ := Allocator.allocate_ok alloc
      rfl
  | free id =>
    have closed_eq : history.closedAfter (.free id) = history.closed := by
      refine (map_congr_left fun checkpoint isClosed => ?_).trans (map_id _)
      exact Checkpoint.without_of_empty (shared.empty checkpoint isClosed) _ id
    rw [closed_eq]
    have ids_eq : (history.frame.retire id).opened.map Checkpoint.id =
        history.frame.opened.map Checkpoint.id := by
      simp only [Allocator.opened, Allocator.retire, map_cons, map_map, Checkpoint.id_without]
      congr 1
      exact map_congr_left fun checkpoint _ => checkpoint.id_without _ id
    refine shared.of_same_ids (shared.owned.free ran) ?_ ?_ <;>
    obtain ⟨-, ⟨-, -, rfl⟩ | ⟨-, -, rfl⟩⟩ := Allocator.free_ok ran
    · exact ids_eq
    · exact ids_eq
    · rfl
    · rfl
  | checkpoint =>
    obtain ⟨id, opened⟩ := Allocator.checkpoint_of_apply ran
    have owned := shared.owned.checkpoint shared.ids_lt opened
    obtain ⟨-, rfl, rfl⟩ := Allocator.checkpoint_ok opened
    refine ⟨?_, owned, shared.empty⟩
    rw [range_succ]
    exact (List.Perm.cons _ shared.complete).trans (perm_append_singleton _ _).symm
  | rewind id =>
    refine shared.of_same_ids (shared.owned.rewind ran) ?_ ?_ <;>
    obtain ⟨-, parent, outer, -, enclosing_eq, ⟨-, rfl⟩ | ⟨-, -, rfl⟩⟩ :=
      Allocator.rewind_ok ran
    · rw [Allocator.opened, Allocator.opened, enclosing_eq]
      rfl
    · rfl
    · rw [Allocator.foldl_modifySlot_eq]
    · rfl
  | restore id =>
    have owned := shared.owned.restore ran
    obtain ⟨-, parent, outer, -, enclosing_eq, -, settled, rfl⟩ := Allocator.restore_ok ran
    refine shared.archive owned rfl settled ?_ rfl
    rw [Allocator.opened, enclosing_eq]
    rfl
  | discard id =>
    have owned := shared.owned.discard ran
    obtain ⟨-, parent, outer, -, enclosing_eq, rfl⟩ := Allocator.discard_ok ran
    refine shared.archive owned rfl rfl ?_ ?_
    · rw [Allocator.opened, enclosing_eq]
      rfl
    · rw [Allocator.foldl_modifySlot_eq]
  | makeAlias id target =>
    refine shared.of_same_ids (shared.owned.makeAlias ran) ?_ ?_ <;>
    · obtain ⟨-, -, -, -, rfl⟩ := Allocator.makeAlias_ok ran
      rfl

theorem attempt (step : Step) : (history.attempt step).Shared := by
  unfold History.attempt
  split
  · rename_i ran
    exact shared.of_apply ran
  · exact shared

theorem run (script : List Step) : (history.run script).Shared := by
  induction script generalizing history with
  | nil => exact shared
  | cons step script ih => exact ih (shared.attempt step)

theorem isOpen_of_mem {checkpoint} (known : checkpoint ∈ history.checkpoints) {id}
    (mem : id ∈ checkpoint.locals) : checkpoint ∈ history.frame.opened := by
  rcases mem_append.mp known with isOpen | isClosed
  · exact isOpen
  · rw [shared.empty checkpoint isClosed] at mem
    cases mem

theorem eq_of_id_eq (firstKnown : first ∈ history.checkpoints)
    (secondKnown : second ∈ history.checkpoints) (same : first.id = second.id) : first = second :=
  inj_on_of_nodup_map (shared.complete.nodup_iff.mpr nodup_range) firstKnown secondKnown
    same

theorem owner_of_mem {checkpoint} (known : checkpoint ∈ history.checkpoints) {id}
    (mem : id ∈ checkpoint.locals) : (history.frame.slot id).owner = checkpoint.id :=
  (shared.owned.owner checkpoint.share (mem_map_of_mem (shared.isOpen_of_mem known mem)) id mem).2

theorem belongs (recorded : history.frame.Recorded) : history.Belongs where
  complete := shared.complete
  nodup := by
    intro checkpoint known
    rcases mem_append.mp known with isOpen | isClosed
    · exact recorded.keep.locals_nodup checkpoint isOpen
    · rw [shared.empty checkpoint isClosed]
      exact nodup_nil
  unique := fun first firstKnown second secondKnown id inFirst inSecond =>
    shared.eq_of_id_eq firstKnown secondKnown <|
      (shared.owner_of_mem firstKnown inFirst).symm.trans (shared.owner_of_mem secondKnown inSecond)
  owner := by
    intro id owns
    obtain ⟨holder, isOpen, mem⟩ := recorded.exists_holder owns
    have known : holder ∈ history.checkpoints := mem_append_left _ isOpen
    have named : (history.frame.slot id).owner = holder.id := shared.owner_of_mem known mem
    refine ⟨⟨holder, isOpen, named.symm⟩, fun checkpoint checkpointKnown => ⟨?_, ?_⟩⟩
    · exact fun mem => (shared.owner_of_mem checkpointKnown mem).symm
    · intro same
      rw [shared.eq_of_id_eq checkpointKnown known (same.trans named)]
      exact mem
  empty := shared.empty

end Shared

theorem shared_new (policy : FreePolicy) (frameAlignment : Nat) :
    (new policy frameAlignment).Shared where
  complete := List.Perm.refl _
  owned := Allocator.owned_new policy frameAlignment
  empty := fun _ isClosed => absurd isClosed not_mem_nil

/-- After every script each slot is in at most one checkpoint, a slot that holds a value
is in its owner, which is open, and closed checkpoints have no slots. -/
theorem belongs_run (policy : FreePolicy) (frameAlignment : Nat) (script : List Step) :
    ((new policy frameAlignment).run script).frame =
        (Allocator.new policy frameAlignment).run script ∧
      ((new policy frameAlignment).run script).Belongs := by
  refine ⟨frame_run _ script, ((shared_new policy frameAlignment).run script).belongs ?_⟩
  rw [frame_run]
  exact (Allocator.Recorded.new policy frameAlignment).run script

end History
end StructWasm.Frame

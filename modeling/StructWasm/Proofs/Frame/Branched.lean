import StructWasm.Proofs.Frame.Custody

/-!
# Slots across the arms of a branch

A branch is opened, its arms are finished one after the other, and it is left. The
slots that its arms hold on to are in custody afterwards. Only finishing an arm
after the first can be refused, and only because of slots that the arm leaves.
-/

namespace StructWasm.Frame.Allocator

variable {outer frame next : Allocator} {id : CheckpointId} {arms : Nat}
variable {slots : List Allocation}

/-- A branch was opened and some of its arms are finished. -/
structure Branched (outer frame : Allocator) (id : CheckpointId) (arms : Nat)
    (slots : List Allocation) : Prop extends Entrusts outer frame slots where
  nested : Nested outer.slots.size
    ({ Checkpoint.fresh id with rewinds := arms } :: outer.checkpoints) frame.checkpoints

theorem Proper.branched (proper : outer.Proper) :
    ∃ next id, outer.checkpoint = .ok (next, id) ∧ outer.Branched next id 0 [] := by
  have opened : outer.checkpoint = .ok ({ outer with
      active := .fresh outer.checkpointCount
      enclosing := outer.active :: outer.enclosing
      checkpointCount := outer.checkpointCount + 1 }, outer.checkpointCount) := by
    unfold Allocator.checkpoint ensureOpen
    rw [proper.recorded.isOpen]
    rfl
  exact ⟨_, _, opened,
    (Entrusts.refl proper).of_same_standing (proper.checkpoint opened) rfl fun _ => rfl,
    nested_refl _ _⟩

namespace Branched

section

variable (branched : outer.Branched frame id arms slots)
include branched

theorem extend (custody : frame.Custody next more) : outer.Branched next id arms (slots ++ more) :=
  ⟨branched.toEntrusts.trans custody.toEntrusts,
    branched.nested.trans custody.nested branched.size_le⟩

/-- The checkpoint of the branch is the active one. -/
theorem active_spec : ∃ parent rest, frame.enclosing = parent :: rest ∧ frame.active.id = id ∧
      frame.active.rewinds = arms ∧ (∀ slot ∈ frame.active.locals, outer.slots.size ≤ slot) ∧
      Nested outer.slots.size outer.checkpoints (parent :: rest) := by
  have nested := branched.nested
  unfold checkpoints at nested ⊢
  cases nested with
  | cons active enclosing =>
    cases enclosing_eq : frame.enclosing with
    | nil =>
      rw [enclosing_eq] at enclosing
      cases enclosing
    | cons parent rest =>
      refine ⟨parent, rest, rfl, active.id_eq, active.rewinds_eq, ?_, enclosing_eq ▸ enclosing⟩
      intro slot mem
      have origin := active.locals slot mem
      simpa [Checkpoint.fresh] using origin

theorem parentOf_eq : ∃ parent rest, frame.parentOf id = .ok (parent, rest) := by
  obtain ⟨parent, rest, enclosing_eq, id_eq, -, -, -⟩ := branched.active_spec
  exact ⟨parent, rest, by rw [parentOf, if_pos id_eq, enclosing_eq]⟩

/-- What finishing an arm leaves. -/
theorem rewound (rewound : frame.rewind id = .ok next) :
    outer.Branched next id (arms + 1) slots ∧ next.active.locals = [] := by
  have proper := branched.proper.rewind rewound
  have entrusts := branched.toEntrusts.of_same_standing proper (size_rewind rewound)
    (slot_rewind_of_kept rewound Slot.standing fun _ _ => rfl)
  obtain ⟨parent, rest, enclosing_eq, id_eq, rewinds_eq, fresh, nested⟩ := branched.active_spec
  have finished : Checkpoint.Grows outer.slots.size
      { Checkpoint.fresh id with rewinds := arms + 1 }
      { frame.active with locals := [], rewinds := frame.active.rewinds + 1 } :=
    ⟨id_eq, congrArg (· + 1) rewinds_eq, fun _ mem => by simp at mem⟩
  obtain ⟨-, other, others, -, sameEnclosing, ⟨-, rfl⟩ | ⟨-, -, rfl⟩⟩ := rewind_ok rewound
  · obtain ⟨rfl, rfl⟩ : parent = other ∧ rest = others := by
      simpa using enclosing_eq.symm.trans sameEnclosing
    refine ⟨⟨entrusts, .cons ⟨finished.id_eq, finished.rewinds_eq, finished.locals⟩ ?_⟩, rfl⟩
    cases nested with
    | cons grows outside =>
      refine .cons ⟨grows.id_eq, grows.rewinds_eq, fun slot mem => ?_⟩ outside
      rcases List.mem_append.mp mem with old | left
      · exact grows.locals slot old
      · exact .inr (fresh slot (List.mem_of_mem_filter left))
  · exact ⟨⟨entrusts, .cons finished (enclosing_eq ▸ nested)⟩, rfl⟩

end

theorem rewind_first (branched : outer.Branched frame id 0 slots) :
    ∃ next, frame.rewind id = .ok next ∧ outer.Branched next id 1 slots ∧
      next.active.locals = [] := by
  obtain ⟨parent, rest, parent_eq⟩ := branched.parentOf_eq
  obtain ⟨-, -, -, -, rewinds_eq, -, -⟩ := branched.active_spec
  cases rewound : frame.rewind id with
  | ok next => exact ⟨next, rfl, branched.rewound rewound⟩
  | error cause =>
    simp only [rewind, ensureOpen, branched.proper.recorded.isOpen, parent_eq, rewinds_eq,
      Bool.false_eq_true, if_false, if_true] at rewound
    cases rewound

/-- A later arm can be finished unless it leaves a slot. -/
theorem rewind_later (branched : outer.Branched frame id (arms + 1) slots) :
    (∃ next, frame.rewind id = .ok next ∧ frame.leftovers = []) ∨
      ∃ slot ∈ frame.leftovers, frame.rewind id = .error (.unresolvedBranchSlot id slot) := by
  obtain ⟨parent, rest, parent_eq⟩ := branched.parentOf_eq
  obtain ⟨-, -, -, -, rewinds_eq, -, -⟩ := branched.active_spec
  have later : frame.active.rewinds ≠ 0 := by simp [rewinds_eq]
  cases left_eq : frame.leftovers with
  | nil =>
    unfold leftovers at left_eq
    simp only [rewind, ensureOpen, branched.proper.recorded.isOpen, parent_eq, later, left_eq,
      Bool.false_eq_true, if_false]
    exact .inl ⟨_, rfl, trivial⟩
  | cons slot others =>
    unfold leftovers at left_eq
    simp only [rewind, ensureOpen, branched.proper.recorded.isOpen, parent_eq, later, left_eq,
      Bool.false_eq_true, if_false]
    exact .inr ⟨slot, List.mem_cons_self, rfl⟩

/-- A branch can be left once an arm is finished. -/
theorem restore (branched : outer.Branched frame id (arms + 1) slots)
    (settled : frame.active.locals = []) :
    ∃ next, frame.restore id = .ok next ∧ outer.Custody next slots := by
  obtain ⟨parent, rest, enclosing_eq, id_eq, rewinds_eq, -, nested⟩ := branched.active_spec
  have restored : frame.restore id = .ok { frame with
      active := { parent with events := parent.events ++ frame.active.events }
      enclosing := rest } := by
    unfold Allocator.restore ensureOpen parentOf
    rw [branched.proper.recorded.isOpen, if_pos id_eq, enclosing_eq, settled, rewinds_eq]
    rfl
  refine ⟨_, restored, branched.toEntrusts.of_same_standing (branched.proper.restore restored) rfl
    fun _ => rfl, ?_⟩
  cases nested with
  | cons grows outside => exact .cons ⟨grows.id_eq, grows.rewinds_eq, grows.locals⟩ outside

end Branched

theorem Custody.size_of_mem_leftovers (custody : frame.Custody next [])
    (begun : frame.active.locals = []) {slot} (left : slot ∈ next.leftovers) :
    (next.slot slot).size = 0 := by
  obtain ⟨mem, owned⟩ := List.mem_filter.mp left
  have fresh : frame.slots.size ≤ slot := by
    have nested := custody.nested
    unfold checkpoints at nested
    cases nested with
    | cons active _ => simpa [begun] using active.locals slot mem
  by_contra sized
  obtain ⟨holder, nobody, -⟩ := custody.only slot fresh ⟨owned, Nat.pos_of_ne_zero sized⟩
  simp at nobody

end StructWasm.Frame.Allocator

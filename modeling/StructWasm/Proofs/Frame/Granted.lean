import StructWasm.Proofs.Frame.Forest
import StructWasm.Proofs.Frame.Onward
import StructWasm.Proofs.Layout.Fields

/-!
# What was asked for

Whoever allocates a slot asks for a size and an alignment. Along every script the bytes
that the slot occupies keep the size, and they are aligned at least as much as was asked
for, through however many slots the bytes come to be shared. So the layout honours every
request, and the size of the frame has room for all of them.
-/

namespace StructWasm.Frame.Allocator

variable {frame next laid : Allocator}

def granted (frame : Allocator) : Step → List Allocation
  | .allocate size alignment => ((frame.allocate size alignment).toOption.map Prod.snd).toList
  | _ => []

/-- All that a script hands out. -/
def grants (frame : Allocator) : List Step → List Allocation
  | [] => []
  | step :: script => frame.granted step ++ (frame.attempt step).grants script

/-- A slot has the size that was asked for, and its bytes are aligned at least as much. -/
structure Honours (frame : Allocator) (allocation : Allocation) : Prop where
  inside : allocation.id < frame.slots.size
  size_eq : (frame.slot allocation.id).size = allocation.size
  power : allocation.alignment.isPowerOfTwo
  level_le : allocation.alignment ≤ frame.level allocation.id

/-- Aliases are rooted, and all slots are aligned to powers of two. -/
structure Steady (frame : Allocator) : Prop where
  rooted : frame.Rooted
  powers : ∀ id, (frame.slot id).alignment.isPowerOfTwo

namespace Steady

theorem new (policy : FreePolicy) (frameAlignment : Nat) :
    (Allocator.new policy frameAlignment).Steady :=
  ⟨.new policy frameAlignment, (Proper.new policy frameAlignment).powers⟩

/-- A call keeps what slots have, and honours what it hands out. -/
theorem apply (steady : frame.Steady) (known : step.Known frame)
    (ran : frame.apply step = .ok next) : next.Steady ∧
      ∀ allocation, allocation ∈ frame.granted step ∨ frame.Honours allocation →
        next.Honours allocation := by
  have rooted := steady.rooted.apply known ran
  have keeps : ∀ {allocation : Allocation}, frame.Honours allocation →
      (next.slot allocation.id).size = (frame.slot allocation.id).size →
      frame.level allocation.id ≤ next.level allocation.id → next.Honours allocation := by
    intro allocation honours size_eq level_le
    exact ⟨(isAliased_apply ran honours.inside).1, size_eq.trans honours.size_eq,
      honours.power, Nat.le_trans honours.level_le level_le⟩
  cases step with
  | allocate size alignment =>
    obtain ⟨fresh, alloc⟩ := allocate_of_apply ran
    obtain ⟨-, power, fresh_eq, after_eq⟩ := allocate_ok alloc
    have slot_eq := fun id => (congrArg (slot · id) after_eq).trans (slot_push frame _ id)
    refine ⟨⟨rooted, ?_⟩, ?_⟩
    · intro id
      rw [slot_eq]
      split
      · exact power
      · exact steady.powers id
    · rintro allocation (isGranted | honours)
      · obtain rfl : allocation = fresh := by simpa [granted, alloc, Except.toOption]
          using isGranted
        have here := slot_eq frame.slots.size
        rw [if_pos rfl] at here
        subst fresh_eq
        refine ⟨by simp [after_eq], congrArg Slot.size here, power, ?_⟩
        have root_eq : next.root frame.slots.size = frame.slots.size := by
          rw [Allocator.root, here, Option.getD_none]
        rw [level, root_eq, here]
      · obtain ⟨same, level_eq⟩ := steady.rooted.level_allocate alloc honours.inside
        exact keeps honours (by rw [same]) (Nat.le_of_eq level_eq.symm)
  | makeAlias id target =>
    have level_le := steady.rooted.level_le_makeAlias known.1 known.2 ran
    obtain ⟨-, -, -, -, rfl⟩ := makeAlias_ok ran
    refine ⟨⟨rooted, ?_⟩, ?_⟩
    · intro other
      rw [alignment_joined]
      split
      · exact max_rec' Nat.isPowerOfTwo (steady.powers other) (steady.powers id)
      · exact steady.powers other
    · intro allocation given
      exact keeps (given.resolve_left List.not_mem_nil)
        (slot_joined_of_kept Slot.size (fun _ _ => rfl) (fun _ _ => rfl) frame id _ _) (level_le _)
  | _ =>
    have same := sameSlots_apply rfl ran
    refine ⟨⟨rooted, fun id => same.alignment_eq id ▸ steady.powers id⟩, ?_⟩
    intro allocation given
    refine keeps (given.resolve_left List.not_mem_nil) (same.size_eq _) (Nat.le_of_eq ?_)
    rw [level, level, root_eq_of_aliasOf (same.alias_eq _), same.alignment_eq]

/-- A script honours all that it hands out. -/
theorem run (steady : frame.Steady) (named : frame.Named script) : (frame.run script).Steady ∧
      ∀ allocation, allocation ∈ frame.grants script ∨ frame.Honours allocation →
        (frame.run script).Honours allocation := by
  induction script generalizing frame with
  | nil => exact ⟨steady, fun allocation given => given.resolve_left List.not_mem_nil⟩
  | cons step script ih =>
    have attempted : (frame.attempt step).Steady ∧
        ∀ allocation, allocation ∈ frame.granted step ∨ frame.Honours allocation →
          (frame.attempt step).Honours allocation := by
      unfold attempt
      split
      · rename_i ran
        exact steady.apply named.1 ran
      · rename_i fault refused
        refine ⟨steady, fun allocation given => given.resolve_left ?_⟩
        cases step with
        | allocate size alignment =>
          rcases bind_eq_error.mp refused with failed | ⟨_, -, impossible⟩
          · simp [granted, failed, Except.toOption]
          · exact absurd impossible pure_ne_error
        | _ => exact List.not_mem_nil
    obtain ⟨after, honoured⟩ := ih attempted.1 named.2
    refine ⟨after, fun allocation given => honoured allocation ?_⟩
    rw [grants, List.mem_append, or_assoc, or_left_comm] at given
    exact given.imp_right (attempted.2 allocation)

end Steady

/-- After every script the layout puts each slot that has an address, alias or not, at a
multiple of the alignment that was asked for and inside the frame; and slots that share
their bytes have one size. -/
theorem layout_honours_grants
    (policy : FreePolicy)
    (frameAlignment : Nat)
    (script : List Step)
    (named : (new policy frameAlignment).Named script)
    {last : Allocator}
    (last_eq : (new policy frameAlignment).run script = last)
    (resolved : last.resolve = (laid, .ok ())) :
    ∃ size, laid.frameSize = some size ∧
      ∀ allocation ∈ (new policy frameAlignment).grants script,
        (∀ start, laid.offset? allocation.id = some start →
          allocation.alignment ∣ start ∧ start + allocation.size ≤ size) ∧
        ∀ other ∈ (new policy frameAlignment).grants script,
          last.root allocation.id = last.root other.id → allocation.size = other.size := by
  have recorded : last.Recorded := last_eq ▸ (Recorded.new policy frameAlignment).run script
  obtain ⟨steady, honoured⟩ := (Steady.new policy frameAlignment).run named
  rw [last_eq] at steady honoured
  obtain ⟨size, size_eq, -⟩ := exists_frameSize_of_resolve recorded.isOpen resolved
  refine ⟨size, size_eq, ?_⟩
  intro allocation isGranted
  have honours := honoured allocation (.inl isGranted)
  constructor
  · intro start lies
    obtain ⟨sameSize, same, within, multiple⟩ :=
      recorded.within_of_offset? steady.rooted steady.powers resolved honours.inside lies
    obtain rfl : size = sameSize := Option.some.inj (size_eq.symm.trans same)
    rw [honours.size_eq] at within
    exact ⟨(Layouts.dvd_of_isPowerOfTwo honours.power (steady.powers _) honours.level_le).trans
      multiple, within⟩
  · intro other otherGranted sameRoot
    have otherHonours := honoured other (.inl otherGranted)
    rw [← honours.size_eq, ← otherHonours.size_eq,
      ← (steady.rooted.root_spec honours.inside).2.2, sameRoot,
      (steady.rooted.root_spec otherHonours.inside).2.2]

/-- Slot 1 asks for the greatest alignment, and its bytes become those of slot 2 by way of
slot 0. Slot 3 makes a hole of odd size. -/
theorem layout_honours_chain :
    let script : List Step :=
      [.allocate 3 1, .allocate 8 16, .allocate 8 4, .allocate 8 2, .makeAlias 1 2,
        .makeAlias 2 3, .free 0, .allocate 2 2]
    let last := (new .strict 5).run script
    let laid := last.resolve.1
    ((new .strict 5).Named script ∧ last.resolve = (laid, .ok ()) ∧
        ⟨1, 8, 16⟩ ∈ (new .strict 5).grants script) ∧
      ∃ size start, laid.frameSize = some size ∧ laid.offset? 1 = some start ∧ 16 ∣ start ∧
        start + 8 ≤ size := by
  intro script last laid
  have named : (new .strict 5).Named script := by decide +kernel
  have resolved : last.resolve = (laid, .ok ()) := by decide +kernel
  have isGranted : ⟨1, 8, 16⟩ ∈ (new .strict 5).grants script := by decide +kernel
  obtain ⟨size, size_eq, honours⟩ := layout_honours_grants .strict 5 script named rfl resolved
  have lies : laid.offset? 1 = some 16 := by decide +kernel
  obtain ⟨aligned, within⟩ := (honours _ isGranted).1 16 lies
  exact ⟨⟨named, resolved, isGranted⟩, size, 16, size_eq, lies, aligned, within⟩

/-! ## The size of the frame -/

/-- If the alignment of a frame is a power of two, its size is the least multiple of it
that has room for all bytes up to the high-water mark. -/
theorem frameSize_least_multiple
    (policy : FreePolicy)
    {frameAlignment : Nat}
    (power : frameAlignment.isPowerOfTwo)
    (script : List Step)
    {last laid : Allocator}
    (last_eq : (new policy frameAlignment).run script = last)
    {size : Nat}
    (sized : last.size = (laid, .ok size)) :
    ∃ slots free, replay last.slots .empty last.timeline = (slots, .ok free) ∧
      IsLeast { multiple | frameAlignment ∣ multiple ∧ free.top ≤ multiple } size := by
  have recorded : last.Recorded := last_eq ▸ (Recorded.new policy frameAlignment).run script
  have alignment_eq : last.frameAlignment = frameAlignment := by
    rw [← last_eq]
    exact @run_induction (fun frame => frame.frameAlignment = frameAlignment)
      (fun before applied => by
        obtain ⟨-, _, _, _, _, rfl⟩ := apply_eq applied
        exact before) script
      (.new policy frameAlignment) (Nat.max_eq_left (Nat.pos_of_isPowerOfTwo power))
  unfold Allocator.size at sized
  split at sized
  · cases (Prod.mk.inj sized).2
  · rename_i settled resolved
    obtain ⟨slots, free, rounded, replayed, -, aligned, rounded_eq⟩ :=
      resolve_ok recorded.isOpen resolved
    rw [rounded_eq] at sized
    obtain rfl : rounded = size := by simpa using (Prod.mk.inj sized).2
    rw [alignment_eq] at aligned
    exact ⟨slots, free, replayed, isLeast_alignUp power aligned⟩

/-- Twenty bytes in a frame that is aligned to sixteen. -/
theorem frameSize_least_multiple_sixteen :
    let last := (new .lenient 16).run [.allocate 20 4]
    last.size.2 = .ok 32 ∧ ∃ slots free,
      replay last.slots .empty last.timeline = (slots, .ok free) ∧
      IsLeast { multiple | 16 ∣ multiple ∧ free.top ≤ multiple } 32 := by
  intro last
  have sized : last.size = (last.size.1, .ok 32) := by decide +kernel
  exact ⟨congrArg Prod.snd sized,
    frameSize_least_multiple .lenient ⟨4, rfl⟩ [.allocate 20 4] rfl sized⟩

/-- An alignment that is no power of two is not kept: the size is no multiple of it. -/
theorem frameSize_not_multiple :
    let last := (new .lenient 3).run [.allocate 4 4]
    last.size.2 = .ok 4 ∧ ¬IsLeast { multiple | 3 ∣ multiple ∧ 4 ≤ multiple } 4 := by
  intro last
  refine ⟨by decide +kernel, ?_⟩
  rintro ⟨⟨divides, -⟩, -⟩
  omega

end StructWasm.Frame.Allocator

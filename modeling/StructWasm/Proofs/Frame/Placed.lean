import StructWasm.Proofs.Frame.Custody
import StructWasm.Proofs.Frame.Disjoint

/-!
# Frames in which every slot is placed

If no record was discarded, the layout of a frame gives an address to every slot with
bytes: to a slot that owns its bytes when the replay comes to it, and to an alias
through the slot whose bytes it shares. A frame that has no layout is too large.
-/

namespace StructWasm.Frame.Allocator

/-! ## Frames that are laid out -/

variable {free : FreeList}

variable {slots : Array Slot} {id : SlotId}

/-- The replay changes the addresses of slots with bytes only. -/
theorem replay_of_kept {α : Type} (field : Slot → α)
    (kept : ∀ slot offset, 0 < slot.size → field { slot with offset } = field slot)
    (replayed : replay slots free events = (laid, out)) (id : SlotId) :
    field (laid.getD id .absent) = field (slots.getD id .absent) := by
  induction events generalizing slots free with
  | nil =>
    obtain ⟨rfl, -⟩ := Prod.mk.inj replayed
    rfl
  | cons event events ih =>
    cases event with
    | allocate other =>
      simp only [replay] at replayed
      split at replayed
      · exact ih replayed
      · rename_i placing
        split at replayed
        · obtain ⟨rfl, -⟩ := Prod.mk.inj replayed
          rfl
        · rename_i start rest placed
          have sized : 0 < (slots.getD other .absent).size := by
            by_contra unsized
            simp_all
          rw [ih replayed, getD_modify_offset sized]
          split
          · rename_i same
            rw [same, kept _ _ sized]
          · rfl
    | free other =>
      simp only [replay] at replayed
      split at replayed
      · exact ih replayed
      · split at replayed
        · exact ih replayed
        · exact ih replayed

theorem exists_frameSize_of_resolve {frame laid : Allocator} (isOpen : frame.resolved = false)
    (resolved : frame.resolve = (laid, .ok ())) :
    ∃ size, laid.frameSize = some size ∧ size < addressLimit := by
  obtain ⟨_, _, size, -, -, aligned, size_eq⟩ := resolve_ok isOpen resolved
  exact ⟨size, size_eq, (le_alignUp aligned).2.2⟩

/-- The alignment of the bytes that a slot occupies. -/
def level (frame : Allocator) (id : SlotId) : Nat :=
  (frame.slot (frame.root id)).alignment

variable {frame laid : Allocator}

/-- A slot lies where the slot lies whose bytes it shares. -/
theorem offset?_eq_of_root
    (aliases : ∀ id, (slots.getD id .absent).aliasOf = (frame.slot id).aliasOf)
    (slots_eq : laid.slots = slots.map (settleAlias slots)) (id : SlotId) :
    laid.offset? id = (slots.getD (frame.root id) .absent).offset := by
  unfold offset? root
  rw [Allocator.slot, slots_eq]
  cases shared : (frame.slot id).aliasOf with
  | none => rw [getD_map_settleAlias ((aliases id).trans shared), Option.getD_none]
  | some root =>
    have points : (slots.getD id .absent).aliasOf = some root := (aliases id).trans shared
    have there : id < slots.size := by
      by_contra beyond
      simp [Nat.le_of_not_lt beyond, Slot.absent] at points
    have settled : (slots.map (settleAlias slots)).getD id .absent =
        settleAlias slots (slots.getD id .absent) := by
      simp [there]
    rw [settled, settleAlias, points, Option.getD_some]

/-- A slot with an address lies inside the frame, aligned. -/
theorem Recorded.within_of_offset? (recorded : frame.Recorded) (rooted : frame.Rooted)
    (powers : ∀ id, (frame.slot id).alignment.isPowerOfTwo)
    (resolved : frame.resolve = (laid, .ok ())) (inside : id < frame.slots.size)
    (lies : laid.offset? id = some start) :
    ∃ size, laid.frameSize = some size ∧ start + (frame.slot id).size ≤ size ∧
      frame.level id ∣ start := by
  obtain ⟨slots, free, size, replayed, slots_eq, rounded, size_eq⟩ :=
    resolve_ok recorded.isOpen resolved
  obtain ⟨laidOut, aliases⟩ := replay_laidOut (.start recorded.unplaced)
    (by simpa using recorded.valid) replayed
  have sizes := replay_of_kept Slot.size (fun _ _ _ => rfl) replayed
  have alignments := replay_of_kept Slot.alignment (fun _ _ _ => rfl) replayed
  rw [offset?_eq_of_root aliases slots_eq] at lies
  obtain ⟨within, multiple⟩ := laidOut.within _ start lies
  refine ⟨size, size_eq, ?_, ?_⟩
  · rw [show (slots.getD (frame.root id) .absent).size = (frame.slot id).size from
      (sizes _).trans (rooted.root_spec inside).2.2] at within
    exact Nat.le_trans within (le_alignUp rounded).1
  · rw [alignments] at multiple
    exact multiple (powers _)

theorem Recorded.offset?_eq_of_shared (recorded : frame.Recorded)
    (resolved : frame.resolve = (laid, .ok ())) {root}
    (shared : (frame.slot id).aliasOf = some root) (alone : (frame.slot root).aliasOf = none) :
    laid.offset? id = laid.offset? root := by
  obtain ⟨slots, free, -, replayed, slots_eq, -⟩ := resolve_ok recorded.isOpen resolved
  have aliases := replay_of_kept Slot.aliasOf (fun _ _ _ => rfl) replayed
  rw [offset?_eq_of_root aliases slots_eq, offset?_eq_of_root aliases slots_eq]
  unfold Allocator.root
  rw [shared, alone, Option.getD_some, Option.getD_none]

/-- A slot that is no alias gets an address if it came and has bytes. -/
theorem Recorded.isSome_offset?_iff (recorded : frame.Recorded)
    (resolved : frame.resolve = (laid, .ok ())) (alone : (frame.slot id).aliasOf = none) :
    (laid.offset? id).isSome ↔ 0 < (frame.slot id).size ∧ .allocate id ∈ frame.timeline := by
  obtain ⟨slots, free, -, replayed, slots_eq, -⟩ := resolve_ok recorded.isOpen resolved
  obtain ⟨laidOut, aliases⟩ := replay_laidOut (.start recorded.unplaced)
    (by simpa using recorded.valid) replayed
  have sizes := replay_of_kept Slot.size (fun _ _ _ => rfl) replayed
  have root_eq : frame.root id = id := by rw [Allocator.root, alone, Option.getD_none]
  rw [offset?_eq_of_root aliases slots_eq, root_eq]
  rcases Nat.eq_zero_or_pos (frame.slot id).size with empty | bytes
  · -- Only slots with bytes are placed, and this one was not placed before.
    have unplaced := replay_of_kept (fun slot => if slot.size = 0 then slot.offset else none)
      (fun slot offset bytes => by simp [Nat.ne_of_gt bytes]) replayed id
    have before : (frame.slots.getD id .absent).offset = none := recorded.unplaced id
    have size_eq : (frame.slots.getD id .absent).size = 0 := empty
    simp only [sizes, size_eq, if_true, before] at unplaced
    rw [unplaced, empty]
    simp
  · have placed := laidOut.placed id ((aliases id).trans alone) ((sizes id).symm ▸ bytes)
    simpa [bytes] using placed

/-- The layout puts every slot with bytes inside the frame, aligned. -/
theorem Proper.exists_offset? (proper : frame.Proper) (resolved : frame.resolve = (laid, .ok ()))
    (bytes : frame.HasBytes id) :
    ∃ start size, laid.offset? id = some start ∧ laid.frameSize = some size ∧
      start + (frame.slot id).size ≤ size ∧ frame.level id ∣ start := by
  have recorded := proper.recorded
  have inside : id < frame.slots.size := by
    by_contra beyond
    rw [HasBytes, slot_of_size_le (Nat.le_of_not_lt beyond)] at bytes
    exact Nat.lt_irrefl 0 bytes
  obtain ⟨rootInside, rootOwns, sameSize⟩ := proper.rooted.root_spec inside
  -- The slot that owns the bytes has come, so the replay has placed it.
  have placed := (recorded.isSome_offset?_iff resolved rootOwns).mpr
    ⟨sameSize ▸ bytes, proper.complete _ rootInside⟩
  obtain ⟨start, start_eq⟩ := Option.isSome_iff_exists.mp placed
  have lies : laid.offset? id = some start := by
    unfold root at rootOwns start_eq
    cases shared : (frame.slot id).aliasOf with
    | none => rwa [shared] at start_eq
    | some root =>
      rw [shared] at rootOwns start_eq
      exact (recorded.offset?_eq_of_shared resolved shared rootOwns).trans start_eq
  obtain ⟨size, size_eq, within, multiple⟩ :=
    recorded.within_of_offset? proper.rooted proper.powers resolved inside lies
  exact ⟨start, size, lies, size_eq, within, multiple⟩

/-! ## Frames that are too large -/

theorem eq_of_replay_error {laid} (replayed : replay slots free events = (laid, .error cause)) :
    cause = .frameTooLarge := by
  induction slots, free, events using replay.induct with
  | case1 => simp [replay] at replayed
  | case2 slots free id rest slot skipped ih =>
    rw [replay, if_pos skipped] at replayed
    exact ih replayed
  | case3 slots free id rest slot owns fault failed =>
    rw [replay, if_neg owns, failed] at replayed
    injection (Prod.mk.inj replayed).2 with same
    exact same ▸ (place_error failed).1
  | case4 slots free id rest slot owns start after placed ih =>
    rw [replay, if_neg owns, placed] at replayed
    exact ih replayed
  | case5 slots free id rest slot skipped ih =>
    rw [replay, if_pos skipped] at replayed
    exact ih replayed
  | case6 slots free id rest slot owns unplaced ih =>
    rw [replay, if_neg owns, unplaced] at replayed
    exact ih replayed
  | case7 slots free id rest slot owns start placed ih =>
    rw [replay, if_neg owns, placed] at replayed
    exact ih replayed

theorem eq_of_resolve_error {frame laid : Allocator}
    (resolved : frame.resolve = (laid, .error cause)) : cause = .frameTooLarge := by
  unfold resolve at resolved
  split at resolved
  · simp at resolved
  · split at resolved
    · rename_i replayed
      injection (Prod.mk.inj resolved).2 with same
      exact same ▸ eq_of_replay_error replayed
    · split at resolved
      · rename_i failed
        injection (Prod.mk.inj resolved).2 with same
        exact same ▸ (alignUp_error failed).1
      · simp at resolved

end StructWasm.Frame.Allocator

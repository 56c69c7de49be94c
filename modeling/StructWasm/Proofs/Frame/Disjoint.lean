import StructWasm.Proofs.Frame.FreeList
import StructWasm.Proofs.Frame.Recorded

/-!
# Slots in use together do not overlap

The layout replays the record over a free list. While it does, the bytes of the
slots that are there are not available, and slots that were there together lie
apart. Scripts keep slots that were in use together there together in the record,
so the layout keeps them apart.
-/

namespace StructWasm.Frame

open List

/-- Bytes of the frame that a slot occupies; none before it has a place. -/
def Slot.bytes (slot : Slot) : Set Nat :=
  { byte | ∃ start, slot.offset = some start ∧ start ≤ byte ∧ byte < start + slot.size }

variable {byte : Nat}

theorem Slot.mem_bytes {slot : Slot} (placed : slot.offset = some start) :
    byte ∈ slot.bytes ↔ start ≤ byte ∧ byte < start + slot.size := by
  simp [bytes, placed]

theorem Slot.size_pos_of_mem_bytes {slot : Slot} (covered : byte ∈ slot.bytes) : 0 < slot.size := by
  obtain ⟨start, -, low, high⟩ := covered
  omega

/-! ## One more event of a record -/

theorem coexist_concat (together : Coexist (events ++ [event]) first second) :
    Coexist events first second ∨
      (Live (events ++ [event]) first ∧ Live (events ++ [event]) second) := by
  obtain ⟨past, before, live⟩ := together
  rcases prefix_concat_iff.mp before with rfl | inside
  · exact .inr live
  · exact .inl ⟨past, inside, live⟩

theorem live_concat_allocate {id} (live : Live (events ++ [.allocate id]) other) :
    other = id ∨ Live events other := by
  simp only [Live, mem_append, mem_singleton, Event.allocate.injEq, reduceCtorEq, or_false] at live
  rcases live.1 with came | same
  · exact .inr ⟨came, live.2⟩
  · exact .inl same

theorem live_concat_free {id} (live : Live (events ++ [.free id]) other) :
    other ≠ id ∧ Live events other := by
  simp only [Live, mem_append, mem_singleton, Event.free.injEq, reduceCtorEq,
    or_false, not_or] at live
  exact ⟨live.2.2, live.1, live.2.1⟩

/-! ## The invariant of the replay -/

namespace Allocator

/-- What the replay has established after a part of the record. Aliases have no
bytes of their own, and nothing is said about them. -/
structure LaidOut (slot : SlotId → Slot) (free : FreeList) (past : List Event) : Prop where
  wellFormed : free.WellFormed
  /-- The slots that have a place are those that came. -/
  placed : ∀ id, (slot id).aliasOf = none → 0 < (slot id).size →
    ((slot id).offset.isSome ↔ .allocate id ∈ past)
  /-- A slot that has a place is aligned and lies in the frame. -/
  within : ∀ id start, (slot id).offset = some start →
    start + (slot id).size ≤ free.top ∧
      ((slot id).alignment.isPowerOfTwo → (slot id).alignment ∣ start)
  /-- The bytes of a slot that is there are not available. -/
  taken : ∀ id, Live past id → (slot id).aliasOf = none →
    ∀ byte ∈ (slot id).bytes, ¬free.Available byte
  /-- Slots that were there together lie apart. -/
  apart : ∀ first second, first ≠ second → Coexist past first second →
    (slot first).aliasOf = none → (slot second).aliasOf = none →
    ∀ byte ∈ (slot first).bytes, byte ∉ (slot second).bytes

namespace LaidOut

variable {slot : SlotId → Slot} {free : FreeList} {past : List Event} {id : SlotId}

theorem start (unplaced : ∀ id, (slot id).offset = none) : LaidOut slot .empty [] where
  wellFormed := .empty
  placed := fun id _ _ => by simp [unplaced]
  within := fun id start placed => by simp [unplaced] at placed
  taken := fun id live => by simp [Live] at live
  apart := fun first second _ together => by
    obtain ⟨past, before, live, -⟩ := together
    rw [prefix_nil] at before
    simp [before, Live] at live

/-- Slots that lie apart for every pair that is there lie apart for every pair that was
there together. -/
theorem apart_concat (laidOut : LaidOut slot free past)
    (liveApart : ∀ first second, first ≠ second →
      Live (past ++ [event]) first → Live (past ++ [event]) second →
      (slot first).aliasOf = none → (slot second).aliasOf = none →
      ∀ byte ∈ (slot first).bytes, byte ∉ (slot second).bytes) (first second : SlotId)
    (distinct : first ≠ second) (together : Coexist (past ++ [event]) first second) :
    (slot first).aliasOf = none → (slot second).aliasOf = none →
    ∀ byte ∈ (slot first).bytes, byte ∉ (slot second).bytes := by
  rcases coexist_concat together with earlier | ⟨firstLive, secondLive⟩
  · exact laidOut.apart first second distinct earlier
  · exact liveApart first second distinct firstLive secondLive

/-- A slot that takes no bytes of its own comes. -/
theorem skipAllocate (laidOut : LaidOut slot free past)
    (noBytes : (slot id).aliasOf = none → (slot id).size = 0) :
    LaidOut slot free (past ++ [.allocate id]) := by
  have uncovered : ∀ byte, (slot id).aliasOf = none → byte ∉ (slot id).bytes := by
    intro byte owns covered
    have := Slot.size_pos_of_mem_bytes covered
    have := noBytes owns
    omega
  refine ⟨laidOut.wellFormed, ?_, laidOut.within, ?_, laidOut.apart_concat ?_⟩
  · intro other owns positive
    have ne : other ≠ id := by
      rintro rfl
      have := noBytes owns
      omega
    simpa [ne] using laidOut.placed other owns positive
  · intro other live owns byte covered
    rcases live_concat_allocate live with rfl | before
    · exact absurd covered (uncovered byte owns)
    · exact laidOut.taken other before owns byte covered
  · intro first second distinct firstLive secondLive firstOwns secondOwns byte covered
    rcases live_concat_allocate firstLive with rfl | firstBefore
    · exact absurd covered (uncovered byte firstOwns)
    · rcases live_concat_allocate secondLive with rfl | secondBefore
      · exact uncovered byte secondOwns
      · exact laidOut.apart first second distinct
          ⟨past, prefix_rfl, firstBefore, secondBefore⟩ firstOwns secondOwns byte covered

variable {start : Nat}

variable (laidOut : LaidOut slot free past)
include laidOut

/-- A slot that was given available bytes comes. -/
theorem allocate (fresh : .allocate id ∉ past) (takes : free.Takes start (slot id).size rest)
    (grows : free.top ≤ rest.top ∧ start + (slot id).size ≤ rest.top)
    (aligned : (slot id).alignment.isPowerOfTwo → (slot id).alignment ∣ start)
    {next : SlotId → Slot} (next_eq : ∀ other, next other =
      if other = id then { slot id with offset := some start } else slot other) :
    LaidOut next rest (past ++ [.allocate id]) := by
  have next_same : next id = { slot id with offset := some start } := by simp [next_eq]
  have next_other : ∀ {other : SlotId}, other ≠ id → next other = slot other := by
    intro other ne
    simp [next_eq, ne]
  have different_of_came : ∀ {other : SlotId}, .allocate other ∈ past → other ≠ id := by
    rintro other came rfl
    exact fresh came
  have bytes_same : ∀ byte, byte ∈ (next id).bytes ↔
      start ≤ byte ∧ byte < start + (slot id).size := by
    intro byte
    rw [next_same]
    exact Slot.mem_bytes rfl
  -- the new slot lies apart from every slot that is there, whose bytes are taken
  have newApart : ∀ other, other ≠ id → Live past other → (next other).aliasOf = none →
      ∀ byte ∈ (next id).bytes, byte ∉ (next other).bytes := by
    intro other ne live owns byte covered otherCovered
    rw [next_other ne] at owns otherCovered
    obtain ⟨low, high⟩ := (bytes_same byte).mp covered
    exact laidOut.taken other live owns byte otherCovered (takes.available byte low high)
  refine ⟨takes.wellFormed, ?_, ?_, ?_, ?_⟩
  · intro other owns positive
    by_cases same : other = id
    · subst same
      simp [next_same]
    · rw [next_other same] at owns positive ⊢
      simpa [same] using laidOut.placed other owns positive
  · intro other there placed
    by_cases same : other = id
    · subst same
      rw [next_same] at placed ⊢
      obtain rfl : start = there := by simpa using placed
      exact ⟨grows.2, aligned⟩
    · rw [next_other same] at placed ⊢
      obtain ⟨inside, multiple⟩ := laidOut.within other there placed
      exact ⟨Nat.le_trans inside grows.1, multiple⟩
  · intro other live owns byte covered
    rw [takes.remaining]
    rintro ⟨available, outside⟩
    rcases live_concat_allocate live with rfl | before
    · exact outside ((bytes_same byte).mp covered)
    · rw [next_other (different_of_came before.1)] at owns covered
      exact laidOut.taken other before owns byte covered available
  · intro first second distinct together firstOwns secondOwns byte covered
    have earlier : Coexist past first second → byte ∉ (next second).bytes := by
      rintro ⟨part, inPast, firstLive, secondLive⟩
      rw [next_other (different_of_came (inPast.subset firstLive.1))] at firstOwns covered
      rw [next_other (different_of_came (inPast.subset secondLive.1))] at secondOwns ⊢
      exact laidOut.apart first second distinct ⟨part, inPast, firstLive, secondLive⟩
        firstOwns secondOwns byte covered
    rcases coexist_concat together with together | ⟨firstLive, secondLive⟩
    · exact earlier together
    rcases live_concat_allocate firstLive with rfl | firstBefore
    · rcases live_concat_allocate secondLive with rfl | secondBefore
      · exact absurd rfl distinct
      · exact newApart second distinct.symm secondBefore secondOwns byte covered
    · rcases live_concat_allocate secondLive with rfl | secondBefore
      · intro secondCovered
        exact newApart first distinct firstBefore firstOwns byte secondCovered covered
      · exact earlier ⟨past, prefix_rfl, firstBefore, secondBefore⟩

theorem skipFree : LaidOut slot free (past ++ [.free id]) := by
  refine ⟨laidOut.wellFormed, ?_, laidOut.within, ?_, laidOut.apart_concat ?_⟩
  · intro other owns positive
    simpa using laidOut.placed other owns positive
  · intro other live
    exact laidOut.taken other (live_concat_free live).2
  · intro first second distinct firstLive secondLive
    exact laidOut.apart first second distinct ⟨past, prefix_rfl,
      (live_concat_free firstLive).2, (live_concat_free secondLive).2⟩

/-- A slot goes and gives its bytes back. -/
theorem giveBack (live : Live past id)
    (owns : (slot id).aliasOf = none) (positive : 0 < (slot id).size)
    (offset_eq : (slot id).offset = some start) :
    LaidOut slot (free.release start (slot id).size) (past ++ [.free id]) := by
  obtain ⟨wellFormed, available⟩ := release_spec laidOut.wellFormed positive
    fun byte low high => laidOut.taken id live owns byte
      ((Slot.mem_bytes offset_eq).mpr ⟨low, high⟩)
  refine { laidOut.skipFree with wellFormed, taken := ?_ }
  intro other otherLive otherOwns byte covered
  obtain ⟨ne, before⟩ := live_concat_free otherLive
  rw [available, not_or]
  refine ⟨laidOut.taken other before otherOwns byte covered, fun given => ?_⟩
  exact laidOut.apart other id ne ⟨past, prefix_rfl, before, live⟩ otherOwns owns
    byte covered ((Slot.mem_bytes offset_eq).mpr given)

end LaidOut

/-! ## The layout -/

variable {slots : Array Slot} {frame laid : Allocator}

theorem getD_modify_offset {id} (sized : 0 < (slots.getD id .absent).size) (offset : Option Nat)
    (other : SlotId) : (slots.modify id fun slot => { slot with offset }).getD other .absent =
      if other = id then { slots.getD id .absent with offset } else slots.getD other .absent := by
  have inside : id < slots.size := by
    by_contra beyond
    simp [Nat.le_of_not_lt beyond, Slot.absent] at sized
  by_cases same : other = id
  · subst same
    simp [inside, Array.getElem_modify]
  · simp [Array.getElem?_modify, same, Ne.symm same]

/-- The replay of a valid record lays its slots out and leaves the aliases as they
are. -/
theorem replay_laidOut {laid free final past events}
    (laidOut : LaidOut (fun id => slots.getD id .absent) free past)
    (valid : Valid (past ++ events)) (replayed : replay slots free events = (laid, .ok final)) :
    LaidOut (fun id => laid.getD id .absent) final (past ++ events) ∧
      ∀ id, (laid.getD id .absent).aliasOf = (slots.getD id .absent).aliasOf := by
  induction events generalizing slots free past with
  | nil =>
    obtain ⟨rfl, rfl⟩ : slots = laid ∧ free = final := by simpa [replay] using replayed
    exact ⟨by simpa using laidOut, fun _ => rfl⟩
  | cons event events ih =>
    rw [append_cons] at valid ⊢
    cases event with
    | allocate id =>
      have fresh := valid.of_append.of_concat.2.1 _ rfl
      simp only [replay] at replayed
      split at replayed
      · rename_i skipped
        refine ih (laidOut.skipAllocate fun owns => ?_) valid replayed
        by_contra sized
        have unplaced := mt (laidOut.placed id owns (Nat.pos_of_ne_zero sized)).mp fresh
        simp_all
      · rename_i kept
        split at replayed
        · simp at replayed
        · rename_i start rest placed
          have sized : 0 < (slots.getD id .absent).size := by
            by_contra unsized
            simp_all
          have moved := getD_modify_offset sized (some start)
          have next := laidOut.allocate fresh (place_takes laidOut.wellFormed sized placed)
            (place_within laidOut.wellFormed placed) (fun power => dvd_of_place power placed)
            moved
          obtain ⟨result, aliases⟩ := ih next valid replayed
          refine ⟨result, fun other => (aliases other).trans ?_⟩
          rw [moved]
          split
          · rename_i same
            rw [same]
          · rfl
    | free id =>
      have live := valid.of_append.of_concat.2.2 _ rfl
      simp only [replay] at replayed
      split at replayed
      · exact ih laidOut.skipFree valid replayed
      · rename_i kept
        simp only [Bool.or_eq_true, decide_eq_true_eq, not_or, Option.not_isSome_iff_eq_none]
          at kept
        split at replayed
        · exact ih laidOut.skipFree valid replayed
        · rename_i start offset_eq
          exact ih (laidOut.giveBack live kept.2 (Nat.pos_of_ne_zero kept.1) offset_eq)
            valid replayed

theorem getD_map_settleAlias {id} (owns : (slots.getD id .absent).aliasOf = none) :
    (slots.map (settleAlias slots)).getD id .absent = slots.getD id .absent := by
  by_cases inside : id < slots.size
  · simp_all [settleAlias]
  · simp [Nat.le_of_not_lt inside]

theorem resolve_ok (isOpen : frame.resolved = false) (resolved : frame.resolve = (laid, .ok ())) :
    ∃ slots free size, replay frame.slots .empty frame.timeline = (slots, .ok free) ∧
      laid.slots = slots.map (settleAlias slots) ∧
      alignUp free.top frame.frameAlignment = .ok size ∧ laid.frameSize = some size := by
  simp only [resolve, isOpen, Bool.false_eq_true, if_false] at resolved
  split at resolved
  · simp at resolved
  · rename_i slots free replayed
    split at resolved
    · simp at resolved
    · rename_i size aligned
      simp only [Prod.mk.injEq, and_true] at resolved
      rw [← resolved]
      exact ⟨slots, free, size, replayed, rfl, aligned, rfl⟩

/-- The layout keeps slots apart that have met. -/
theorem Recorded.disjoint_of_met (recorded : frame.Recorded)
    (resolved : frame.resolve = (laid, .ok ())) {first second} (distinct : first ≠ second)
    (met : frame.Met first second) (firstOwns : frame.isAliased first = false)
    (secondOwns : frame.isAliased second = false) :
    Disjoint (laid.slot first).bytes (laid.slot second).bytes := by
  obtain ⟨slots, free, -, replayed, slots_eq, -⟩ := resolve_ok recorded.isOpen resolved
  obtain ⟨laidOut, aliases⟩ := replay_laidOut (.start recorded.unplaced)
    (by simpa using recorded.valid) replayed
  have owns : ∀ {id : SlotId}, frame.isAliased id = false →
      (slots.getD id .absent).aliasOf = none := by
    intro id notAliased
    rw [aliases]
    exact Option.not_isSome_iff_eq_none.mp (ne_true_of_eq_false notAliased)
  have slot_eq : ∀ {id : SlotId}, frame.isAliased id = false →
      laid.slot id = slots.getD id .absent := by
    intro id notAliased
    rw [Allocator.slot, slots_eq, getD_map_settleAlias (owns notAliased)]
  have came : ∀ {id : SlotId} {byte : Nat}, frame.isAliased id = false →
      byte ∈ (slots.getD id .absent).bytes → .allocate id ∈ frame.timeline := by
    intro id byte notAliased covered
    have positive := Slot.size_pos_of_mem_bytes covered
    obtain ⟨start, placed, -⟩ := covered
    exact (laidOut.placed id (owns notAliased) positive).mp (Option.isSome_of_eq_some placed)
  rw [slot_eq firstOwns, slot_eq secondOwns, Set.disjoint_left]
  intro byte firstCovered secondCovered
  have together := met (came firstOwns firstCovered) (came secondOwns secondCovered)
    firstOwns secondOwns
  exact laidOut.apart first second distinct (by simpa using together) (owns firstOwns)
    (owns secondOwns) byte firstCovered secondCovered

/-- Two slots that were both in use at some moment of a script, and that are no aliases
when the frame is laid out after it, do not overlap. -/
theorem disjoint_of_in_use_together
    (policy : FreePolicy)
    (frameAlignment : Nat)
    (before after : List Step)
    {moment last laid : Allocator}
    (moment_eq : (new policy frameAlignment).run before = moment)
    (last_eq : moment.run after = last)
    (resolved : last.resolve = (laid, .ok ()))
    {first second : SlotId}
    (distinct : first ≠ second)
    (firstInUse : (moment.slot first).inUse = true)
    (secondInUse : (moment.slot second).inUse = true)
    (firstOwns : last.isAliased first = false)
    (secondOwns : last.isAliased second = false) :
    Disjoint (laid.slot first).bytes (laid.slot second).bytes := by
  have recorded : moment.Recorded := moment_eq ▸ (Recorded.new policy frameAlignment).run before
  have inside : ∀ {id : SlotId}, (moment.slot id).inUse = true → id < moment.slots.size := by
    intro id inUse
    by_contra beyond
    simp [slot_of_size_le (Nat.le_of_not_lt beyond), Slot.absent] at inUse
  have met := (recorded.met firstInUse secondInUse).run recorded (inside firstInUse)
    (inside secondInUse) after
  rw [last_eq] at met
  exact (last_eq ▸ recorded.run after : last.Recorded).disjoint_of_met resolved distinct met
    firstOwns secondOwns

/-- Slots 1 and 2 were in use together in an arm and lie apart, although slot 4 takes
the bytes of slot 1 again once it is gone. -/
theorem disjoint_across_branch :
    let before : List Step :=
      [.allocate 8 8, .checkpoint, .allocate 16 8, .free 7, .allocate 12 4]
    let after : List Step :=
      [.free 1, .rewind 1, .allocate 12 4, .makeAlias 3 2, .restore 1, .allocate 16 8, .free 0]
    let laid := (((new .strict 16).run before).run after).resolve.1
    (laid.offset? 1 = some 8 ∧ laid.offset? 2 = some 24 ∧ laid.offset? 4 = some 8) ∧
      Disjoint (laid.slot 1).bytes (laid.slot 2).bytes := by
  intro before after laid
  refine ⟨by decide +kernel, ?_⟩
  exact disjoint_of_in_use_together .strict 16 before after rfl rfl
    (show Allocator.resolve _ = (laid, .ok ()) by decide +kernel)
    (by decide) (by decide +kernel) (by decide +kernel) (by decide +kernel) (by decide +kernel)

end Allocator
end StructWasm.Frame

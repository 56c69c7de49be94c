import StructWasm.Proofs.LocalPool

/-!
# Locals that are handed out

A local that is handed out is none of those that are handed out already, even where a
slot is used again. Different locals of a pool get different numbers.
-/

namespace StructWasm.LocalPool

/-- A local is a parameter or a slot that is handed out. -/
def Holds (pool : LocalPool) (ref : LocalRef) : Prop :=
  match ref.place with
  | .param pos => pool.params[pos]? = some ref.type
  | .slot id => pool.slots[id]? = some { type := ref.type, inUse := true }

/-- The slots that were given back are not in use, and each of them is listed once. -/
structure InOrder (pool : LocalPool) : Prop where
  nodup : pool.freed.Nodup
  unused : ∀ id ∈ pool.freed, ∃ type, pool.slots[id]? = some { type, inUse := false }

variable {pool next : LocalPool} {ref other : LocalRef}

theorem Holds.has (holds : pool.Holds ref) : pool.Has ref := by
  obtain ⟨type, place⟩ := ref
  cases place with
  | param pos => exact holds
  | slot id =>
    change pool.slots[id]? = _ at holds
    simp [Has, types, holds]

theorem Has.eq_of_place_eq (has : pool.Has ref) (hasOther : pool.Has other)
    (same : ref.place = other.place) : ref = other := by
  obtain ⟨type, place⟩ := ref
  obtain ⟨otherType, otherPlace⟩ := other
  obtain rfl : place = otherPlace := same
  unfold Has at has hasOther
  cases place <;>
  · injection has.symm.trans hasOther with same
    exact congrArg (LocalRef.mk · _) same

theorem getElem?_setInUse (pool : LocalPool) (id pos : Nat) (inUse : Bool) :
    (pool.setInUse id inUse).slots[pos]? = if id = pos then
        (pool.slots[pos]?).map fun slot => { slot with inUse }
      else
        pool.slots[pos]? := by
  unfold setInUse
  rw [Array.getElem?_modify]

theorem Holds.setInUse {id} (holds : pool.Holds other) (ne : other.place ≠ .slot id)
    (inUse : Bool) (freed : List Nat) :
    LocalPool.Holds { pool.setInUse id inUse with freed } other := by
  obtain ⟨type, place⟩ := other
  cases place with
  | param pos => exact holds
  | slot pos =>
    change (pool.setInUse id inUse).slots[pos]? = _
    rw [getElem?_setInUse, if_neg]
    · exact holds
    · rintro rfl
      exact ne rfl

namespace InOrder

variable (ordered : pool.InOrder)
include ordered

/-- A slot that was given back and is handed out again is none of those that are
handed out. -/
theorem reuse {type id} (found : pool.reusable? type = some id) :
    InOrder { pool.setInUse id true with freed := pool.freed.erase id } ∧
      (pool.setInUse id true).slots[id]? = some { type, inUse := true } ∧
      ∀ other, pool.Holds other → other.place ≠ .slot id := by
  obtain ⟨held, unused⟩ := ordered.unused id (List.mem_of_find?_eq_some found)
  obtain rfl : held = type := by simpa [unused] using List.find?_some found
  refine ⟨⟨ordered.nodup.erase id, ?_⟩, ?_, ?_⟩
  · intro pos left
    obtain ⟨ne, mem⟩ := (ordered.nodup.mem_erase_iff).mp left
    change ∃ type, (pool.setInUse id true).slots[pos]? = _
    rw [getElem?_setInUse, if_neg (Ne.symm ne)]
    exact ordered.unused pos mem
  · rw [getElem?_setInUse, if_pos rfl, unused]
    rfl
  · rintro ⟨otherType, place⟩ holds rfl
    change pool.slots[id]? = _ at holds
    rw [unused] at holds
    cases holds

/-- A new local is none of those that are handed out. -/
theorem allocate {type} (alloc : pool.allocate type = .ok (next, ref)) :
    next.InOrder ∧ next.Holds ref ∧ ∀ other, pool.Holds other → next.Holds other ∧ other ≠ ref := by
  unfold LocalPool.allocate at alloc
  split at alloc
  · cases alloc
  · split at alloc
    · rename_i id found
      obtain ⟨rfl, rfl⟩ : _ = next ∧ _ = ref := by simpa using alloc
      obtain ⟨stays, marked, fresh⟩ := ordered.reuse found
      refine ⟨stays, marked, ?_⟩
      intro other holds
      refine ⟨holds.setInUse (fresh other holds) true _, ?_⟩
      rintro rfl
      exact fresh _ holds rfl
    · obtain ⟨rfl, rfl⟩ : _ = next ∧ _ = ref := by simpa using alloc
      have kept {id : Nat} {slot : LocalSlot} (present : pool.slots[id]? = some slot) :
          (pool.slots.push { type, inUse := true })[id]? = some slot := by
        have inside := (Array.getElem?_eq_some_iff.mp present).1
        rw [Array.getElem?_push, if_neg (Nat.ne_of_lt inside)]
        exact present
      refine ⟨⟨ordered.nodup, ?_⟩, by simp [Holds], ?_⟩
      · intro id mem
        obtain ⟨held, unused⟩ := ordered.unused id mem
        exact ⟨held, kept unused⟩
      · rintro ⟨otherType, place⟩ holds
        cases place with
        | param pos => exact ⟨holds, by simp⟩
        | slot id =>
          refine ⟨kept holds, ?_⟩
          intro same
          injection same with _ same
          injection same with same
          exact absurd (Array.getElem?_eq_some_iff.mp holds).1 (by omega)

/-- The other locals stay handed out when one is given back. -/
theorem free (held : pool.Holds ref) (freed : pool.free ref = .ok next) :
    next.InOrder ∧ ∀ other, pool.Holds other → other ≠ ref → next.Holds other := by
  obtain ⟨type, place⟩ := ref
  cases place with
  | param pos => cases freed
  | slot id =>
    have marked : pool.slots[id]? = some { type, inUse := true } := held
    obtain rfl : _ = next := by simpa [LocalPool.free, marked] using freed
    have unlisted : id ∉ pool.freed := by
      intro mem
      obtain ⟨other, unused⟩ := ordered.unused id mem
      rw [marked] at unused
      cases unused
    refine ⟨⟨List.nodup_cons.mpr ⟨unlisted, ordered.nodup⟩, ?_⟩, ?_⟩
    · intro pos mem
      change ∃ type, (pool.setInUse id false).slots[pos]? = _
      rw [getElem?_setInUse]
      rcases List.mem_cons.mp mem with rfl | mem
      · rw [if_pos rfl, marked]
        exact ⟨type, rfl⟩
      · rw [if_neg (by rintro rfl; exact unlisted mem)]
        exact ordered.unused pos mem
    · intro other holds ne
      refine holds.setInUse ?_ false _
      exact fun same => ne (holds.has.eq_of_place_eq held.has same)

end InOrder

theorem holds_of_free (has : pool.Has ref) (freed : pool.free ref = .ok next) : pool.Holds ref := by
  obtain ⟨type, place⟩ := ref
  cases place with
  | param pos => cases freed
  | slot id =>
    simp only [LocalPool.free] at freed
    split at freed
    · cases freed
    · rename_i slot mem
      split at freed
      · rename_i inUse
        have typed : slot.type = type := by simpa [Has, types, mem] using has
        change pool.slots[id]? = _
        rw [mem, ← typed, ← inUse]
      · cases freed

/-! ## Numbers -/

/-- The number that a local gets. -/
def number (pool : LocalPool) (ref : LocalRef) : Nat :=
  match ref.place with
  | .param pos => pos
  | .slot id => pool.slotIndex ref.type id

theorem get_index (finished : pool.finished = true) (ref : LocalRef) :
    (pool.index ref).get = .ok (pool.number ref) := by
  unfold index number
  cases ref.place with
  | param pos => rfl
  | slot id => simp [Deferred.get, finished]

theorem getElem?_number (has : pool.Has ref) :
    (pool.params ++ Wasm.expandGroups pool.groups)[pool.number ref]? = some ref.type := by
  obtain ⟨type, place⟩ := ref
  cases place with
  | param pos =>
    change pool.params[pos]? = _ at has
    have inside := (List.getElem?_eq_some_iff.mp has).1
    exact (List.getElem?_append_left inside).trans has
  | slot id => exact getElem?_slotIndex has

theorem slotIndex_lt {type id later} (typed : pool.types[id]? = some type) (less : id < later) :
    pool.slotIndex type id < pool.slotIndex type later := by
  obtain ⟨slot, mem, rfl⟩ : ∃ slot, pool.slots.toList[id]? = some slot ∧ slot.type = type := by
    simpa [types] using typed
  obtain ⟨inside, here⟩ := List.getElem?_eq_some_iff.mp mem
  unfold slotIndex
  apply Nat.add_lt_add_left
  have grows : (pool.slots.toList.take (id + 1)).countP (fun other => other.type == slot.type) ≤
      (pool.slots.toList.take later).countP (fun other => other.type == slot.type) :=
    (List.take_sublist_take_left (by omega)).countP_le
  rw [← List.take_append_getElem inside, List.countP_append] at grows
  simp [here] at grows
  exact grows

/-- Different locals get different numbers. -/
theorem number_injective (has : pool.Has ref) (hasOther : pool.Has other)
    (same : pool.number ref = pool.number other) : ref = other := by
  have typed := getElem?_number has
  have sameType : ref.type = other.type := by
    rw [same, getElem?_number hasOther] at typed
    injection typed with typed
    exact typed.symm
  have afterParams (type : Wasm.ValType) (id : Nat) : pool.params.length ≤ pool.slotIndex type id :=
    Nat.le_trans (Nat.le_add_right _ _) (Nat.le_add_right _ _)
  obtain ⟨type, place⟩ := ref
  obtain ⟨otherType, otherPlace⟩ := other
  obtain rfl : type = otherType := sameType
  cases place with
  | param pos =>
    cases otherPlace with
    | param otherPosition =>
      obtain rfl : pos = otherPosition := same
      rfl
    | slot id =>
      have inside := (List.getElem?_eq_some_iff.mp has).1
      have later := afterParams type id
      change pos = pool.slotIndex type id at same
      omega
  | slot id =>
    cases otherPlace with
    | param pos =>
      have inside := (List.getElem?_eq_some_iff.mp hasOther).1
      have later := afterParams type id
      change pool.slotIndex type id = pos at same
      omega
    | slot otherId =>
      change pool.slotIndex type id = pool.slotIndex type otherId at same
      rcases Nat.lt_trichotomy id otherId with less | rfl | more
      · exact absurd same (Nat.ne_of_lt (slotIndex_lt has less))
      · rfl
      · exact absurd same (Nat.ne_of_gt (slotIndex_lt hasOther more))

end StructWasm.LocalPool

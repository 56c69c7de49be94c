import StructWasm.LocalPool
import StructWasm.Proofs.Outcome
import StructWasm.Proofs.Wasm.Typing

/-!
# The locals that a pool has

A pool only ever gets more locals, and a local keeps its type. When the locals are
numbered, the number of every local stands for its type in the list of the types
of the parameters and of the declared groups.
-/

namespace StructWasm.LocalPool

open List Wasm

def types (pool : LocalPool) : List Wasm.ValType :=
  pool.slots.toList.map LocalSlot.type

/-- A local is one of the pool. -/
def Has (pool : LocalPool) (ref : LocalRef) : Prop :=
  match ref.place with
  | .param pos => pool.params[pos]? = some ref.type
  | .slot id => pool.types[id]? = some ref.type

/-- A pool with more locals. -/
structure Extends (pool more : LocalPool) : Prop where
  params_eq : more.params = pool.params
  types_prefix : pool.types <+: more.types

namespace Extends

theorem refl (pool : LocalPool) : pool.Extends pool :=
  ⟨rfl, prefix_rfl⟩

theorem trans {pool mid more : LocalPool} (first : pool.Extends mid)
    (second : mid.Extends more) : pool.Extends more :=
  ⟨second.params_eq.trans first.params_eq, first.types_prefix.trans second.types_prefix⟩

end Extends

variable {pool next : LocalPool} {id : Nat}

theorem Has.mono (has : pool.Has ref) (extends_ : pool.Extends more) : more.Has ref := by
  unfold Has at has ⊢
  split at has
  · rw [extends_.params_eq]
    exact has
  · obtain ⟨rest, types_eq⟩ := extends_.types_prefix
    rw [← types_eq, getElem?_append_left (List.getElem?_eq_some_iff.mp has).1]
    exact has

theorem types_setInUse (pool : LocalPool) (id : Nat) (inUse : Bool) :
    (pool.setInUse id inUse).types = pool.types := by
  apply ext_getElem?
  intro pos
  simp only [types, setInUse, getElem?_map, Array.getElem?_toList, Array.getElem?_modify]
  split
  · simp only [Option.map_map]
    rfl
  · rfl

/-- The pool gets a local of the type that is asked for. -/
theorem allocate_spec (alloc : pool.allocate type = .ok (next, ref)) :
    pool.Extends next ∧ next.Has ref ∧ ref.type = type := by
  unfold allocate at alloc
  split at alloc
  · simp at alloc
  · split at alloc
    · rename_i id found
      obtain ⟨rfl, rfl⟩ : _ = next ∧ _ = ref := by simpa using alloc
      have types_eq := types_setInUse pool id true
      have typed : pool.types[id]? = some type := by
        have holds := find?_some found
        simp only [Option.any_eq_true, beq_iff_eq] at holds
        obtain ⟨slot, mem, rfl⟩ := holds
        simp [types, mem]
      refine ⟨⟨rfl, ?_⟩, ?_, rfl⟩
      · change pool.types <+: (pool.setInUse id true).types
        exact types_eq ▸ prefix_rfl
      · change (pool.setInUse id true).types[id]? = some type
        rw [types_eq]
        exact typed
    · obtain ⟨rfl, rfl⟩ : _ = next ∧ _ = ref := by simpa using alloc
      refine ⟨⟨rfl, ?_⟩, ?_, rfl⟩
      · simp [types]
      · simp [Has, types]

theorem free_spec (freed : pool.free ref = .ok next) : pool.Extends next := by
  unfold free at freed
  split at freed
  · simp at freed
  · split at freed
    · simp at freed
    · split at freed
      · obtain rfl : _ = next := by simpa using freed
        refine ⟨rfl, ?_⟩
        change pool.types <+: (pool.setInUse _ false).types
        exact types_setInUse pool _ false ▸ prefix_rfl
      · simp at freed

/-! ## Numbers -/

theorem expandGroups_filter (groups : List (Nat × Wasm.ValType)) :
    expandGroups (groups.filter fun group => 0 < group.1) = expandGroups groups := by
  induction groups with
  | nil => rfl
  | cons group rest ih =>
    unfold expandGroups at ih ⊢
    by_cases some : 0 < group.1
    · simp [some, ih]
    · have none : group.1 = 0 := by omega
      simp [none, ih]

theorem expandGroups_groups (pool : LocalPool) : expandGroups pool.groups =
      Wasm.ValType.all.flatMap fun type => replicate (pool.countOf type) type := by
  unfold groups
  rw [expandGroups_filter, expandGroups, flatMap_map]

theorem countP_take_lt_countOf (typed : pool.types[id]? = some type) :
    (pool.slots.toList.take id).countP (fun slot => slot.type == type) < pool.countOf type := by
  obtain ⟨slot, mem, rfl⟩ : ∃ slot, pool.slots.toList[id]? = some slot ∧ slot.type = type := by
    simpa [types] using typed
  unfold countOf
  conv => rhs; rw [← take_append_drop id pool.slots.toList]
  rw [countP_append]
  have inside := (List.getElem?_eq_some_iff.mp mem).1
  rw [drop_eq_getElem_cons inside, countP_cons]
  have here := (List.getElem?_eq_some_iff.mp mem).2
  simp [here]

/-- In groups of equal entries, an entry stands behind the groups before its own. -/
theorem getElem?_groups (count : Wasm.ValType → Nat) {types : List Wasm.ValType}
    (listed : type ∈ types) (inside : pos < count type) :
    (types.flatMap fun type => replicate (count type) type)[
      ((types.takeWhile (· != type)).map count).foldr (· + ·) 0 + pos]? = some type := by
  induction types with
  | nil => cases listed
  | cons first rest ih =>
    rw [flatMap_cons]
    by_cases here : first = type
    · subst here
      rw [getElem?_append_left] <;> simp [inside]
    · have later := (mem_cons.mp listed).resolve_left (Ne.symm here)
      rw [takeWhile_cons_of_pos (by simpa using here), map_cons, foldr_cons, Nat.add_assoc,
        getElem?_append_right (by simp), length_replicate, Nat.add_sub_cancel_left]
      exact ih later

/-- The number of a slot stands for its type among the types of the parameters and
the declared locals. -/
theorem getElem?_slotIndex (typed : pool.types[id]? = some type) :
    (pool.params ++ expandGroups pool.groups)[pool.slotIndex type id]? = some type := by
  unfold slotIndex
  rw [Nat.add_assoc, getElem?_append_right (Nat.le_add_right _ _), Nat.add_sub_cancel_left,
    expandGroups_groups]
  exact getElem?_groups pool.countOf (by cases type <;> decide) (countP_take_lt_countOf typed)

end StructWasm.LocalPool

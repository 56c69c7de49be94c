import StructWasm.Proofs.LocalPool.Held

/-!
# Histories of a pool of locals

A pool is asked for locals, and locals are given back to it, each of them once at most.
Then no call fails, and two locals that are handed out at one time never share a slot.
Once the slots are numbered, their numbers are those after the parameters, each of them
once, and stand for the types of the locals.
-/

namespace StructWasm.LocalPool

open List

/-- A call of a pool. What is given back is named by its place among all that was handed
out. -/
inductive Call where
  | allocate (type : Wasm.ValType)
  | free (handle : Nat)

def Call.type? : Call → Option Wasm.ValType
  | .allocate type => some type
  | .free _ => none

/-- A pool with all that it has handed out, in order, and what of it was given back. -/
structure Usage where
  pool : LocalPool
  handles : List LocalRef
  returned : List Nat

namespace Usage

def new (params : List Wasm.ValType) : Usage :=
  { pool := .new params, handles := [], returned := [] }

def apply (usage : Usage) : Call → Except Fault Usage
  | .allocate type => do
    let alloc ← usage.pool.allocate type
    return { usage with pool := alloc.1, handles := usage.handles ++ [alloc.2] }
  | .free handle =>
    match usage.handles[handle]? with
    | none => .ok usage
    | some ref => do
      let pool ← usage.pool.free ref
      return { usage with pool, returned := handle :: usage.returned }

/-- A local that was handed out and not given back. -/
def Live (usage : Usage) (handle : Nat) (ref : LocalRef) : Prop :=
  usage.handles[handle]? = some ref ∧ handle ∉ usage.returned

/-- What holds between calls. -/
structure Orderly (params : List Wasm.ValType) (usage : Usage) : Prop where
  params_eq : usage.pool.params = params
  unfinished : usage.pool.finished = false
  ordered : usage.pool.InOrder
  has : ∀ ref ∈ usage.handles, usage.pool.Has ref ∧ ref.isParam = false
  holds : ∀ handle ref, usage.Live handle ref → usage.pool.Holds ref
  apart : ∀ first second ref other, usage.Live first ref → usage.Live second other →
    ref.place = other.place → first = second
  covered : ∀ id < usage.pool.slots.size, ∃ ref ∈ usage.handles, ref.place = .slot id

end Usage

/-- Only what was handed out is given back, and once at most. -/
def Fair : Nat → List Nat → List Call → Prop
  | _, _, [] => True
  | count, returned, .allocate _ :: rest => Fair (count + 1) returned rest
  | count, returned, .free handle :: rest =>
    handle < count ∧ handle ∉ returned ∧ Fair count (handle :: returned) rest

variable {pool next : LocalPool} {ref : LocalRef} {type : Wasm.ValType}
  {params : List Wasm.ValType} {usage : Usage} {calls : List Call}

/-! ## Calls -/

theorem exists_allocate (unfinished : pool.finished = false) (type : Wasm.ValType) :
    ∃ next ref, pool.allocate type = .ok (next, ref) ∧ ref.isParam = false ∧ next.finished = false ∧
      ∀ id < next.slots.size, id < pool.slots.size ∨ ref.place = .slot id := by
  rw [LocalPool.allocate, unfinished]
  cases pool.reusable? type with
  | some id =>
    refine ⟨_, _, rfl, rfl, unfinished, fun other inside => .inl ?_⟩
    simpa [setInUse] using inside
  | none =>
    refine ⟨_, _, rfl, rfl, rfl, fun other inside => ?_⟩
    rw [Array.size_push] at inside
    rcases Nat.lt_succ_iff_lt_or_eq.mp inside with old | rfl
    · exact .inl old
    · exact .inr rfl

theorem exists_free (holds : pool.Holds ref) (isSlot : ref.isParam = false) :
    ∃ next, pool.free ref = .ok next ∧ next.finished = pool.finished ∧
      next.slots.size = pool.slots.size := by
  obtain ⟨type, place⟩ := ref
  cases place with
  | param pos => cases isSlot
  | slot id =>
    have marked : pool.slots[id]? = some { type, inUse := true } := holds
    exact ⟨{ pool.setInUse id false with freed := id :: pool.freed },
      by simp [LocalPool.free, marked], rfl, by simp [setInUse]⟩

namespace Usage

theorem orderly_new (params : List Wasm.ValType) : (new params).Orderly params where
  params_eq := rfl
  unfinished := rfl
  ordered := ⟨nodup_nil, fun _ mem => absurd mem not_mem_nil⟩
  has := fun _ mem => absurd mem not_mem_nil
  holds := fun _ _ live => by cases live.1
  apart := fun _ _ _ _ live => by cases live.1
  covered := fun id inside => absurd inside (Nat.not_lt_zero id)

section

variable (orderly : usage.Orderly params)
include orderly

theorem Orderly.allocate (type : Wasm.ValType) :
    ∃ next ref, usage.apply (.allocate type) = .ok next ∧ next.Orderly params ∧
      ref.type = type ∧ next.handles = usage.handles ++ [ref] ∧ next.returned = usage.returned := by
  obtain ⟨pool, ref, alloc, isSlot, unfinished, sizes⟩ := exists_allocate orderly.unfinished type
  obtain ⟨grows, has, type_eq⟩ := allocate_spec alloc
  obtain ⟨ordered, holds, kept⟩ := orderly.ordered.allocate alloc
  let next : Usage := { usage with pool, handles := usage.handles ++ [ref] }
  have live {handle : Nat} {other : LocalRef} (live : next.Live handle other) :
      handle = usage.handles.length ∧ other = ref ∨ usage.Live handle other := by
    obtain ⟨present, kept⟩ := live
    rw [getElem?_append] at present
    split at present
    · exact .inr ⟨present, kept⟩
    · rw [getElem?_singleton] at present
      split at present
      · exact .inl ⟨by omega, (Option.some.inj present).symm⟩
      · cases present
  -- A slot of a live local is not handed out again.
  have fresh {handle : Nat} {other : LocalRef} (live : usage.Live handle other) :
      other.place ≠ ref.place := by
    intro same
    obtain ⟨holdsNext, ne⟩ := kept other (orderly.holds handle other live)
    exact ne (holdsNext.has.eq_of_place_eq has same)
  refine ⟨next, ref, by rw [apply, alloc]; rfl, ?_, type_eq, rfl, rfl⟩
  constructor
  · exact grows.params_eq.trans orderly.params_eq
  · exact unfinished
  · exact ordered
  · intro other mem
    rcases mem_append.mp mem with old | new
    · exact ⟨(orderly.has other old).1.mono grows, (orderly.has other old).2⟩
    · obtain rfl := mem_singleton.mp new
      exact ⟨has, isSlot⟩
  · intro handle other isLive
    rcases live isLive with ⟨-, rfl⟩ | old
    · exact holds
    · exact (kept other (orderly.holds handle other old)).1
  · intro first second one other oneLive otherLive same
    rcases live oneLive with ⟨rfl, rfl⟩ | oneOld <;>
      rcases live otherLive with ⟨rfl, rfl⟩ | otherOld
    · rfl
    · exact absurd same.symm (fresh otherOld)
    · exact absurd same (fresh oneOld)
    · exact orderly.apart first second one other oneOld otherOld same
  · intro id inside
    rcases sizes id inside with old | here
    · obtain ⟨other, mem, place_eq⟩ := orderly.covered id old
      exact ⟨other, mem_append_left _ mem, place_eq⟩
    · exact ⟨ref, mem_append_right _ (mem_singleton_self ref), here⟩

theorem Orderly.free (given : handle < usage.handles.length)
    (unreturned : handle ∉ usage.returned) :
    ∃ next, usage.apply (.free handle) = .ok next ∧ next.Orderly params ∧
      next.handles = usage.handles ∧ next.returned = handle :: usage.returned := by
  let ref := usage.handles[handle]
  have present : usage.handles[handle]? = some ref := getElem?_eq_getElem given
  have holds := orderly.holds handle ref ⟨present, unreturned⟩
  obtain ⟨pool, freed, finished_eq, size_eq⟩ :=
    exists_free holds (orderly.has ref (getElem_mem given)).2
  have grows := free_spec freed
  obtain ⟨ordered, kept⟩ := orderly.ordered.free holds freed
  let next : Usage := { usage with pool, returned := handle :: usage.returned }
  have live {other : Nat} {found : LocalRef} (live : next.Live other found) :
      usage.Live other found ∧ other ≠ handle :=
    ⟨⟨live.1, fun old => live.2 (.tail _ old)⟩, fun same => live.2 (same ▸ .head _)⟩
  refine ⟨next, by rw [apply, present]; dsimp only; rw [freed]; rfl, ?_, rfl, rfl⟩
  constructor
  · exact grows.params_eq.trans orderly.params_eq
  · exact finished_eq.trans orderly.unfinished
  · exact ordered
  · exact fun other mem =>
      ⟨(orderly.has other mem).1.mono grows, (orderly.has other mem).2⟩
  · intro other found isLive
    obtain ⟨old, ne⟩ := live isLive
    refine kept found (orderly.holds other found old) ?_
    rintro rfl
    exact ne (orderly.apart _ _ _ _ old ⟨present, unreturned⟩ rfl)
  · exact fun first second one other oneLive otherLive same =>
      orderly.apart first second one other (live oneLive).1 (live otherLive).1 same
  · exact fun id inside => orderly.covered id (size_eq ▸ inside)

theorem Orderly.run (fair : Fair usage.handles.length usage.returned calls) :
    ∃ final, calls.foldlM apply usage = .ok final ∧ final.Orderly params ∧
      final.handles.map LocalRef.type =
        usage.handles.map LocalRef.type ++ calls.filterMap Call.type? := by
  induction calls generalizing usage with
  | nil => exact ⟨usage, rfl, orderly, (append_nil _).symm⟩
  | cons call rest ih =>
    cases call with
    | allocate type =>
      obtain ⟨next, ref, applied, orderlyNext, rfl, handles_eq, returned_eq⟩ :=
        orderly.allocate type
      obtain ⟨final, runs, orderlyFinal, types_eq⟩ := ih orderlyNext (by
        rw [handles_eq, returned_eq, length_append]
        exact fair)
      refine ⟨final, by rw [foldlM_cons, applied]; exact runs, orderlyFinal, ?_⟩
      rw [types_eq, handles_eq, map_append, append_assoc]
      rfl
    | free handle =>
      obtain ⟨given, unreturned, fair⟩ := fair
      obtain ⟨next, applied, orderlyNext, handles_eq, returned_eq⟩ := orderly.free given unreturned
      obtain ⟨final, runs, orderlyFinal, types_eq⟩ := ih orderlyNext (by
        rw [handles_eq, returned_eq]
        exact fair)
      refine ⟨final, by rw [foldlM_cons, applied]; exact runs, orderlyFinal, ?_⟩
      rw [types_eq, handles_eq]
      rfl

end

end Usage

/-! ## Numbers -/

theorem length_expandGroups (pool : LocalPool) :
    (Wasm.expandGroups pool.groups).length = pool.slots.size := by
  rw [expandGroups_groups, ← Array.length_toList]
  simp only [Wasm.ValType.all, flatMap_cons, flatMap_nil, length_append, length_replicate,
    length_nil, countOf]
  induction pool.slots.toList with
  | nil => rfl
  | cons slot rest ih =>
    simp only [countP_cons, length_cons, ← ih]
    cases slot.type <;> simp <;> omega

theorem number_of_slot (has : pool.Has ref) (isSlot : ref.isParam = false) :
    pool.params.length ≤ pool.number ref ∧
      pool.number ref < pool.params.length + pool.slots.size := by
  constructor
  · obtain ⟨type, place⟩ := ref
    cases place with
    | param pos => cases isSlot
    | slot id => exact Nat.le_trans (Nat.le_add_right _ _) (Nat.le_add_right _ _)
  · have inside := (List.getElem?_eq_some_iff.mp (getElem?_number has)).1
    rwa [length_append, length_expandGroups] at inside

/-- The numbers after the parameters are all taken. -/
theorem exists_slot_of_number {index} (atLeast : pool.params.length ≤ index)
    (less : index < pool.params.length + pool.slots.size) :
    ∃ ref, ∃ id < pool.slots.size, pool.Has ref ∧ ref.place = .slot id ∧
      pool.number ref = index := by
  let refOf (id : Fin pool.slots.size) : LocalRef := ⟨pool.slots[id].type, .slot id⟩
  have has (id : Fin pool.slots.size) : pool.Has (refOf id) := by
    simp [Has, types, refOf]
  let place (id : Fin pool.slots.size) : Fin pool.slots.size :=
    ⟨pool.number (refOf id) - pool.params.length, by
      have := number_of_slot (has id) rfl
      omega⟩
  have injective : Function.Injective place := by
    intro first second same
    have firstBounds := number_of_slot (has first) rfl
    have secondBounds := number_of_slot (has second) rfl
    have same : pool.number (refOf first) - pool.params.length =
        pool.number (refOf second) - pool.params.length := congrArg Fin.val same
    have refs_eq := number_injective (has first) (has second) (by omega)
    exact Fin.ext (LocalPlace.slot.inj (congrArg LocalRef.place refs_eq))
  obtain ⟨id, here⟩ := Finite.surjective_of_injective injective
    ⟨index - pool.params.length, by omega⟩
  have here : pool.number (refOf id) - pool.params.length = index - pool.params.length :=
    congrArg Fin.val here
  have bounds := number_of_slot (has id) rfl
  exact ⟨refOf id, id, id.isLt, has id, rfl, by omega⟩

/-- Locals that are given back once at most: no call fails, no two locals that are handed
out share a slot, and the numbers that the locals get stand for their types. -/
theorem locals_apart_and_numbered (params : List Wasm.ValType) (calls : List Call)
    (fair : Fair 0 [] calls) :
    ∃ usage, calls.foldlM Usage.apply (.new params) = .ok usage ∧
      usage.handles.map LocalRef.type = calls.filterMap Call.type? ∧
      (∀ first second ref other, usage.Live first ref → usage.Live second other →
        ref.place = other.place → first = second) ∧
      ∃ finished groups, usage.pool.finish = .ok (finished, groups) ∧
        (∀ position type, params[position]? = some type →
          ∃ ref index, usage.pool.param? position = some ref ∧
            (finished.index ref).get = .ok index ∧
            (params ++ Wasm.expandGroups groups)[index]? = some type) ∧
        (∀ ref ∈ usage.handles, ∃ index, (finished.index ref).get = .ok index ∧
          (params ++ Wasm.expandGroups groups)[index]? = some ref.type) ∧
        (∀ ref ∈ usage.handles, ∀ other ∈ usage.handles, ref.place ≠ other.place →
          (finished.index ref).get ≠ (finished.index other).get) ∧
        ∀ index, (∃ ref ∈ usage.handles, (finished.index ref).get = .ok index) ↔
          params.length ≤ index ∧ index < params.length + usage.pool.slots.size := by
  obtain ⟨usage, runs, orderly, types_eq⟩ := (Usage.orderly_new params).run fair
  obtain ⟨rfl, unfinished, -, has, -, apart, covered⟩ := orderly
  have get_index (ref : LocalRef) :
      ({ usage.pool with finished := true }.index ref).get = .ok (usage.pool.number ref) :=
    LocalPool.get_index rfl ref
  refine ⟨usage, runs, types_eq, apart, { usage.pool with finished := true }, usage.pool.groups,
    by rw [finish, unfinished]; rfl, ?_, ?_, ?_, ?_⟩
  · intro position type present
    have isParam : usage.pool.Has ⟨type, .param position⟩ := present
    exact ⟨⟨type, .param position⟩, _, by rw [param?, present]; rfl, get_index _,
      getElem?_number isParam⟩
  · exact fun ref member => ⟨_, get_index ref, getElem?_number (has ref member).1⟩
  · intro ref member other otherMember different same
    rw [get_index, get_index] at same
    exact different (congrArg LocalRef.place
      (number_injective (has ref member).1 (has other otherMember).1 (Except.ok.inj same)))
  · intro index
    constructor
    · rintro ⟨ref, member, number_eq⟩
      rw [get_index] at number_eq
      exact Except.ok.inj number_eq ▸ number_of_slot (has ref member).1 (has ref member).2
    · rintro ⟨atLeast, less⟩
      obtain ⟨ref, id, inside, hasRef, place_eq, number_eq⟩ := exists_slot_of_number atLeast less
      obtain ⟨other, member, otherPlace_eq⟩ := covered id inside
      obtain rfl : other = ref :=
        (has other member).1.eq_of_place_eq hasRef (otherPlace_eq.trans place_eq.symm)
      exact ⟨other, member, by rw [get_index, number_eq]⟩

theorem locals_reused :
    let calls : List Call := [.allocate .i64, .free 0, .allocate .f32, .allocate .i64]
    Fair 0 [] calls ∧ ∃ usage, calls.foldlM Usage.apply (.new [.i32]) = .ok usage ∧
      usage.handles.map LocalRef.type = [.i64, .f32, .i64] := by
  intro calls
  have fair : Fair 0 [] calls := by simp [calls, Fair]
  obtain ⟨usage, runs, types_eq, -⟩ := locals_apart_and_numbered [.i32] calls fair
  exact ⟨fair, usage, runs, types_eq⟩

end StructWasm.LocalPool

import StructWasm.Proofs.Frame.FreeList

/-!
# Free bytes and bytes in use

Along every run of requests and returns the bytes below the high-water mark are divided
between the free regions and the ranges in use: each of them lies in exactly one region or
range, and no other byte lies in any.
-/

namespace StructWasm.Frame

open List

instance (region : Region) (byte : Nat) : Decidable (region.Holds byte) :=
  inferInstanceAs (Decidable (_ ∧ _))

/-- How many of some regions hold a byte. -/
def holders (byte : Nat) (regions : List Region) : Nat :=
  regions.countP fun region => decide (region.Holds byte)

theorem holders_cons (byte : Nat) (region : Region) (regions : List Region) :
    holders byte (region :: regions) =
      holders byte regions + if region.Holds byte then 1 else 0 := by
  simp [holders, countP_cons]

theorem covered_iff_holders (byte : Nat) (regions : List Region) :
    Covered regions byte ↔ 0 < holders byte regions := by
  simp [Covered, holders, countP_pos_iff]

/-- Of regions in order at most one holds a byte. -/
theorem holders_le_one (ordered : Ordered regions) (byte : Nat) : holders byte regions ≤ 1 := by
  induction regions with
  | nil => simp [holders]
  | cons region rest ih =>
    obtain ⟨-, apart, restOrdered⟩ := ordered_cons.mp ordered
    rw [holders_cons]
    split
    · rename_i here
      have elsewhere : ¬Covered rest byte := by
        rintro ⟨next, inRest, there⟩
        have := apart next inRest
        have := here.2
        have := there.1
        omega
      rw [covered_iff_holders] at elsewhere
      omega
    · exact ih restOrdered

namespace FreeList

/-- The free list after some requests were met and some of their ranges were given back,
with the ranges that are still in use. -/
inductive Serves : FreeList → List Region → Prop
  | empty : Serves .empty []
  | place {free next : FreeList} {used : List Region} {start : Nat} (size alignment : Nat)
      (serves : Serves free used) (positive : 0 < size) (power : alignment.isPowerOfTwo)
      (placed : free.place size alignment = .ok (start, next)) :
      Serves next ({ head := start, tail := start + size } :: used)
  | release {free : FreeList} {used : List Region} (range : Region) (serves : Serves free used)
      (inUse : range ∈ used) :
      Serves (free.release range.head range.length) (used.erase range)

/-- Ranges of bytes that hold, each byte once, what is not available. -/
structure Divides (free : FreeList) (used : List Region) : Prop where
  wellFormed : free.WellFormed
  nonempty : ∀ range ∈ used, range.head < range.tail
  unused : ∀ byte, free.Available byte → holders byte used = 0
  once : ∀ byte, ¬free.Available byte → holders byte used = 1

variable {free next : FreeList} {used : List Region}

theorem Divides.empty : Divides .empty [] :=
  ⟨.empty, by simp, fun _ _ => rfl, fun byte taken => absurd (.inr (Nat.zero_le byte)) taken⟩

/-- A request moves its range from the available bytes to those in use. -/
theorem Divides.place (divides : free.Divides used) (positive : 0 < size)
    (placed : free.place size alignment = .ok (start, next)) :
    next.Divides ({ head := start, tail := start + size } :: used) := by
  obtain ⟨wellFormed, available, remaining⟩ := place_takes divides.wellFormed positive placed
  refine ⟨wellFormed, ?_, ?_, ?_⟩
  · exact forall_mem_cons.mpr ⟨Nat.lt_add_of_pos_right positive, divides.nonempty⟩
  · intro byte isFree
    obtain ⟨wasFree, outside⟩ := (remaining byte).mp isFree
    rw [holders_cons, divides.unused byte wasFree, Nat.zero_add]
    exact if_neg outside
  · intro byte taken
    rw [holders_cons]
    split
    · rename_i inside
      rw [divides.unused byte (available byte inside.1 inside.2)]
    · rename_i outside
      exact divides.once byte fun wasFree => taken ((remaining byte).mpr ⟨wasFree, outside⟩)

/-- A range that is given back moves from the bytes in use to the available ones. -/
theorem Divides.release {range} (divides : free.Divides used) (inUse : range ∈ used) :
    (free.release range.head range.length).Divides (used.erase range) := by
  have nonempty := divides.nonempty range inUse
  have holds_iff (byte : Nat) : range.Holds byte ↔
      range.head ≤ byte ∧ byte < range.head + range.length := by
    unfold Region.Holds Region.length
    omega
  have counted (byte : Nat) : holders byte used =
      holders byte (used.erase range) + if range.Holds byte then 1 else 0 :=
    ((perm_cons_erase inUse).countP_eq _).trans (holders_cons byte range _)
  have isTaken (byte : Nat) (inside : range.Holds byte) : ¬free.Available byte := by
    intro isFree
    have none := counted byte
    rw [divides.unused byte isFree, if_pos inside] at none
    omega
  obtain ⟨wellFormed, available⟩ := release_spec divides.wellFormed
    (show 0 < range.length from Nat.sub_pos_of_lt nonempty)
    fun byte fromHead toTail => isTaken byte ((holds_iff byte).mpr ⟨fromHead, toTail⟩)
  simp only [← holds_iff] at available
  refine ⟨wellFormed, fun other listed => divides.nonempty other (mem_of_mem_erase listed), ?_, ?_⟩
  · intro byte isFree
    have counted := counted byte
    rcases (available byte).mp isFree with wasFree | inside
    · rw [divides.unused byte wasFree] at counted
      omega
    · rw [divides.once byte (isTaken byte inside), if_pos inside] at counted
      omega
  · intro byte taken
    have counted := counted byte
    rw [divides.once byte fun wasFree => taken ((available byte).mpr (.inl wasFree)),
      if_neg fun inside => taken ((available byte).mpr (.inr inside))] at counted
    omega

theorem Serves.divides (serves : free.Serves used) : free.Divides used := by
  induction serves with
  | empty => exact .empty
  | place size alignment _ positive _ placed ih => exact ih.place positive placed
  | release range _ inUse ih => exact ih.release inUse

/-- The free regions are in order, none of them empty and no two touching, and of the free
regions and the ranges in use exactly one holds a byte below the high-water mark and none any
other byte. -/
theorem partition_of_serves (serves : free.Serves used) :
    Ordered free.regions ∧
      ∀ byte, holders byte (free.regions ++ used) = if byte < free.top then 1 else 0 := by
  have divides := serves.divides
  refine ⟨divides.wellFormed.ordered, fun byte => ?_⟩
  have regions_le := holders_le_one divides.wellFormed.ordered byte
  have covered := covered_iff_holders byte free.regions
  have below : Covered free.regions byte → byte < free.top := by
    rintro ⟨region, listed, holds⟩
    exact holds.2.trans_le (divides.wellFormed.below region listed)
  have all_eq : holders byte (free.regions ++ used) =
      holders byte free.regions + holders byte used := countP_append
  by_cases isCovered : Covered free.regions byte
  · rw [all_eq, divides.unused byte (.inl isCovered), if_pos (below isCovered)]
    have := covered.mp isCovered
    omega
  · have none_eq : holders byte free.regions = 0 := by
      by_contra some
      exact isCovered (covered.mpr (Nat.pos_of_ne_zero some))
    rw [all_eq, none_eq, Nat.zero_add]
    split
    · rename_i inside
      refine divides.once byte ?_
      rintro (isCoveredToo | beyond)
      · exact isCovered isCoveredToo
      · omega
    · rename_i outside
      exact divides.unused byte (.inr (by omega))

/-- Of two ranges the first one is given back, and a third one that does not fit there is put
behind the second. -/
theorem partition_after_return :
    Serves ⟨[⟨0, 4⟩], 16⟩ [⟨8, 16⟩, ⟨4, 8⟩] ∧ Ordered [⟨0, 4⟩] ∧
      ∀ byte, holders byte [⟨0, 4⟩, ⟨8, 16⟩, ⟨4, 8⟩] = if byte < 16 then 1 else 0 := by
  have first : Serves ⟨[], 4⟩ [⟨0, 4⟩] :=
    .place 4 4 .empty (by decide) ⟨2, rfl⟩ rfl
  have second : Serves ⟨[], 8⟩ [⟨4, 8⟩, ⟨0, 4⟩] :=
    .place 4 4 first (by decide) ⟨2, rfl⟩ rfl
  have returned : Serves ⟨[⟨0, 4⟩], 8⟩ [⟨4, 8⟩] := second.release ⟨0, 4⟩ (by decide)
  have third : Serves ⟨[⟨0, 4⟩], 16⟩ [⟨8, 16⟩, ⟨4, 8⟩] :=
    .place 8 8 returned (by decide) ⟨3, rfl⟩ rfl
  exact ⟨third, partition_of_serves third⟩

end FreeList
end StructWasm.Frame

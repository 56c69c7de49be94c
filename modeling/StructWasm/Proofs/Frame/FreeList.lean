import StructWasm.Frame.FreeList
import StructWasm.Proofs.Outcome

/-!
# Bytes that a free list hands out

A free list is read as the set of its available bytes: those in a free region
and those beyond the high-water mark. Finding room takes a range of available
bytes out of this set, and giving a range back puts it in again. Both keep the
regions in order, without an empty one and without two that touch.
-/

namespace StructWasm.Frame

open List Nat FreeList

/-! ## Regions -/

def Region.Holds (region : Region) (byte : Nat) : Prop :=
  region.head ≤ byte ∧ byte < region.tail

/-- A byte lies in one of some regions. -/
def Covered (regions : List Region) (byte : Nat) : Prop :=
  ∃ region ∈ regions, region.Holds byte

/-- Regions in the order of their addresses, none of them empty and no two of them
touching. -/
def Ordered (regions : List Region) : Prop :=
  regions.Pairwise (fun left right => left.tail < right.head) ∧
    ∀ region ∈ regions, region.head < region.tail

@[simp] theorem covered_nil (byte : Nat) : ¬Covered [] byte := by
  simp [Covered]

@[simp] theorem covered_cons (region : Region) (regions : List Region) (byte : Nat) :
    Covered (region :: regions) byte ↔ region.Holds byte ∨ Covered regions byte := by
  simp [Covered]

@[simp] theorem covered_append (left right : List Region) (byte : Nat) :
    Covered (left ++ right) byte ↔ Covered left byte ∨ Covered right byte := by
  simp [Covered, or_and_right, exists_or]

@[simp] theorem covered_between (head tail byte : Nat) :
    Covered (between head tail) byte ↔ head ≤ byte ∧ byte < tail := by
  unfold between
  split
  · simp [Region.Holds]
  · simp only [covered_nil, false_iff]
    omega

variable {regions : List Region} {free next : FreeList} {size alignment start : Nat}
variable {region : Region} {all : List Candidate} {chosen : Region}

variable {stop head : Nat} {piece : Region}

theorem mem_between {tail} (mem : region ∈ between head tail) :
    region.head = head ∧ region.tail = tail ∧ head < tail := by
  unfold between at mem
  split at mem
  · simp at mem
    simp_all
  · simp at mem

@[simp] theorem ordered_nil : Ordered [] := by
  simp [Ordered]

theorem ordered_cons {regions} : Ordered (region :: regions) ↔
      region.head < region.tail ∧ (∀ next ∈ regions, region.tail < next.head) ∧
        Ordered regions := by
  simp only [Ordered, pairwise_cons, forall_mem_cons]
  tauto

theorem ordered_append : Ordered (left ++ right) ↔ Ordered left ∧ Ordered right ∧
        ∀ first ∈ left, ∀ second ∈ right, first.tail < second.head := by
  simp only [Ordered, pairwise_append, forall_mem_append]
  tauto

theorem ordered_between (head tail : Nat) : Ordered (between head tail) := by
  unfold between
  split <;> simp_all [Ordered]

/-! ## Well-formed free lists -/

/-- What every free list satisfies that arises while a frame is laid out. -/
structure FreeList.WellFormed (free : FreeList) : Prop where
  /-- The regions are in order. -/
  ordered : Ordered free.regions
  /-- The regions lie below the high-water mark. -/
  below : ∀ region ∈ free.regions, region.tail ≤ free.top

/-- A byte that no request occupies. -/
def FreeList.Available (free : FreeList) (byte : Nat) : Prop :=
  Covered free.regions byte ∨ free.top ≤ byte

theorem FreeList.WellFormed.empty : FreeList.empty.WellFormed :=
  ⟨by simp [FreeList.empty], by simp [FreeList.empty]⟩

/-! ## Finding room -/

theorem le_alignUp (aligned : alignUp value alignment = .ok start) :
    value ≤ start ∧ start ≤ value + (alignment - 1) ∧ start < addressLimit := by
  simp only [alignUp] at aligned
  split at aligned
  · rename_i small
    injection aligned with start_eq
    have masked : (value + (alignment - 1)) &&& (alignment - 1) ≤ alignment - 1 :=
      and_le_right
    omega
  · simp at aligned

/-- The candidates are the regions in their order, each with its first aligned address. -/
theorem candidates_spec (found : candidates alignment regions = .ok all) :
    all.map Candidate.region = regions ∧
      ∀ candidate ∈ all, alignUp candidate.region.head alignment = .ok candidate.start := by
  have pairs := forall₂_of_mapM_ok found
  clear found
  induction pairs with
  | nil => simp
  | cons step _ ih =>
    obtain ⟨start, aligned, candidate_eq⟩ := bind_eq_ok.mp step
    obtain rfl := pure_eq_ok.mp candidate_eq
    exact ⟨congrArg (cons _) ih.1, forall_mem_cons.mpr ⟨aligned, ih.2⟩⟩

theorem mem_of_shortest? (found : shortest? all = some best) : best ∈ all := by
  induction all generalizing best with
  | nil => simp [shortest?] at found
  | cons candidate rest ih =>
    simp only [shortest?] at found
    split at found
    · simp_all
    · rename_i other other_eq
      split at found
      · injection found with best_eq
        subst best_eq
        exact mem_cons_of_mem _ (ih other_eq)
      · simp_all

theorem eq_nil_of_shortest?_none (missing : shortest? all = none) : all = [] := by
  cases all with
  | nil => rfl
  | cons candidate rest =>
    simp only [shortest?] at missing
    split at missing
    · cases missing
    · split at missing <;> cases missing

/-- The best fit is the shortest of the candidates with room, which keep the order of their
regions. -/
theorem bestFit?_eq (found : bestFit? regions size alignment = .ok best?) :
    ∃ fitting, shortest? fitting = best? ∧ fitting.map Candidate.region <+ regions ∧
      (∀ candidate ∈ fitting, alignUp candidate.region.head alignment = .ok candidate.start ∧
        candidate.start + size ≤ candidate.region.tail) ∧
      ∀ region ∈ regions, ∃ start, alignUp region.head alignment = .ok start ∧
        (start + size ≤ region.tail → ⟨region, start⟩ ∈ fitting) := by
  obtain ⟨all, candidates_eq, best_eq⟩ := bind_eq_ok.mp found
  obtain ⟨rfl, aligned⟩ := candidates_spec candidates_eq
  refine ⟨_, pure_eq_ok.mp best_eq, filter_sublist.map _, ?_, ?_⟩
  · intro candidate mem
    rw [mem_filter, decide_eq_true_iff] at mem
    exact ⟨aligned candidate mem.1, mem.2⟩
  · intro region mem
    obtain ⟨candidate, listed, rfl⟩ := mem_map.mp mem
    exact ⟨candidate.start, aligned candidate listed,
      fun fits => mem_filter.mpr ⟨listed, decide_eq_true fits⟩⟩

theorem bestFit?_some (found : bestFit? regions size alignment = .ok (some best)) :
    best.region ∈ regions ∧ alignUp best.region.head alignment = .ok best.start ∧
      best.start + size ≤ best.region.tail := by
  obtain ⟨fitting, best_eq, sublist, fits, -⟩ := bestFit?_eq found
  have mem := mem_of_shortest? best_eq
  exact ⟨sublist.subset (mem_map_of_mem mem), fits best mem⟩

theorem bestFit?_none (missing : bestFit? regions size alignment = .ok none)
    (mem : region ∈ regions) :
    ∃ start, alignUp region.head alignment = .ok start ∧ region.tail < start + size := by
  obtain ⟨fitting, none_eq, -, -, complete⟩ := bestFit?_eq missing
  obtain ⟨start, aligned, listed⟩ := complete region mem
  refine ⟨start, aligned, Nat.lt_of_not_le fun fits => ?_⟩
  have listed := listed fits
  rw [eq_nil_of_shortest?_none none_eq] at listed
  cases listed

/-- Room is found in the best fit, or else where the frame grows. -/
theorem place_eq (placed : free.place size alignment = .ok (start, next)) :
    (∃ region, bestFit? free.regions size alignment = .ok (some ⟨region, start⟩) ∧
      next = { free with regions := carve region start (start + size) free.regions }) ∨
    (bestFit? free.regions size alignment = .ok none ∧ alignUp free.growth.1 alignment = .ok start ∧
      next = ⟨free.growth.2 ++ between free.growth.1 start, start + size⟩) := by
  obtain ⟨best?, found, placed⟩ := bind_eq_ok.mp placed
  cases best? with
  | some best =>
    obtain ⟨rfl, rfl⟩ : best.start = start ∧ _ = next := by simpa using placed
    exact .inl ⟨best.region, found, rfl⟩
  | none =>
    obtain ⟨aligned, alignedTo, placed⟩ := bind_eq_ok.mp placed
    split at placed
    · obtain ⟨rfl, rfl⟩ : aligned = start ∧ _ = next := Prod.mk.inj (pure_eq_ok.mp placed)
      exact .inr ⟨found, alignedTo, rfl⟩
    · simp at placed

/-- Carving replaces one region by what is left of it on both sides. -/
theorem exists_carve_eq (mem : chosen ∈ regions) (start stop : Nat) :
    ∃ left right, regions = left ++ chosen :: right ∧ carve chosen start stop regions =
      left ++ (between chosen.head start ++ between stop chosen.tail ++ right) := by
  induction regions with
  | nil => simp at mem
  | cons region rest ih =>
    simp only [carve]
    split
    · rename_i region_eq
      subst region_eq
      exact ⟨[], rest, rfl, rfl⟩
    · rename_i ne
      obtain ⟨left, right, rfl, carved⟩ :=
        ih ((mem_cons.mp mem).resolve_left fun equal => ne equal.symm)
      exact ⟨region :: left, right, rfl, congrArg (cons region) carved⟩

theorem remainders_spec {start tail} (fromHead : head ≤ start) (positive : start < stop)
    (toTail : stop ≤ tail) : Ordered (between head start ++ between stop tail) ∧
      ∀ piece ∈ between head start ++ between stop tail, head ≤ piece.head ∧ piece.tail ≤ tail := by
  simp only [ordered_append, forall_mem_append]
  refine ⟨⟨ordered_between _ _, ordered_between _ _, fun first inFirst second inSecond => ?_⟩,
    fun piece mem => ?_, fun piece mem => ?_⟩
  · have := mem_between inFirst
    have := mem_between inSecond
    omega
  all_goals
    have := mem_between mem
    omega

/-- The frame grows from the end of the last request in it: the bytes from there
on are all available. -/
theorem growth_spec (wellFormed : free.WellFormed) :
    Ordered free.growth.2 ∧ (∀ region ∈ free.growth.2, region.tail < free.growth.1) ∧
      ∀ byte, free.Available byte ↔ Covered free.growth.2 byte ∨ free.growth.1 ≤ byte := by
  obtain ⟨ordered, below⟩ := wellFormed
  unfold growth
  cases last_eq : free.regions.getLast? with
  | none =>
    rw [getLast?_eq_none_iff] at last_eq
    simp [last_eq, FreeList.Available]
  | some last =>
    obtain ⟨earlier, regions_eq⟩ := getLast?_eq_some_iff.mp last_eq
    rw [regions_eq, ordered_append, ordered_cons] at ordered
    obtain ⟨earlierOrdered, ⟨lastNonempty, -, -⟩, apart⟩ := ordered
    have lastBelow : last.tail ≤ free.top := below last (by simp [regions_eq])
    have lastApart : ∀ region ∈ earlier, region.tail < last.head :=
      fun region mem => apart region mem last (by simp)
    simp only
    split
    · rename_i atTop
      refine ⟨by simpa [regions_eq] using earlierOrdered, by simpa [regions_eq] using lastApart, ?_⟩
      intro byte
      simp only [FreeList.Available, regions_eq, covered_append, covered_cons, covered_nil,
        Region.Holds, dropLast_concat]
      have : last.head ≤ byte ∧ byte < last.tail ∨ free.top ≤ byte ↔ last.head ≤ byte := by
        omega
      tauto
    · rename_i notAtTop
      refine ⟨?_, ?_, fun byte => Iff.rfl⟩
      · rw [regions_eq, ordered_append, ordered_cons]
        exact ⟨earlierOrdered, ⟨lastNonempty, by simp, ordered_nil⟩, apart⟩
      · intro region mem
        rw [regions_eq, mem_append, mem_singleton] at mem
        rcases mem with mem | rfl
        · have := lastApart region mem
          omega
        · omega

/-- A request takes a range of available bytes and leaves all others as they
are. -/
structure FreeList.Takes (free : FreeList) (start size : Nat) (next : FreeList) : Prop where
  /-- The free list stays well formed. -/
  wellFormed : next.WellFormed
  /-- The range was available. -/
  available : ∀ byte, start ≤ byte → byte < start + size → free.Available byte
  /-- Only the range is taken. -/
  remaining : ∀ byte, next.Available byte ↔
    free.Available byte ∧ ¬(start ≤ byte ∧ byte < start + size)

/-- Room inside a free region is made of available bytes. -/
theorem carve_takes (wellFormed : free.WellFormed) (positive : 0 < size)
    (inRegions : chosen ∈ free.regions) (fromHead : chosen.head ≤ start)
    (toTail : start + size ≤ chosen.tail) : free.Takes start size
      { free with regions := carve chosen start (start + size) free.regions } := by
  obtain ⟨left, right, regions_eq, carved⟩ := exists_carve_eq inRegions start (start + size)
  obtain ⟨piecesOrdered, inside⟩ := remainders_spec fromHead
    (Nat.lt_add_of_pos_right positive) toTail
  obtain ⟨ordered, below⟩ := wellFormed
  simp only [regions_eq, ordered_append, ordered_cons, forall_mem_append, forall_mem_cons]
    at ordered below
  obtain ⟨leftOrdered, ⟨nonempty, behind, rightOrdered⟩, before⟩ := ordered
  refine ⟨⟨?_, ?_⟩, ?_, ?_⟩
  · rw [carved, ordered_append, ordered_append]
    refine ⟨leftOrdered, ⟨piecesOrdered, rightOrdered, fun piece inPiece next inRight => ?_⟩,
      fun first inLeft => forall_mem_append.mpr ⟨fun piece inPiece => ?_, (before first inLeft).2⟩⟩
    · exact (inside piece inPiece).2.trans_lt (behind next inRight)
    · exact (before first inLeft).1.trans_le (inside piece inPiece).1
  · rw [carved, forall_mem_append, forall_mem_append]
    exact ⟨below.1, fun piece inPiece => (inside piece inPiece).2.trans below.2.1, below.2.2⟩
  · intro byte fromStart toStop
    exact .inl ⟨chosen, inRegions, by omega, by omega⟩
  · intro byte
    have outside : Covered left byte ∨ Covered right byte →
        ¬(start ≤ byte ∧ byte < start + size) := by
      rintro (⟨next, mem, holds⟩ | ⟨next, mem, holds⟩) taken
      · have := (before next mem).1
        have := holds.2
        omega
      · have := behind next mem
        have := holds.1
        omega
    simp only [FreeList.Available, carved]
    simp only [regions_eq, covered_append, covered_cons, covered_between, Region.Holds]
    by_cases others : Covered left byte ∨ Covered right byte
    · have := outside others
      tauto
    · rw [not_or] at others
      simp only [others, false_or, or_false]
      omega

/-- So is room at the end of the frame. -/
theorem grow_takes (wellFormed : free.WellFormed) (positive : 0 < size)
    (fromBase : free.growth.1 ≤ start) :
    free.Takes start size ⟨free.growth.2 ++ between free.growth.1 start, start + size⟩ := by
  obtain ⟨ordered, below, available⟩ := growth_spec wellFormed
  refine ⟨⟨?_, ?_⟩, ?_, ?_⟩
  · refine ordered_append.mpr ⟨ordered, ordered_between _ _, ?_⟩
    intro first inBelow second inBetween
    have := below first inBelow
    have := mem_between inBetween
    omega
  · intro region mem
    rcases mem_append.mp mem with inBelow | inBetween
    · have := below region inBelow
      simp only
      omega
    · have := mem_between inBetween
      simp only
      omega
  · intro byte fromStart _
    exact (available byte).mpr (.inr (by omega))
  · intro byte
    rw [available byte]
    simp only [FreeList.Available, covered_append, covered_between]
    constructor
    · rintro ((inBelow | inBetween) | beyond)
      · obtain ⟨region, mem, holds⟩ := inBelow
        have := below region mem
        have := holds.2
        exact ⟨.inl ⟨region, mem, holds⟩, by omega⟩
      · exact ⟨.inr inBetween.1, by omega⟩
      · exact ⟨.inr (by omega), by omega⟩
    · rintro ⟨inBelow | fromGrowth, notTaken⟩
      · exact .inl (.inl inBelow)
      · by_cases before : byte < start
        · exact .inl (.inr ⟨fromGrowth, before⟩)
        · exact .inr (by omega)

/-- Finding room takes available bytes. -/
theorem place_takes (wellFormed : free.WellFormed) (positive : 0 < size)
    (placed : free.place size alignment = .ok (start, next)) : free.Takes start size next := by
  rcases place_eq placed with ⟨region, found, rfl⟩ | ⟨-, aligned, rfl⟩
  · obtain ⟨inRegions, aligned, toTail⟩ := bestFit?_some found
    exact carve_takes wellFormed positive inRegions (le_alignUp aligned).1 toTail
  · exact grow_takes wellFormed positive (le_alignUp aligned).1

theorem alignUp_error (failed : alignUp value alignment = .error cause) :
    cause = .frameTooLarge ∧ addressLimit ≤ value + (alignment - 1) := by
  simp only [alignUp] at failed
  split at failed
  · cases failed
  · rename_i large
    obtain rfl := Except.error.inj failed
    exact ⟨rfl, Nat.le_of_not_lt large⟩

/-- No room is found only if an address that is tried, or the end of the request when the frame
grows, is out of range. -/
theorem place_error (failed : free.place size alignment = .error cause) : cause = .frameTooLarge ∧
      ((∃ region ∈ free.regions, addressLimit ≤ region.head + (alignment - 1)) ∨
        addressLimit ≤ free.growth.1 + (alignment - 1) + size) := by
  rcases bind_eq_error.mp failed with failed | ⟨best?, -, failed⟩
  · rcases bind_eq_error.mp failed with failed | ⟨_, -, impossible⟩
    · obtain ⟨region, mem, failed⟩ := exists_of_mapM_error failed
      rcases bind_eq_error.mp failed with failed | ⟨_, -, impossible⟩
      · obtain ⟨cause_eq, large⟩ := alignUp_error failed
        exact ⟨cause_eq, .inl ⟨region, mem, large⟩⟩
      · exact absurd impossible pure_ne_error
    · exact absurd impossible pure_ne_error
  · cases best? with
    | some best => exact absurd failed pure_ne_error
    | none =>
      rcases bind_eq_error.mp failed with failed | ⟨start, aligned, failed⟩
      · obtain ⟨cause_eq, large⟩ := alignUp_error failed
        exact ⟨cause_eq, .inr (le_add_right_of_le large)⟩
      · split at failed
        · exact absurd failed pure_ne_error
        · obtain rfl := Except.error.inj failed
          have start_le : start ≤ free.growth.1 + (alignment - 1) := (le_alignUp aligned).2.1
          exact ⟨rfl, .inr (by omega)⟩

theorem dvd_of_alignUp (power : alignment.isPowerOfTwo)
    (aligned : alignUp value alignment = .ok start) : alignment ∣ start := by
  obtain ⟨exponent, rfl⟩ := power
  simp only [alignUp] at aligned
  split at aligned
  · injection aligned with start_eq
    rw [← start_eq, and_two_pow_sub_one_eq_mod]
    exact dvd_sub_mod _
  · simp at aligned

/-- The least multiple of a power of two from a value on. -/
theorem isLeast_alignUp (power : alignment.isPowerOfTwo)
    (aligned : alignUp value alignment = .ok start) :
    IsLeast { multiple | alignment ∣ multiple ∧ value ≤ multiple } start := by
  refine ⟨⟨dvd_of_alignUp power aligned, (le_alignUp aligned).1⟩, ?_⟩
  rintro multiple ⟨divides, le⟩
  by_contra less
  -- The difference of two multiples is at least the alignment, and aligning adds less.
  have added := (le_alignUp aligned).2.1
  have positive := pos_of_isPowerOfTwo power
  have apart := le_of_dvd (Nat.sub_pos_of_lt (not_le.mp less))
    (Nat.dvd_sub (dvd_of_alignUp power aligned) divides)
  omega

/-- The frame grows from the start of a free region at its end, or from the end if there is
none. -/
theorem growth_cases (wellFormed : free.WellFormed) :
    (∃ region ∈ free.regions, region.tail = free.top ∧ region.head = free.growth.1) ∨
      (∀ region ∈ free.regions, region.tail ≠ free.top) ∧ free.growth.1 = free.top := by
  have below := (growth_spec wellFormed).2.1
  unfold growth at below ⊢
  split
  · rename_i last last_eq
    split
    · rename_i atTop
      exact .inl ⟨last, mem_of_getLast? last_eq, atTop, rfl⟩
    · rename_i notAtTop
      simp only [last_eq, if_neg notAtTop] at below
      exact .inr ⟨fun region mem => (below region mem).ne, rfl⟩
  · rename_i none_eq
    rw [getLast?_eq_none_iff] at none_eq
    exact .inr ⟨by simp [none_eq], rfl⟩

/-- The frame never shrinks, and a request ends inside it. -/
theorem place_within (wellFormed : free.WellFormed)
    (placed : free.place size alignment = .ok (start, next)) :
    free.top ≤ next.top ∧ start + size ≤ next.top := by
  rcases place_eq placed with ⟨region, found, rfl⟩ | ⟨missing, alignedTo, rfl⟩
  · obtain ⟨inRegions, -, toTail⟩ := bestFit?_some found
    exact ⟨le_refl _, le_trans toTail (wellFormed.below region inRegions)⟩
  · refine ⟨?_, le_refl _⟩
    change free.top ≤ start + size
    rcases growth_cases wellFormed with ⟨region, mem, atTop, base_eq⟩ | ⟨-, base_eq⟩
    · -- A region at the end of the frame is too short for the request.
      obtain ⟨first, aligned, short⟩ := bestFit?_none missing mem
      rw [base_eq, alignedTo] at aligned
      obtain rfl := Except.ok.inj aligned
      omega
    · have := (le_alignUp alignedTo).1
      omega

/-- A request for a power of two is put at a multiple of it. -/
theorem dvd_of_place (power : alignment.isPowerOfTwo)
    (placed : free.place size alignment = .ok (start, next)) : alignment ∣ start := by
  rcases place_eq placed with ⟨region, found, -⟩ | ⟨-, alignedTo, -⟩
  · exact dvd_of_alignUp power (bestFit?_some found).2.1
  · exact dvd_of_alignUp power alignedTo

/-! ## Giving bytes back -/

theorem joinNext_spec (region : Region) (nonempty : region.head < region.tail)
    (ordered : Ordered rest) (apart : ∀ next ∈ rest, region.tail ≤ next.head) :
    Ordered (joinNext region rest) ∧ ∀ byte, Covered (joinNext region rest) byte ↔
        region.Holds byte ∨ Covered rest byte := by
  cases rest with
  | nil => simp [joinNext, ordered_cons, nonempty]
  | cons next rest =>
    obtain ⟨nextNonempty, nextApart, restOrdered⟩ := ordered_cons.mp ordered
    have nextBehind := apart next mem_cons_self
    simp only [joinNext]
    split
    · rename_i touching
      refine ⟨ordered_cons.mpr ⟨by simp only; omega, nextApart, restOrdered⟩, ?_⟩
      intro byte
      simp only [covered_cons, Region.Holds]
      have : region.head ≤ byte ∧ byte < next.tail ↔ (region.head ≤ byte ∧ byte < region.tail) ∨
            (next.head ≤ byte ∧ byte < next.tail) := by
        omega
      tauto
    · rename_i separate
      refine ⟨ordered_cons.mpr ⟨nonempty, ?_, ordered⟩, fun byte => covered_cons _ _ _⟩
      intro other mem
      have := apart other mem
      rcases mem_cons.mp mem with rfl | mem
      · omega
      · have := nextApart other mem
        omega

/-- Joined regions start where one of the given regions starts and end where one
of them ends. -/
theorem mem_joinNext (mem : piece ∈ joinNext region rest) :
    (piece.head = region.head ∨ ∃ next ∈ rest, piece.head = next.head) ∧
      (piece.tail = region.tail ∨ ∃ next ∈ rest, piece.tail = next.tail) := by
  cases rest with
  | nil => simp_all [joinNext]
  | cons next rest =>
    simp only [joinNext] at mem
    split at mem
    · rcases mem_cons.mp mem with rfl | mem
      · exact ⟨.inl rfl, .inr ⟨next, mem_cons_self, rfl⟩⟩
      · exact ⟨.inr ⟨piece, mem_cons_of_mem _ mem, rfl⟩, .inr ⟨piece, mem_cons_of_mem _ mem, rfl⟩⟩
    · rcases mem_cons.mp mem with rfl | mem
      · exact ⟨.inl rfl, .inl rfl⟩
      · exact ⟨.inr ⟨piece, mem, rfl⟩, .inr ⟨piece, mem, rfl⟩⟩

theorem mem_insertRegion (mem : piece ∈ insertRegion region regions) :
    (piece.head = region.head ∨ ∃ next ∈ regions, piece.head = next.head) ∧
      (piece.tail = region.tail ∨ ∃ next ∈ regions, piece.tail = next.tail) := by
  induction regions with
  | nil => simp_all [insertRegion]
  | cons first rest ih =>
    simp only [insertRegion] at mem
    split at mem
    · split at mem
      · obtain ⟨head, tail⟩ := mem_joinNext mem
        simp only [exists_mem_cons_iff]
        tauto
      · rcases mem_cons.mp mem with rfl | mem
        · exact ⟨.inr ⟨piece, mem_cons_self, rfl⟩, .inr ⟨piece, mem_cons_self, rfl⟩⟩
        · have := ih mem
          simp only [exists_mem_cons_iff]
          tauto
    · exact mem_joinNext mem

theorem insertRegion_spec (region : Region) (nonempty : region.head < region.tail)
    (ordered : Ordered regions)
    (apart : ∀ next ∈ regions, next.tail ≤ region.head ∨ region.tail ≤ next.head) :
    Ordered (insertRegion region regions) ∧ ∀ byte, Covered (insertRegion region regions) byte ↔
        region.Holds byte ∨ Covered regions byte := by
  induction regions with
  | nil => simp [insertRegion, ordered_cons, nonempty]
  | cons first rest ih =>
    obtain ⟨firstNonempty, firstApart, restOrdered⟩ := ordered_cons.mp ordered
    have restApart : ∀ next ∈ rest, next.tail ≤ region.head ∨ region.tail ≤ next.head :=
      fun next mem => apart next (mem_cons_of_mem _ mem)
    have firstSide := apart first mem_cons_self
    simp only [insertRegion]
    split
    · rename_i before
      have firstBefore : first.tail ≤ region.head := by omega
      split
      · rename_i touching
        have behind : ∀ next ∈ rest, region.tail ≤ next.head := by
          intro next mem
          have := firstApart next mem
          have := restApart next mem
          have := restOrdered.2 next mem
          omega
        obtain ⟨joinedOrdered, joined⟩ :=
          joinNext_spec { head := first.head, tail := region.tail }
            (by simp only; omega) restOrdered behind
        refine ⟨joinedOrdered, ?_⟩
        intro byte
        simp only [joined, covered_cons, Region.Holds]
        have : first.head ≤ byte ∧ byte < region.tail ↔ (region.head ≤ byte ∧ byte < region.tail) ∨
              (first.head ≤ byte ∧ byte < first.tail) := by
          omega
        tauto
      · obtain ⟨insertedOrdered, inserted⟩ := ih restOrdered restApart
        refine ⟨ordered_cons.mpr ⟨firstNonempty, ?_, insertedOrdered⟩, ?_⟩
        · intro piece mem
          rcases (mem_insertRegion mem).1 with head_eq | ⟨next, inRest, head_eq⟩
          · omega
          · have := firstApart next inRest
            omega
        · intro byte
          simp only [covered_cons, inserted]
          tauto
    · rename_i notBefore
      apply joinNext_spec region nonempty ordered
      intro next mem
      have := apart next mem
      have := ordered.2 next mem
      rcases mem_cons.mp mem with rfl | inRest
      · omega
      · have := firstApart next inRest
        omega

/-- Giving back a range that is in use makes exactly its bytes available again. -/
theorem release_spec {size} (wellFormed : free.WellFormed) (positive : 0 < size)
    (inUse : ∀ byte, head ≤ byte → byte < head + size → ¬free.Available byte) :
    (free.release head size).WellFormed ∧ ∀ byte, (free.release head size).Available byte ↔
        free.Available byte ∨ (head ≤ byte ∧ byte < head + size) := by
  have belowTop : head + size ≤ free.top := by
    by_contra beyond
    exact inUse (head + size - 1) (by omega) (by omega) (.inr (by omega))
  have apart : ∀ next ∈ free.regions, next.tail ≤ head ∨ head + size ≤ next.head := by
    intro next mem
    have nextNonempty := wellFormed.ordered.2 next mem
    by_contra overlapping
    exact inUse (max head next.head) (by omega) (by omega) (.inl ⟨next, mem, by omega, by omega⟩)
  obtain ⟨ordered, inserted⟩ := insertRegion_spec { head, tail := head + size }
    (Nat.lt_add_of_pos_right positive) wellFormed.ordered apart
  refine ⟨⟨ordered, ?_⟩, ?_⟩
  · intro piece mem
    rcases (mem_insertRegion mem).2 with tail_eq | ⟨next, inRegions, tail_eq⟩
    · rw [tail_eq]
      exact belowTop
    · rw [tail_eq]
      exact wellFormed.below next inRegions
  · intro byte
    simp only [FreeList.Available, FreeList.release, inserted, Region.Holds]
    tauto

end StructWasm.Frame

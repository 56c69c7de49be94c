import StructWasm.Proofs.Frame.FreeList

/-!
# Best fit

A request goes to the shortest free region that has room for it at its first aligned address,
the lowest one among equals. Only if there is none does the frame grow, and then from the
start of a free region at its end.
-/

namespace StructWasm.Frame

open List FreeList

/-- The least multiple of an alignment from an address on. -/
def FirstAligned (base alignment start : Nat) : Prop :=
  IsLeast { multiple | alignment ∣ multiple ∧ base ≤ multiple } start

/-- A region has room for a request at its first aligned address. -/
def Region.Hosts (region : Region) (size alignment : Nat) : Prop :=
  ∃ start, FirstAligned region.head alignment start ∧ start + size ≤ region.tail

/-- A region is shorter than another one, or as long and not above it. -/
def Region.Precedes (region other : Region) : Prop :=
  region.length < other.length ∨ region.length = other.length ∧ region.head ≤ other.head

/-- Where a frame grows from: the start of the free region that ends at the high-water mark,
or the mark if there is none. -/
def FreeList.GrowsFrom (free : FreeList) (base : Nat) : Prop :=
  (∃ region ∈ free.regions, region.tail = free.top ∧ region.head = base) ∨
    (∀ region ∈ free.regions, region.tail ≠ free.top) ∧ base = free.top

variable {regions : List Region} {region : Region} {size alignment start : Nat}

theorem hosts_iff (power : alignment.isPowerOfTwo)
    (aligned : alignUp region.head alignment = .ok start) :
    region.Hosts size alignment ↔ start + size ≤ region.tail := by
  have first : FirstAligned region.head alignment start := isLeast_alignUp power aligned
  constructor
  · rintro ⟨other, alsoFirst, fits⟩
    rwa [first.unique alsoFirst]
  · exact fun fits => ⟨start, first, fits⟩

/-- Of candidates in the order of their addresses the shortest one precedes all others. -/
theorem precedes_of_shortest? {all best}
    (sorted : all.Pairwise fun left right : Candidate => left.region.head ≤ right.region.head)
    (found : shortest? all = some best) : ∀ other ∈ all, best.region.Precedes other.region := by
  induction all generalizing best with
  | nil => simp
  | cons candidate rest ih =>
    obtain ⟨lowest, restSorted⟩ := pairwise_cons.mp sorted
    simp only [shortest?] at found
    refine forall_mem_cons.mpr ?_
    split at found
    · rename_i missing
      obtain rfl := Option.some.inj found
      simp [eq_nil_of_shortest?_none missing, Region.Precedes]
    · rename_i next next_eq
      have nextFirst := ih restSorted next_eq
      split at found
      · rename_i shorter
        obtain rfl := Option.some.inj found
        exact ⟨.inl shorter, nextFirst⟩
      · rename_i notShorter
        obtain rfl := Option.some.inj found
        refine ⟨.inr ⟨rfl, le_refl _⟩, fun other mem => ?_⟩
        have := nextFirst other mem
        have := lowest other mem
        unfold Region.Precedes at *
        omega

/-- The best fit precedes every region with room. -/
theorem precedes_of_bestFit? {best} (ordered : Ordered regions) (power : alignment.isPowerOfTwo)
    (found : bestFit? regions size alignment = .ok (some best)) :
    ∀ other ∈ regions, other.Hosts size alignment → best.region.Precedes other := by
  obtain ⟨fitting, best_eq, sublist, -, complete⟩ := bestFit?_eq found
  have sorted : fitting.Pairwise fun left right => left.region.head ≤ right.region.head := by
    have byHead : regions.Pairwise fun left right => left.head ≤ right.head := by
      refine ordered.1.imp_of_mem fun inLeft _ apart => ?_
      have := ordered.2 _ inLeft
      omega
    simpa only [pairwise_map] using byHead.sublist sublist
  intro other mem hosts
  obtain ⟨start, aligned, listed⟩ := complete other mem
  exact precedes_of_shortest? sorted best_eq _ (listed ((hosts_iff power aligned).mp hosts))

namespace FreeList

variable {free : FreeList}

/-- Room is found if the request fits behind all bytes up to the high-water mark. -/
theorem place_succeeds (wellFormed : free.WellFormed)
    (small : free.top + (alignment - 1) + size < addressLimit) :
    ∃ start next, free.place size alignment = .ok (start, next) := by
  cases out : free.place size alignment with
  | ok result => exact ⟨result.1, result.2, rfl⟩
  | error cause =>
    rcases (place_error out).2 with ⟨region, mem, large⟩ | large
    · have := wellFormed.ordered.2 region mem
      have := wellFormed.below region mem
      omega
    · rcases growth_cases wellFormed with ⟨region, mem, _, _⟩ | ⟨-, base_eq⟩
      · have := wellFormed.ordered.2 region mem
        omega
      · omega

/-- If a free region has room for a request at its first aligned address, the request goes
there in the shortest such region, the lowest one among equals, and the frame does not grow.
Otherwise the frame grows to the end of the request, which goes to the first aligned address
from the start of the free region at the end of the frame on, or from the end on if there is
none. -/
theorem place_best_fit (wellFormed : free.WellFormed) (power : alignment.isPowerOfTwo)
    (size : Nat) :
    (free.top + (alignment - 1) + size < addressLimit →
      ∃ start next, free.place size alignment = .ok (start, next)) ∧
    ∀ start next, free.place size alignment = .ok (start, next) →
      ((∃ region ∈ free.regions, region.Hosts size alignment) →
        next.top = free.top ∧
          ∃ region ∈ free.regions, region.Hosts size alignment ∧
            (∀ other ∈ free.regions, other.Hosts size alignment → region.Precedes other) ∧
            FirstAligned region.head alignment start) ∧
      ((∀ region ∈ free.regions, ¬region.Hosts size alignment) →
        next.top = start + size ∧
          ∃ base, free.GrowsFrom base ∧ FirstAligned base alignment start) := by
  refine ⟨place_succeeds wellFormed, fun start next placed => ?_⟩
  rcases place_eq placed with ⟨region, found, rfl⟩ | ⟨missing, alignedTo, rfl⟩
  · obtain ⟨member, alignedTo, toTail⟩ := bestFit?_some found
    have hosts : region.Hosts size alignment := (hosts_iff power alignedTo).mpr toTail
    refine ⟨fun _ => ⟨rfl, region, member, hosts, ?_, isLeast_alignUp power alignedTo⟩,
      fun noRoom => absurd hosts (noRoom region member)⟩
    exact precedes_of_bestFit? wellFormed.ordered power found
  · refine ⟨?_, fun _ => ⟨rfl, _, ?_, isLeast_alignUp power alignedTo⟩⟩
    · rintro ⟨region, member, hosts⟩
      obtain ⟨first, aligned, short⟩ := bestFit?_none missing member
      exact absurd ((hosts_iff power aligned).mp hosts) (Nat.not_le_of_lt short)
    · exact growth_cases wellFormed

/-- Of two regions of eight bytes with room the lower one is taken, before a longer one that
has no room at its first aligned address; a longer request starts behind the last region. -/
theorem place_best_fit_among_four :
    let free : FreeList := ⟨[⟨1, 10⟩, ⟨12, 20⟩, ⟨24, 32⟩, ⟨36, 40⟩], 40⟩
    let next : FreeList := ⟨[⟨1, 10⟩, ⟨12, 16⟩, ⟨24, 32⟩, ⟨36, 40⟩], 40⟩
    let grown : FreeList := ⟨[⟨1, 10⟩, ⟨12, 20⟩, ⟨24, 32⟩, ⟨36, 40⟩], 56⟩
    free.WellFormed ∧ free.place 4 8 = .ok (16, next) ∧ free.place 16 8 = .ok (40, grown) ∧
      (∃ region ∈ free.regions, region.Hosts 4 8 ∧
        (∀ other ∈ free.regions, other.Hosts 4 8 → region.Precedes other) ∧
        FirstAligned region.head 8 16) ∧
      ∃ base, free.GrowsFrom base ∧ FirstAligned base 8 40 := by
  intro free next grown
  have wellFormed : free.WellFormed := ⟨⟨by decide, by decide⟩, by decide⟩
  have placed : free.place 4 8 = .ok (16, next) := by decide +kernel
  have placedBehind : free.place 16 8 = .ok (40, grown) := by decide +kernel
  have fits : (⟨12, 20⟩ : Region).Hosts 4 8 :=
    (hosts_iff ⟨3, rfl⟩ (show alignUp 12 8 = .ok 16 from rfl)).mpr (by decide)
  have tooLong : ∀ region ∈ free.regions, ¬region.Hosts 16 8 := by
    have short : ∀ region ∈ free.regions, region.tail < region.head + 16 := by decide
    rintro region member ⟨start, first, fits⟩
    have := short region member
    have := first.1.2
    omega
  have best := (place_best_fit wellFormed ⟨3, rfl⟩ 4).2 _ _ placed
  have behind := (place_best_fit wellFormed ⟨3, rfl⟩ 16).2 _ _ placedBehind
  exact ⟨wellFormed, placed, placedBehind, (best.1 ⟨_, by decide, fits⟩).2, (behind.2 tooLong).2⟩

end FreeList

end StructWasm.Frame

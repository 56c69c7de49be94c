import StructWasm.Frame.Error

/-!
# Free list of a frame

While a frame is laid out, the bytes below its high-water mark are either in use
or listed as free. Free regions are kept in the order of their addresses and
never touch each other. A request takes the shortest free region that holds it
at its first aligned address; only if there is none does the frame grow, and
then from the start of a free region at its end.
-/

namespace StructWasm.Frame

def addressLimit : Nat := 0x100000000

/-- The least value from `value` on whose low bits are clear, where the mask of
low bits is `alignment - 1`. For a power of two this is the least multiple. -/
def alignUp (value alignment : Nat) : Except Error Nat :=
  let mask := alignment - 1
  let raised := value + mask
  if raised < addressLimit then
    .ok (raised - (raised &&& mask))
  else
    .error .frameTooLarge

/-- The bytes from `head` up to, not including, `tail`. -/
structure Region where
  head : Nat
  tail : Nat
  deriving DecidableEq, Repr

def Region.length (region : Region) : Nat :=
  region.tail - region.head

/-- The bytes from `head` to `tail` as a list of regions: none if there are no
bytes. -/
def between (head tail : Nat) : List Region :=
  if head < tail then [{ head, tail }] else []

/-- A free region and its first aligned address. -/
structure Candidate where
  region : Region
  start : Nat
  deriving DecidableEq, Repr

/-- Free bytes of a frame and its high-water mark. -/
structure FreeList where
  regions : List Region
  top : Nat
  deriving DecidableEq, Repr

namespace FreeList

def empty : FreeList :=
  { regions := [], top := 0 }

def candidates (alignment : Nat) (regions : List Region) :
    Except Error (List Candidate) :=
  regions.mapM fun region => do
    let start ← alignUp region.head alignment
    return { region := region, start }

/-- The candidate with the shortest region, the first one among equals. -/
def shortest? : List Candidate → Option Candidate
  | [] => none
  | candidate :: rest =>
    match shortest? rest with
    | none => some candidate
    | some best =>
      if best.region.length < candidate.region.length then
        some best
      else
        some candidate

def bestFit? (regions : List Region) (size alignment : Nat) :
    Except Error (Option Candidate) := do
  let all ← candidates alignment regions
  return shortest? (all.filter fun candidate =>
    candidate.start + size ≤ candidate.region.tail)

def carve (chosen : Region) (start stop : Nat) : List Region → List Region
  | [] => []
  | region :: rest =>
    if region = chosen then
      between region.head start ++ between stop region.tail ++ rest
    else
      region :: carve chosen start stop rest

/-- Where the frame grows from, and the free regions below: the start of a free
region at the end of the frame, or the end itself. -/
def growth (free : FreeList) : Nat × List Region :=
  match free.regions.getLast? with
  | some last =>
    if last.tail = free.top then
      (last.head, free.regions.dropLast)
    else
      (free.top, free.regions)
  | none => (free.top, free.regions)

def grow (free : FreeList) (size alignment : Nat) : Except Error (Nat × FreeList) := do
  let (base, below) := free.growth
  let start ← alignUp base alignment
  if start + size < addressLimit then
    return (start, { regions := below ++ between base start, top := start + size })
  else
    throw .frameTooLarge

/-- Find room for a request: its address, and the free list without it. -/
def place (free : FreeList) (size alignment : Nat) : Except Error (Nat × FreeList) := do
  match ← bestFit? free.regions size alignment with
  | some best =>
    return (best.start,
      { free with
        regions := carve best.region best.start (best.start + size) free.regions })
  | none => free.grow size alignment

def joinNext (region : Region) : List Region → List Region
  | [] => [region]
  | next :: rest =>
    if next.head = region.tail then
      { head := region.head, tail := next.tail } :: rest
    else
      region :: next :: rest

/-- Put a region into its place, joined with the neighbours that it touches. -/
def insertRegion (region : Region) : List Region → List Region
  | [] => [region]
  | first :: rest =>
    if first.head < region.head then
      if first.tail = region.head then
        joinNext { head := first.head, tail := region.tail } rest
      else
        first :: insertRegion region rest
    else
      joinNext region (first :: rest)

def release (free : FreeList) (head size : Nat) : FreeList :=
  { free with regions := insertRegion { head, tail := head + size } free.regions }

end FreeList
end StructWasm.Frame

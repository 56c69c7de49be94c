import StructWasm.Binary64
import StructWasm.Decimal

/-!
# Shortest decimal text of a floating-point word

A word is written with the fewest significant digits that read back to it, the
nearest such decimal if there are several. Reading rounds to the nearest word,
so the decimals that read back to `m * 2 ^ q` fill the interval between the
midpoints to its two neighbours, ends included exactly when `m` is even.

All quantities are counted in quarters of the last bit, which makes the value
and both ends of the interval integers.
-/

namespace StructWasm.Binary64
namespace Text

/-- A positive value with the interval of values that round to it, as integers
over the common denominator `denominator`. -/
structure Target where
  lower : Nat
  value : Nat
  upper : Nat
  denominator : Nat
  closed : Bool

/-- The interval of a finite word other than zero. The gap below a power of two
is half as wide as the gap above it. -/
def target (word : Binary64) : Target :=
  let quarters := 4 * word.significand
  let below := if word.fraction = 0 ∧ 1 < word.exponentField then 1 else 2
  let scale : Nat := 1 <<< (word.exponent - 2).toNat
  { lower := (quarters - below) * scale
    value := quarters * scale
    upper := (quarters + 2) * scale
    denominator := 1 <<< (2 - word.exponent).toNat
    closed := word.significand % 2 == 0 }

namespace Target

def unscale (interval : Target) (power : Int) : Target :=
  let factor := Nat.pow 10 (-power).toNat
  { interval with
    lower := interval.lower * factor
    value := interval.value * factor
    upper := interval.upper * factor
    denominator := interval.denominator * Nat.pow 10 power.toNat }

def contains (interval : Target) (candidate : Nat) : Bool :=
  let numerator := candidate * interval.denominator
  if interval.closed then
    interval.lower ≤ numerator && numerator ≤ interval.upper
  else
    interval.lower < numerator && numerator < interval.upper

/-- The natural number next to the value that lies in the interval, the nearer
one if both neighbours do, the greater one if they are equally near. -/
def nearest? (interval : Target) : Option Nat :=
  let floor := interval.value / interval.denominator
  let remainder := interval.value % interval.denominator
  match interval.contains floor, interval.contains (floor + 1) with
  | true, true =>
    some (if interval.denominator ≤ 2 * remainder then floor + 1 else floor)
  | true, false => some floor
  | false, true => some (floor + 1)
  | false, false => none

def leadingExponent (interval : Target) : Int :=
  if interval.denominator ≤ interval.value then
    ((Decimal.digits (interval.value / interval.denominator)).length : Int) - 1
  else
    let inverse := (Decimal.digits (interval.denominator / interval.value)).length
    if interval.denominator = interval.value * Nat.pow 10 (inverse - 1) then
      1 - (inverse : Int)
    else
      -(inverse : Int)

/-- The first decimal `coefficient * 10 ^ power` with `count` or more digits, up
to `count + attempts`, that lies in the interval. -/
def search (interval : Target) (leading : Int) (count : Nat) :
    Nat → Nat × Int
  | 0 => (interval.value / interval.denominator, 0)
  | attempts + 1 =>
    let power := leading + 1 - count
    match (interval.unscale power).nearest? with
    | some coefficient => (coefficient, power)
    | none => interval.search leading (count + 1) attempts

end Target

/-- Coefficient and power of ten of the shortest decimal of a finite word other
than zero. Seventeen digits always suffice. -/
def shortest (word : Binary64) : Nat × Int :=
  let interval := target word
  interval.search interval.leadingExponent 1 17

def dropTrailingZeros (fraction : List Char) : List Char :=
  (fraction.reverse.dropWhile (· == '0')).reverse

def positional (coefficient : Nat) (power : Int) : List Char :=
  let digits := Decimal.digits coefficient
  if 0 ≤ power then
    digits ++ List.replicate power.toNat '0'
  else
    let places := (-power).toNat
    let padded := List.replicate (places + 1 - digits.length) '0' ++ digits
    let whole := padded.take (padded.length - places)
    match dropTrailingZeros (padded.drop (padded.length - places)) with
    | [] => whole
    | fraction => whole ++ '.' :: fraction

def magnitude (word : Binary64) : List Char :=
  if !word.isFinite then
    ['i', 'n', 'f']
  else if word.significand = 0 then
    ['0']
  else
    let (coefficient, power) := shortest word
    positional coefficient power

end Text

/-- Decimal text of a word: positional, with the fewest digits that read back,
no fraction for an integer, and a sign also on a negative zero. -/
def text (word : Binary64) : String :=
  if word.isNaN then
    "NaN"
  else if word.negative then
    String.ofList ('-' :: Text.magnitude word)
  else
    String.ofList (Text.magnitude word)

end StructWasm.Binary64

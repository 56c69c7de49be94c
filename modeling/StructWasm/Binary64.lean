import StructWasm.Bytes

/-!
# Floating-point words

The IEEE-754 formats of 64 and 32 bits as bit patterns. A finite pattern stands
for `significand * 2 ^ exponent` with a sign; everything the program needs of a
number (is it an integer, which one, what is it as a 32-bit float) is decided on
these two exact quantities.
-/

namespace StructWasm

/-- A 64-bit floating-point word. -/
structure Binary64 where
  bits : UInt64
  deriving DecidableEq, Inhabited, Repr

/-- A 32-bit floating-point word. -/
structure Binary32 where
  bits : UInt32
  deriving DecidableEq, Inhabited, Repr

/-- `numerator / 2 ^ shift` rounded to the nearest natural number, a half going
to the even neighbour. -/
def roundShift (numerator shift : Nat) : Nat :=
  let unit : Nat := 1 <<< shift
  let quotient := numerator / unit
  let twice := 2 * (numerator % unit)
  if unit < twice || (twice == unit && quotient % 2 == 1) then
    quotient + 1
  else
    quotient

def bitLength (value : Nat) : Nat :=
  if value = 0 then 0 else value.log2 + 1

/-- Exponent and fraction fields of the word nearest to
`significand * 2 ^ exponent`, for a format with `precision` significant bits
whose smallest unit is `2 ^ leastExponent`. A value beyond the format runs into
the exponents that no finite word has. -/
def roundedMagnitude
    (precision : Nat)
    (leastExponent : Int)
    (significand : Nat)
    (exponent : Int) : Nat :=
  let unitExponent :=
    max leastExponent (exponent + (bitLength significand : Int) - precision)
  let rounded :=
    if unitExponent ≤ exponent then
      significand <<< (exponent - unitExponent).toNat
    else
      roundShift significand (unitExponent - exponent).toNat
  if significand = 0 then
    0
  else
    (unitExponent - leastExponent).toNat <<< (precision - 1) + rounded

namespace Binary64

def negative (word : Binary64) : Bool :=
  0x8000000000000000 ≤ word.bits.toNat

def exponentField (word : Binary64) : Nat :=
  word.bits.toNat / 0x10000000000000 % 2048

def fraction (word : Binary64) : Nat :=
  word.bits.toNat % 0x10000000000000

/-- Whether the word stands for a number: neither an infinity nor a NaN. -/
def isFinite (word : Binary64) : Bool :=
  word.exponentField < 2047

def isNaN (word : Binary64) : Bool :=
  word.exponentField == 2047 && word.fraction != 0

/-- The integer `m` in the magnitude `m * 2 ^ word.exponent` of a finite word. -/
def significand (word : Binary64) : Nat :=
  if word.exponentField = 0 then word.fraction else 0x10000000000000 + word.fraction

def exponent (word : Binary64) : Int :=
  if word.exponentField = 0 then -1074 else (word.exponentField : Int) - 1075

def negate (word : Binary64) : Binary64 :=
  ⟨word.bits ^^^ 0x8000000000000000⟩

def signed (word : Binary64) (magnitude : Nat) : Int :=
  if word.negative then -(magnitude : Int) else magnitude

def integer? (word : Binary64) : Option Int :=
  if word.isFinite then
    if 0 ≤ word.exponent then
      some (word.signed (word.significand <<< word.exponent.toNat))
    else
      let unit : Nat := 1 <<< (-word.exponent).toNat
      if word.significand % unit = 0 then
        some (word.signed (word.significand / unit))
      else
        none
  else
    none

def ofInt (value : Int) : Binary64 :=
  let magnitude := min (roundedMagnitude 53 (-1074) value.natAbs 0) 0x7ff0000000000000
  ⟨UInt64.ofNat (magnitude + if value < 0 then 0x8000000000000000 else 0)⟩

/-- The 32-bit word nearest to a word, a half going to the even neighbour and a
value that is too large going to infinity. A NaN keeps its sign and the upper
part of its fraction, and is made quiet. -/
def narrow (word : Binary64) : Binary32 :=
  let infinity := 0x7f800000
  let magnitude :=
    if word.isFinite then
      min (roundedMagnitude 24 (-149) word.significand word.exponent) infinity
    else if word.isNaN then
      infinity + (0x400000 ||| word.fraction >>> 29)
    else
      infinity
  ⟨UInt32.ofNat (magnitude + if word.negative then 0x80000000 else 0)⟩

def bytes (word : Binary64) : Bytes :=
  Bytes.littleEndian 8 word.bits.toNat

end Binary64

namespace Binary32

/-- Whether the word stands for a number: neither an infinity nor a NaN. -/
def isFinite (word : Binary32) : Bool :=
  word.bits.toNat / 0x800000 % 256 < 255

def bytes (word : Binary32) : Bytes :=
  Bytes.littleEndian 4 word.bits.toNat

end Binary32
end StructWasm

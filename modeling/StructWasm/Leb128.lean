import StructWasm.Bytes

/-!
# LEB128 integers

Integers as groups of seven bits, least significant group first, with the high
bit of a byte set while more groups follow. Unsigned values stop when nothing
is left; signed values stop as soon as the sign bit of the last group describes
what is left.

Reading starts at a position of a byte string and is limited to 64 bits: ten
bytes at most. The unsigned reader refuses a tenth byte that does not fit, the
signed reader drops the bits of the tenth byte that lie above bit 63.
-/

namespace StructWasm.Leb128

def encodeUnsigned (value : Nat) : Bytes :=
  if value < 128 then
    [UInt8.ofNat value]
  else
    UInt8.ofNat (value % 128 + 128) :: encodeUnsigned (value / 128)

/-- Signed encoding of an integer. One group describes the integers from -64
to 63. -/
def encodeSigned (value : Int) : Bytes :=
  let group := (value % 128).toNat
  if -64 ≤ value ∧ value < 64 then
    [UInt8.ofNat group]
  else
    UInt8.ofNat (group + 128) :: encodeSigned (value / 128)
termination_by value.natAbs
decreasing_by omega

def groupOf (byte : UInt8) : Nat :=
  byte.toNat % 128

def continues (byte : UInt8) : Bool :=
  128 ≤ byte.toNat

/-- Read the groups that remain of an unsigned number. The groups before them
took `shift` bits and are worth `value`; the next byte stands at `offset`. The
answer is the number and the position after it. -/
def decodeUnsignedFrom
    (shift offset value : Nat) : Bytes → Except DecodeError (Nat × Nat)
  | [] => .error (.unexpectedEnd offset)
  | byte :: rest =>
    if 64 ≤ shift ∨ (shift = 63 ∧ 2 ≤ groupOf byte) then
      .error (.overlong offset)
    else
      let value := value + groupOf byte <<< shift
      if continues byte then
        decodeUnsignedFrom (shift + 7) (offset + 1) value rest
      else
        .ok (value, offset + 1)

def decodeUnsigned (bytes : Bytes) (position : Nat) :
    Except DecodeError (Nat × Nat) :=
  decodeUnsignedFrom 0 position 0 (bytes.drop position)

/-- Read the groups that remain of a signed number, as `decodeUnsignedFrom`
does for an unsigned one. -/
def decodeSignedFrom
    (shift offset value : Nat) : Bytes → Except DecodeError (Int × Nat)
  | [] => .error (.unexpectedEnd offset)
  | byte :: rest =>
    if 64 ≤ shift then
      .error (.overlong offset)
    else
      let value := value + groupOf byte <<< shift
      if continues byte then
        decodeSignedFrom (shift + 7) (offset + 1) value rest
      else if shift + 7 < 64 ∧ 64 ≤ groupOf byte then
        .ok ((value : Int) - (1 <<< (shift + 7) : Nat), offset + 1)
      else
        .ok (Int.bmod value 0x10000000000000000, offset + 1)

def decodeSigned (bytes : Bytes) (position : Nat) :
    Except DecodeError (Int × Nat) :=
  decodeSignedFrom 0 position 0 (bytes.drop position)

def lengthPrefixed (bytes : Bytes) : Bytes :=
  encodeUnsigned bytes.length ++ bytes

def name (text : String) : Bytes :=
  lengthPrefixed (Bytes.utf8 text)

end StructWasm.Leb128

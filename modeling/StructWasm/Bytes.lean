/-!
# Byte strings

Fixed-width words as bytes, least significant first, and the errors of reading
numbers from bytes.
-/

namespace StructWasm

abbrev Bytes := List UInt8

/-- Why bytes cannot be read as a number. -/
inductive DecodeError where
  | unexpectedEnd (offset : Nat)
  | overlong (offset : Nat)
  deriving DecidableEq, Repr

namespace DecodeError

def offset : DecodeError → Nat
  | unexpectedEnd offset => offset
  | overlong offset => offset

def message : DecodeError → String
  | unexpectedEnd offset => "unexpected end of input at byte " ++ toString offset
  | overlong offset => "integer encoding too long at byte " ++ toString offset

end DecodeError

namespace Bytes

def littleEndian (width value : Nat) : Bytes :=
  match width with
  | 0 => []
  | width + 1 => UInt8.ofNat (value % 256) :: littleEndian width (value / 256)

/-- The natural number whose bytes are given, least significant first. -/
def ofLittleEndian : Bytes → Nat
  | [] => 0
  | byte :: rest => byte.toNat + 256 * ofLittleEndian rest

def decodeWord (width : Nat) (bytes : Bytes) (position : Nat) :
    Except DecodeError (Nat × Nat) :=
  if position + width ≤ bytes.length then
    .ok (ofLittleEndian ((bytes.drop position).take width), position + width)
  else
    .error (.unexpectedEnd position)

def utf8 (text : String) : Bytes :=
  text.toUTF8.toList

end Bytes
end StructWasm

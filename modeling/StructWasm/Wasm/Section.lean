import StructWasm.Fault
import StructWasm.Leb128

/-!
# Sections of a module

A section is a number that says what it holds, and its contents. It is written
as the number, the length of the contents and the contents.
-/

namespace StructWasm.Wasm

/-- A section of a module. -/
structure Section where
  id : UInt8
  payload : Bytes
  deriving DecidableEq, Repr

namespace Section

def custom (name : String) (data : Bytes) : Section :=
  { id := 0, payload := Leb128.name name ++ data }

def checkSize (part : Section) : Except Fault Unit :=
  Limit.check "section payload size" part.payload.length

def encode (part : Section) : Bytes :=
  part.id :: Leb128.lengthPrefixed part.payload

/-- The section of a list of parts, written after their number. There is none
for an empty list. -/
def ofVector? (id : UInt8) (parts : List Bytes) : Option Section :=
  if parts.isEmpty then
    none
  else
    some { id, payload := Leb128.encodeUnsigned parts.length ++ parts.flatten }

end Section
end StructWasm.Wasm

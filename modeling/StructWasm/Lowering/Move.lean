import StructWasm.Lowering.Ownership

/-!
# Moving values

A structure value that is used is either moved out of its variable or, if it is
a temporary, gives its slot back once its bytes have been read. Bytes are copied
primitive by primitive.
-/

namespace StructWasm.Lowering

/-- A structure value in a slot of its own. -/
structure Temporary where
  type : Ty
  address : Address
  slot : Frame.Allocation
  deriving DecidableEq, Repr

def Temporary.value (temporary : Temporary) : Value :=
  .struct {
    type := temporary.type
    address := temporary.address
    source := .temporary temporary.slot }

def copyLeaf (source target : Address) (leaf : Nat × Wasm.ValType) :
    Except Fault Code := do
  let (bytes, type) := leaf
  let taken ← source.offset.plus bytes
  let put ← target.offset.plus bytes
  return [.localGet target.base, .localGet source.base,
    .load type (.natural type taken), .store type (.natural type put)]

def copyStruct (type : Ty) (source target : Address) : Emit Code := do
  let leaves := (← read).layouts.leaves type
  let code ← check (leaves.mapM (copyLeaf source target))
  return code.flatten

/-- Use a value: move it out of its variable, or give the slot of a temporary,
which is to be released once the bytes have been read. -/
def take (value : StructValue) (span : Span) : Emit (Option Frame.Allocation) :=
  match value.source with
  | .variable node => do
      consume node span
      return none
  | .temporary slot => return some slot

def moveInto (value : StructValue) (target : Address) (span : Span) : Emit Code := do
  let slot? ← take value span
  let code ← copyStruct value.type value.address target
  match slot? with
  | none => pure ()
  | some slot => release slot
  return code

def materialize (value : StructValue) (span : Span) : Emit (Code × Temporary) := do
  match value.source with
  | .temporary slot => return ([], { type := value.type, address := value.address, slot })
  | .variable _ =>
    let (slot, address) ← allocateStruct value.type
    let code ← moveInto value address span
    return (code, { type := value.type, address, slot })

def discard : Value → Emit Code
  | .scalar _ => return [.drop]
  | .struct { source := .temporary slot, .. } => do
      release slot
      return []
  | _ => return []

def expectScalar (value : Value) (type : Ty) (span : Span) : Emit Unit :=
  match value with
  | .never => pure ()
  | .scalar actual =>
    if actual = type then pure () else fail (.typeMismatch type value.found) span
  | _ => fail (.typeMismatch type value.found) span

def expectStruct (value : Value) (type : Ty) (span : Span) : Emit StructValue :=
  match value with
  | .struct actual =>
    if actual.type = type then
      pure actual
    else
      fail (.typeMismatch type value.found) span
  | _ => fail (.typeMismatch type value.found) span

end StructWasm.Lowering

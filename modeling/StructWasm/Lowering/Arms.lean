import StructWasm.Lowering.Move

/-!
# Arms of a choice

Both arms of a choice have to give the same kind of value. A structure that they
give ends up in one slot: the slot is made in advance if the type is known, and
otherwise the first arm provides it. What the arms made becomes an alias of it.
-/

namespace StructWasm.Lowering

/-- The slot that the structure result of a choice ends up in. -/
abbrev ResultSlot := Frame.Allocation × Address

/-- A slot for the result of a choice whose type is known to be a structure. -/
def choiceSlot (predicted : Option Ty) : Emit (Option ResultSlot) := do
  match predicted with
  | some type => if type.isStruct then return some (← allocateStruct type) else return none
  | none => return none

/-- The value of the first part of a choice without a second part is dropped. -/
def dropArm (value : Value) : Emit (Code × Value) := do
  if value.isNever then
    return ([], value)
  else
    return (← discard value, .nothing)

def shareSlot (temporary : Temporary) (result : ResultSlot) : Emit Value := do
  updateFrame fun frame => frame.makeAlias temporary.slot.id result.1.id
  return { temporary with address := result.2, slot := result.1 }.value

/-- Bring the structure that the first arm gives into the slot of the result. If
there is no slot yet, its own becomes the slot. -/
def settleFirst (value : Value) (slot? : Option ResultSlot) (span : Span) :
    Emit (Code × Value × Option ResultSlot) := do
  match value with
  | .struct held =>
    let (code, temporary) ← materialize held span
    match slot? with
    | some result => return (code, ← shareSlot temporary result, slot?)
    | none => return (code, temporary.value, some (temporary.slot, temporary.address))
  | other => return ([], other, slot?)

/-- Bring the structure that the second arm gives into the slot of the result. -/
def settleSecond (value : Value) (slot? : Option ResultSlot) (span : Span) :
    Emit (Code × Value) := do
  match value with
  | .struct held =>
    let (code, temporary) ← materialize held span
    match slot? with
    | some result => return (code, ← shareSlot temporary result)
    | none => fail (.structureOnlyInElse held.type) span
  | other => return ([], other)

def blockTypeOf : Value → Wasm.BlockType
  | .scalar type => .value type.valType
  | _ => .empty

def joinValues (first second : Value) (span : Span) : Emit Value :=
  match first, second with
  | .never, value => pure value
  | value, .never => pure value
  | .scalar left, .scalar right =>
    if left = right then
      pure first
    else
      fail (.differentArms first.found second.found) span
  | .struct left, .struct right =>
    if left.type = right.type then
      pure first
    else
      fail (.differentArms first.found second.found) span
  | .nothing, .nothing => pure .nothing
  | _, _ => fail (.differentArms first.found second.found) span

/-- Give back the slot of the result if the choice gives no structure. -/
def releaseUnused (slot? : Option ResultSlot) (value : Value) : Emit Unit :=
  match slot?, value with
  | some _, .struct _ => pure ()
  | some (slot, _), _ => release slot
  | none, _ => pure ()

end StructWasm.Lowering

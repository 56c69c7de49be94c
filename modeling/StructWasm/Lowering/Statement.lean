import StructWasm.Lowering.Move

/-!
# Steps for statements

What lowering a statement does around the lowering of the expressions inside it.
-/

namespace StructWasm.Lowering

/-! ## Declarations -/

/-- Declare a variable without a value. Only a structure can be left undefined; its
fields are then assigned one by one. -/
def declareEmpty (span : Span) (name : Ident) (type : Option TypeNote) : Emit Unit := do
  match type with
  | none => fail (.missingTypeAndValue name.name) span
  | some note =>
    let type ← resolveType note
    if type.isStruct then
      let (slot, address) ← allocateStruct type
      let node ← newValue name.name type
      declare name.name (.struct { type, address, node, slot? := some slot })
    else
      fail (.missingInitialValue name.name type) span

def checkDeclared (declared : Option Ty) (value : Value) (span : Span) : Emit Unit :=
  match declared, value.found with
  | some type, .value actual =>
    if actual = type then pure () else fail (.typeMismatch type value.found) span
  | _, _ => pure ()

/-- Declare a variable with the value of its initializer, and say whether control
cannot go on. -/
def declareValue (span : Span) (name : Ident) (value : Value) (valueSpan : Span) :
    Emit (Code × Bool) := do
  match value with
  | .never => return ([], true)
  | .nothing => fail (.emptyInitializer name.name) valueSpan
  | .scalar type =>
    let place ← allocateLocal type.valType
    declare name.name (.scalar type place)
    return ([.localSet place], false)
  | .struct held =>
    let (code, temporary) ← materialize held valueSpan
    let node ← newValue name.name temporary.type
    define node span
    declare name.name (.struct {
      type := temporary.type
      address := temporary.address
      node
      slot? := some temporary.slot })
    return (code, false)

/-! ## Assignments -/

/-- What an assignment writes to. -/
inductive Target where
  | scalar (type : Ty) (place : LocalRef)
  | part (type : Ty) (address : Address) (node : Ownership.NodeId)
  deriving DecidableEq, Repr

def followPath (type : Ty) (address : Address) (node : Ownership.NodeId) :
    List Ident → Emit (Ty × Address × Ownership.NodeId)
  | [] => return (type, address, node)
  | segment :: rest => do
      match (← read).layouts.field? type segment.name with
      | none =>
        if type.isStruct then
          fail (.unknownField type.text segment.name) segment.span
        else
          fail (.notAStructure (.value type) segment.name) segment.span
      | some field =>
        let address ← check (address.advance field.offset)
        let node ← fieldNode node type segment.name
        followPath field.type address node rest

def assignmentTarget (span : Span) (target : List Ident) : Emit Target := do
  match target with
  | [] => throw (.inconsistent .emptyTarget)
  | root :: path =>
    match lookup? (← get).scopes root.name, path with
    | none, _ => fail (.unresolvedName root.name) root.span
    | some (.scalar type place), [] => return .scalar type place
    | some (.scalar type _), segment :: _ =>
      fail (.notAStructure (.value type) segment.name) segment.span
    | some (.struct held), path =>
      let (type, address, node) ← followPath held.type held.address held.node path
      let arena := (← get).arena
      if arena.loan? node = some .read then
        fail (.assignmentWhileReading (arena.path node)) span
      return .part type address node

/-! ## Results -/

/-- Hand a value over as the result of the function: a primitive stays on the
operand stack, a structure is moved to the address that the caller gave. -/
def lowerResult (value : Value) (span : Span) : Emit Code := do
  match (← read).result, value with
  | _, .never => return []
  | .nothing, .nothing => return []
  | .nothing, other => fail (.unexpectedResult other.found) span
  | .scalar type, .nothing => fail (.missingResult type) span
  | .struct type _, .nothing => fail (.missingResult type) span
  | .struct type base, value =>
    let actual ← expectStruct value type span
    moveInto actual { base, offset := .fixed 0 } span
  | .scalar type, value =>
    expectScalar value type span
    return []

end StructWasm.Lowering

import StructWasm.Lowering.StaticType
import StructWasm.Lowering.Value

/-!
# Working on a function

The state in which a function is lowered: its locals, its frame, the ownership of
its structure values, the variables in scope, and the functions that it asked
for. Lowering reads the declarations of the program, and stops at the first
fault; what was asked for until then is kept.
-/

namespace StructWasm.Lowering

/-- What lowering a function can see. -/
structure Context where
  file : String
  layouts : Layouts
  signature? : String → Option (Option Signature)
  framePointer : LocalRef
  result : ResultPlan

/-- The state of a function that is being lowered. -/
structure Workspace where
  locals : LocalPool
  frame : Frame.Allocator
  arena : Ownership.Arena
  scopes : List Scope
  requests : List String

abbrev Emit := ReaderT Context (EStateM Fault Workspace)

/-! ## Faults -/

def fail {α : Type} (mistake : Mistake) (span : Span) : Emit α := do
  throw (.semantic [mistake.report (← read).file span])

def check {α : Type} (outcome : Except Fault α) : Emit α :=
  match outcome with
  | .ok value => pure value
  | .error fault => throw fault

def resolveType (note : TypeNote) : Emit Ty := do
  match (← read).layouts.resolve note.type with
  | .ok type => return type
  | .error mistake => fail mistake note.span

/-! ## Locals and frame -/

def allocateLocal (type : Wasm.ValType) : Emit LocalRef := do
  let work ← get
  let (locals, place) ← check (work.locals.allocate type)
  set { work with locals }
  return place

def freeLocal (place : LocalRef) : Emit Unit := do
  let work ← get
  let locals ← check (work.locals.free place)
  set { work with locals }

def onFrame {α : Type}
    (step : Frame.Allocator → Except Frame.Error (Frame.Allocator × α)) : Emit α := do
  let work ← get
  match step work.frame with
  | .ok (frame, value) =>
    set { work with frame }
    return value
  | .error cause => throw (.frame cause)

def updateFrame (step : Frame.Allocator → Except Frame.Error Frame.Allocator) : Emit Unit :=
  onFrame fun frame => do return (← step frame, ())

/-- The address of a slot. A slot without bytes is never placed, so any address
will do; the start of the frame serves. -/
def slotAddress (slot : Frame.Allocation) : Emit Address := do
  return {
    base := (← read).framePointer
    offset := if slot.size = 0 then .fixed 0 else .ofBase (.slot slot.id) }

def allocateStruct (type : Ty) : Emit (Frame.Allocation × Address) := do
  let layouts := (← read).layouts
  let slot ← onFrame fun frame => frame.allocate (layouts.size type) (layouts.alignment type)
  return (slot, ← slotAddress slot)

def release (slot : Frame.Allocation) : Emit Unit :=
  if 0 < slot.size then
    updateFrame fun frame => frame.free slot.id
  else
    pure ()

/-! ## Scopes -/

def declare (name : String) (binding : Binding) : Emit Unit :=
  modify fun work =>
    { work with
      scopes :=
        match work.scopes with
        | [] => []
        | scope :: outer => ((name, binding) :: scope) :: outer }

/-- What a name stands for. The latest declaration in the innermost scope
counts. -/
def lookup? (scopes : List Scope) (name : String) : Option Binding :=
  scopes.findSome? fun scope => scope.lookup name

def releaseBinding : Binding → Emit Unit
  | .scalar _ place => if place.isParam then pure () else freeLocal place
  | .struct entry =>
    match entry.slot? with
    | none => pure ()
    | some slot => release slot

def pushScope : Emit Unit :=
  modify fun work => { work with scopes := [] :: work.scopes }

/-- Leave the innermost scope and give back what its variables hold, the latest
first. -/
def popScope : Emit Unit := do
  let work ← get
  set { work with scopes := work.scopes.tail }
  (work.scopes.headD []).forM fun (_, binding) => releaseBinding binding

def typeEnv : Emit TypeEnv := do
  let context ← read
  let scopes := (← get).scopes
  return {
    layouts := context.layouts
    variableType? := fun name => (lookup? scopes name).map Binding.type
    resultType? := fun name =>
      (context.signature? name).join.bind Signature.result }

end StructWasm.Lowering

import StructWasm.Fault

/-!
# Locals of a function

Parameters take the first indices. Other locals are handed out as slots of a
type; a slot that is given back is handed out again, the latest one first. When
the function is finished the slots are numbered after the parameters, grouped by
type, so that the locals can be declared as a short list of groups.
-/

namespace StructWasm

/-- Where a local stands. -/
inductive LocalPlace where
  | param (position : Nat)
  | slot (id : Nat)
  deriving DecidableEq, Repr

/-- A local of a function. -/
structure LocalRef where
  type : Wasm.ValType
  place : LocalPlace
  deriving DecidableEq, Repr

def LocalRef.isParam (ref : LocalRef) : Bool :=
  match ref.place with
  | .param _ => true
  | .slot _ => false

/-- A slot for locals of one type. -/
structure LocalSlot where
  type : Wasm.ValType
  inUse : Bool
  deriving DecidableEq, Repr

/-- The parameters and slots of a function. -/
structure LocalPool where
  params : List Wasm.ValType
  slots : Array LocalSlot
  freed : List Nat
  finished : Bool
  deriving DecidableEq, Repr

namespace LocalPool

def new (params : List Wasm.ValType) : LocalPool :=
  { params, slots := #[], freed := [], finished := false }

def param? (pool : LocalPool) (position : Nat) : Option LocalRef :=
  (pool.params[position]?).map fun type => { type, place := .param position }

def setInUse (pool : LocalPool) (id : Nat) (inUse : Bool) : LocalPool :=
  { pool with slots := pool.slots.modify id fun slot => { slot with inUse } }

def reusable? (pool : LocalPool) (type : Wasm.ValType) : Option Nat :=
  pool.freed.find? fun id => (pool.slots[id]?).any fun slot => slot.type == type

def allocate (pool : LocalPool) (type : Wasm.ValType) :
    Except Fault (LocalPool × LocalRef) :=
  if pool.finished then
    .error (.inconsistent .localAfterNumbering)
  else
    match pool.reusable? type with
    | some id =>
      .ok ({ pool.setInUse id true with freed := pool.freed.erase id },
        { type, place := .slot id })
    | none =>
      .ok ({ pool with slots := pool.slots.push { type, inUse := true } },
        { type, place := .slot pool.slots.size })

def free (pool : LocalPool) (ref : LocalRef) : Except Fault LocalPool :=
  match ref.place with
  | .param _ => .error (.inconsistent .parameterFreed)
  | .slot id =>
    match pool.slots[id]? with
    | none => .error (.inconsistent (.unknownLocal id))
    | some slot =>
      if slot.inUse then
        .ok { pool.setInUse id false with freed := id :: pool.freed }
      else
        .error (.inconsistent (.localFreedTwice id))

def countOf (pool : LocalPool) (type : Wasm.ValType) : Nat :=
  pool.slots.toList.countP fun slot => slot.type == type

def groups (pool : LocalPool) : List (Nat × Wasm.ValType) :=
  (Wasm.ValType.all.map fun type => (pool.countOf type, type)).filter fun group =>
    0 < group.1

def finish (pool : LocalPool) :
    Except Fault (LocalPool × List (Nat × Wasm.ValType)) :=
  if pool.finished then
    .error (.inconsistent .localsNumberedTwice)
  else
    .ok ({ pool with finished := true }, pool.groups)

/-- The number of a slot: after the parameters, the slots of the types before its
own and the earlier slots of its own type. -/
def slotIndex (pool : LocalPool) (type : Wasm.ValType) (id : Nat) : Nat :=
  let before := (Wasm.ValType.all.takeWhile (· != type)).map pool.countOf
  let earlier := (pool.slots.toList.take id).countP fun slot => slot.type == type
  pool.params.length + before.foldr (· + ·) 0 + earlier

/-- The index of a local, which for a slot is known once the slots are
numbered. -/
def index (pool : LocalPool) (ref : LocalRef) : Deferred :=
  match ref.place with
  | .param position => { label := "param", value? := some position }
  | .slot id =>
    { label := "local"
      value? := if pool.finished then some (pool.slotIndex ref.type id) else none }

end LocalPool
end StructWasm

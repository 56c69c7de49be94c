import StructWasm.Json.Value

/-!
# Reading records from JSON values

A record is an object with named members, or an array of its fields in order. An
object may hold members under unknown names, which are ignored, but no known
name twice. An array may not hold more items than the record has fields.
-/

namespace StructWasm.Json

/-- The value of each named field, where it is given. -/
abbrev FieldValues := List (String × Option Json)

def member? (name : String) (members : List (Option String × Json)) : Option Json :=
  (members.find? fun (key, _) => key == some name).map Prod.snd

def memberCount (name : String) (members : List (Option String × Json)) : Nat :=
  members.countP fun (key, _) => key == some name

/-- The members of an object under known names, unless a key has no text or a
known name is repeated. -/
def namedFields (names : List String) (members : List (Option String × Json)) :
    Option FieldValues :=
  if members.all (fun (key, _) => key.isSome) &&
      names.all (fun name => memberCount name members ≤ 1) then
    some (names.map fun name => (name, member? name members))
  else
    none

/-- The items of an array as fields in order, unless there are too many. -/
def positionalFields (names : List String) (items : List Json) : Option FieldValues :=
  if items.length ≤ names.length then
    some (names.zip (items.map some ++
      List.replicate (names.length - items.length) none))
  else
    none

def recordFields (names : List String) : Json → Option FieldValues
  | .object members => namedFields names members
  | .array items => positionalFields names items
  | _ => none

def FieldValues.find (fields : FieldValues) (name : String) : Option Json :=
  (fields.lookup name).join

def FieldValues.required (fields : FieldValues) (name : String)
    (read : Json → Option α) : Option α := do
  let value ← fields.find name
  read value

def FieldValues.withDefault (fields : FieldValues) (name : String)
    (default : α) (read : Json → Option α) : Option α :=
  match fields.find name with
  | none => some default
  | some value => read value

def natBelow? (bound : Nat) : Json → Option Nat
  | .number value => do
      let natural ← value.natural?
      if natural < bound then some natural else none
  | _ => none

def uint16? (value : Json) : Option UInt16 :=
  (value.natBelow? 0x10000).map UInt16.ofNat

def uint32? (value : Json) : Option UInt32 :=
  (value.natBelow? 0x100000000).map UInt32.ofNat

def count? (value : Json) : Option Nat :=
  value.natBelow? 0x10000000000000000

def bool? : Json → Option Bool
  | .bool value => some value
  | _ => none

def text? : Json → Option String
  | .string content => content
  | _ => none

def list? (read : Json → Option α) : Json → Option (List α)
  | .array items => items.mapM read
  | _ => none

def option? (read : Json → Option α) : Json → Option (Option α)
  | .null => some none
  | value => (read value).map some

/-- A name out of a fixed list: its text, or an object whose only member has the
name as its key and null as its value. -/
def choice? (choices : List (String × α)) : Json → Option α
  | .string (some name) => choices.lookup name
  | .object [(some name, .null)] => choices.lookup name
  | _ => none

end StructWasm.Json

import StructWasm.Decimal

/-!
# Deferred numbers

Code is built before the numbers in it are known: indices are given out when a
module is finished, places in a frame when its function is. A deferred number
has a label, is set once and can be read from then on.
-/

namespace StructWasm

/-- Why a deferred number cannot be used. -/
inductive DeferredError where
  | unresolved (label : String)
  | alreadyResolved (label : String)
  deriving DecidableEq, Repr

def DeferredError.message : DeferredError → String
  | unresolved label => "`" ++ label ++ "` was read before it was resolved"
  | alreadyResolved label => "`" ++ label ++ "` was resolved more than once"

/-- A number that may not be known yet. -/
structure Deferred where
  label : String
  value? : Option Nat
  deriving DecidableEq, Repr

namespace Deferred

def get (number : Deferred) : Except DeferredError Nat :=
  match number.value? with
  | none => .error (.unresolved number.label)
  | some value => .ok value

def resolve (number : Deferred) (value : Nat) : Except DeferredError Deferred :=
  match number.value? with
  | none => .ok { number with value? := some value }
  | some _ => .error (.alreadyResolved number.label)

def text (number : Deferred) : String :=
  number.label ++ "=" ++ (number.value?.map Decimal.natText).getD "?"

end Deferred
end StructWasm

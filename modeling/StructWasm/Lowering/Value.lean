import StructWasm.Lowering.Code
import StructWasm.Mistake

/-!
# Values and variables

What an expression leaves behind, and what the names in scope stand for. A
primitive is on the operand stack or in a local; a structure is in memory, either
in a slot of its own or as a variable or part of one.
-/

namespace StructWasm.Lowering

/-- What holds a structure value. -/
inductive Source where
  | temporary (slot : Frame.Allocation)
  | variable (node : Ownership.NodeId)
  deriving DecidableEq, Repr

/-- A structure value in memory. -/
structure StructValue where
  type : Ty
  address : Address
  source : Source
  deriving DecidableEq, Repr

/-- What an expression gives. -/
inductive Value where
  | scalar (type : Ty)
  | struct (value : StructValue)
  | nothing
  | never
  deriving DecidableEq, Repr

namespace Value

def found : Value → Found
  | scalar type => .value type
  | struct value => .value value.type
  | nothing => .nothing
  | never => .never

def isNever : Value → Bool
  | never => true
  | _ => false

end Value

/-- A structure variable. -/
structure StructVariable where
  type : Ty
  address : Address
  node : Ownership.NodeId
  slot? : Option Frame.Allocation
  deriving DecidableEq, Repr

/-- What a name in scope stands for. -/
inductive Binding where
  | scalar (type : Ty) (place : LocalRef)
  | struct (entry : StructVariable)
  deriving DecidableEq, Repr

def Binding.type : Binding → Ty
  | scalar type _ => type
  | struct entry => entry.type

/-- The names of a block, the latest first. -/
abbrev Scope := List (String × Binding)

/-- What a function gives back. -/
inductive ResultPlan where
  | nothing
  | scalar (type : Ty)
  | struct (type : Ty) (address : LocalRef)
  deriving DecidableEq, Repr

def ResultPlan.type? : ResultPlan → Option Ty
  | nothing => none
  | scalar type => some type
  | struct type _ => some type

end StructWasm.Lowering

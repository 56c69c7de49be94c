import StructWasm.Ownership.Shape
import StructWasm.Span

/-!
# Ownership of structure values

Every structure value has a tree of nodes that follows its shape. A node is
composable when the part of the value that it stands for is fully defined and
has not been moved out of since. Writing to a field defines a part in place,
moving consumes it, and the tree tells whether the whole may be used.

A node without children is uniform: all of its part is defined, or consumed, or
undefined. Asking for a field of a uniform node first gives the node one child
for each field, all in its own state.

The nodes of all values stand in one arena and are named by their numbers. A
child always has a greater number than its parent. A node that is cut from its
parent keeps its number and still knows the parent.
-/

namespace StructWasm.Ownership

abbrev NodeId := Nat

/-- A part that is only borrowed. -/
inductive Loan where
  | read
  | write
  deriving DecidableEq, Repr

/-- Why the state of a part cannot be changed. -/
inductive Error where
  | moveOutOfLoan (path : String)
  | writeToReadLoan (path : String)
  deriving DecidableEq, Repr

def Error.message : Error → String
  | moveOutOfLoan path =>
    "cannot move out of `" ++ path ++ "`, which is only borrowed here"
  | writeToReadLoan path =>
    "cannot assign to `" ++ path ++ "`, which is only readable here"

/-- A part of a value that keeps the whole from being used. -/
inductive Gap where
  | missing (path : String)
  | consumed (path : String) (moved : Span)
  deriving DecidableEq, Repr

/-- What is known of a part of a value, its fields apart. -/
structure State where
  name : String
  shape : Shape
  composable : Bool
  consumedAt : Option Span
  loan : Option Loan
  deriving Inhabited

/-- A part of a value. -/
structure Node extends State where
  children : List (String × NodeId)
  parent : Option NodeId
  deriving Inhabited

def Node.define (node : Node) : Node :=
  { node with composable := true, consumedAt := none, children := [] }

def Node.consume (moved : Span) (node : Node) : Node :=
  { node with composable := false, consumedAt := some moved, children := [] }

/-- The children that a uniform node gets: one for each field, in the state of
the node. Loans are found through the parent. -/
def Node.parts (node : Node) (id : NodeId) : List Node :=
  node.shape.fields.map fun (name, shape) =>
    { name, shape, composable := node.composable, consumedAt := node.consumedAt,
      loan := none, children := [], parent := some id }

/-- Enter a child under its name, in the order of the names. A child of the same
name is replaced. -/
def insertChild (name : String) (child : NodeId) :
    List (String × NodeId) → List (String × NodeId)
  | [] => [(name, child)]
  | (first, id) :: rest =>
    if name < first then
      (name, child) :: (first, id) :: rest
    else if name = first then
      (name, child) :: rest
    else
      (first, id) :: insertChild name child rest

/-- The nodes of all values. -/
structure Arena where
  nodes : Array Node
  deriving Inhabited

namespace Arena

def empty : Arena :=
  { nodes := #[] }

def node (arena : Arena) (id : NodeId) : Node :=
  arena.nodes.getD id default

def modify (arena : Arena) (id : NodeId) (change : Node → Node) : Arena :=
  { nodes := arena.nodes.modify id change }

def push (arena : Arena) (node : Node) : Arena × NodeId :=
  ({ nodes := arena.nodes.push node }, arena.nodes.size)

def newValue (arena : Arena) (name : String) (shape : Shape) : Arena × NodeId :=
  arena.push
    { name, shape, composable := false, consumedAt := none, loan := none,
      children := [], parent := none }

def isComposable (arena : Arena) (id : NodeId) : Bool :=
  (arena.node id).composable

def ancestors (arena : Arena) (id : NodeId) : List NodeId :=
  match (arena.node id).parent with
  | none => []
  | some parent =>
    if parent < id then parent :: arena.ancestors parent else []
termination_by id

/-- Path of a part from the name of its value, with dots between the names. -/
def path (arena : Arena) (id : NodeId) : String :=
  ".".intercalate ((id :: arena.ancestors id).reverse.map fun id => (arena.node id).name)

/-- The loan on a part, or else on the nearest part around it that has one. -/
def loan? (arena : Arena) (id : NodeId) : Option Loan :=
  (id :: arena.ancestors id).findSome? fun id => (arena.node id).loan

def borrow (arena : Arena) (id : NodeId) (loan : Option Loan) : Arena :=
  arena.modify id fun node => { node with loan }

def recompute (arena : Arena) (id : NodeId) : Arena :=
  let complete := (arena.node id).children.all fun child => arena.isComposable child.2
  arena.modify id fun node => { node with composable := complete }

def refreshAncestors (arena : Arena) (id : NodeId) : Arena :=
  (arena.ancestors id).foldl recompute arena

def markDefined (arena : Arena) (id : NodeId) : Except Error Arena :=
  if arena.loan? id = some .read then
    .error (.writeToReadLoan (arena.path id))
  else
    .ok ((arena.modify id Node.define).refreshAncestors id)

def markConsumed (arena : Arena) (id : NodeId) (moved : Span) : Except Error Arena :=
  if (arena.loan? id).isSome then
    .error (.moveOutOfLoan (arena.path id))
  else
    .ok ((arena.modify id (Node.consume moved)).refreshAncestors id)

def split (arena : Arena) (id : NodeId) : Arena :=
  let node := arena.node id
  if !node.children.isEmpty || node.shape.isLeaf then
    arena
  else
    let parts := node.parts id
    let children := (parts.zipIdx arena.nodes.size).foldl
      (fun children (part, child) => insertChild part.name child children) []
    { nodes := arena.nodes.modify id (fun node => { node with children, consumedAt := none })
        ++ parts }

def get? (arena : Arena) (id : NodeId) (name : String) : Arena × Option NodeId :=
  match (arena.node id).shape.field? name with
  | none => (arena, none)
  | some _ =>
    let arena := arena.split id
    (arena, (arena.node id).children.lookup name)

end Arena
end StructWasm.Ownership

import StructWasm.Ownership.Arena

/-!
# Trees of an arena

The part of an arena below a node, as a tree of its own. A value is copied by
reading its tree and planting it again, and what keeps a value from being used
is read off its tree.
-/

namespace StructWasm.Ownership

/-- A node with the trees of its children. -/
inductive Tree where
  | node (state : State) (children : List (String × Tree))

namespace Arena

def tree (arena : Arena) (id : NodeId) : Tree :=
  .node (arena.node id).toState
    ((arena.node id).children.filterMap fun (name, child) =>
      if id < child ∧ child < arena.nodes.size then
        some (name, arena.tree child)
      else
        none)
termination_by arena.nodes.size - id
decreasing_by
  rename_i below
  exact Nat.sub_lt_sub_left (Nat.lt_trans below.1 below.2) below.1

mutual

def plant (parent : Option NodeId) : Tree → Arena → Arena × NodeId
  | .node state children, arena =>
    let (arena, id) := arena.push { toState := state, children := [], parent }
    let (arena, planted) := plantChildren id children arena
    (arena.modify id fun node => { node with children := planted }, id)
termination_by structural tree => tree

def plantChildren (parent : NodeId) :
    List (String × Tree) → Arena → Arena × List (String × NodeId)
  | [], arena => (arena, [])
  | (name, child) :: rest, arena =>
    let (arena, id) := plant (some parent) child arena
    let (arena, planted) := plantChildren parent rest arena
    (arena, (name, id) :: planted)
termination_by structural children => children

end

def cloneValue (arena : Arena) (id : NodeId) : Arena × NodeId :=
  plant none (arena.tree id) arena

end Arena

namespace Tree

mutual

/-- What keeps a value at a path from being used, in the order of declaration. -/
def gaps : Tree → String → List Gap
  | .node state children, path =>
    if state.composable then
      []
    else
      match state.consumedAt with
      | some moved => [.consumed path moved]
      | none =>
        if children.isEmpty then
          (state.shape.leafPaths path).map .missing
        else
          let known := childGaps children path
          state.shape.fields.flatMap fun field => (known.lookup field.1).getD []
termination_by structural tree => tree

/-- What keeps the fields of a value at a path from being used, by name. -/
def childGaps : List (String × Tree) → String → List (String × List Gap)
  | [], _ => []
  | (name, child) :: rest, path =>
    (name, gaps child (Shape.extendPath path name)) :: childGaps rest path
termination_by structural children => children

end

end Tree

/-- What keeps the part of a node from being used, in the order of declaration. -/
def Arena.gaps (arena : Arena) (id : NodeId) : List Gap :=
  (arena.tree id).gaps (arena.path id)

end StructWasm.Ownership

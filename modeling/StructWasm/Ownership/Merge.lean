import StructWasm.Ownership.Arena

/-!
# Merging the state that a branch leaves

After a branch a part counts as defined only if it is defined with and without
the branch, and a move that the branch made stands. The merge walks the shape of
the target: where one of the two sides is uniform and the other is not, the
uniform side is split. The node of a field that is declared twice follows the
last declaration.
-/

namespace StructWasm.Ownership.Arena

def uniformlyConsumed? (arena : Arena) (id : NodeId) : Option Span :=
  let node := arena.node id
  if node.children.isEmpty then node.consumedAt else none

/-- The children of two nodes that have a name in common, in the order of the
names. -/
def commonChildren (arena : Arena) (target branch : NodeId) :
    List (String × NodeId × NodeId) :=
  (arena.node target).children.filterMap fun (name, child) =>
    ((arena.node branch).children.lookup name).map fun other => (name, child, other)

/-- A way to merge the state of the second node into the first. -/
abbrev Merger := NodeId → NodeId → Arena → Arena

mutual

def mergeAt : Shape → Merger
  | .composite fields => fun target branch arena =>
    match arena.uniformlyConsumed? branch with
    | some moved => arena.modify target (Node.consume moved)
    | none =>
      if (arena.uniformlyConsumed? target).isSome then
        arena
      else if (arena.node target).children.isEmpty
          && (arena.node branch).children.isEmpty then
        let both := arena.isComposable target && arena.isComposable branch
        arena.modify target fun node => { node with composable := both }
      else
        let arena := (arena.split target).split branch
        let mergers := fieldMergers fields
        let merged := (arena.commonChildren target branch).foldl
          (fun arena (name, child, other) =>
            match mergers.reverse.lookup name with
            | none => arena
            | some merge => merge child other arena)
          arena
        merged.recompute target
termination_by structural shape => shape

def fieldMergers : List (String × Shape) → List (String × Merger)
  | [] => []
  | (name, shape) :: rest => (name, mergeAt shape) :: fieldMergers rest
termination_by structural fields => fields

end

def infuse (arena : Arena) (target branch : NodeId) : Arena :=
  (mergeAt (arena.node target).shape target branch arena).refreshAncestors target

end StructWasm.Ownership.Arena

import StructWasm.Proofs.Ownership.Tracking

/-!
# Splitting a node

A uniform node gets one child for each field, in its own state. No leaf changes by
that, and whatever could be found in a value still can.
-/

namespace StructWasm.Ownership.Arena

open List

variable {arena next : Arena} {id : NodeId}
variable {exempt : NodeId → Prop}

namespace SplitAt

variable (splits : arena.SplitAt id next) (formed : arena.Formed)
include splits formed

theorem isExtended : arena.Extends next fun _ _ => False where
  size_le := splits.size_eq ▸ Nat.le_add_right _ _
  alike := fun _ => splits.alike
  fresh := fun other new there => by
    obtain ⟨pos, field, rfl, found⟩ := splits.exists_field new there
    simp [splits.parts found]
  found := fun value place other lies _ => by
    rw [← lies.found]
    refine find?_congr fun front field node onWay reached => ?_
    -- Before the split, no path goes on from the node.
    have differs : node ≠ id := by
      rintro rfl
      obtain ⟨back, rfl⟩ := onWay
      have found := lies.found
      rw [append_assoc, find?_append reached, singleton_append, find?, child?,
        splits.uniform] at found
      cases found
    rw [child?, splits.others (formed.lt_of_find? lies.isRoot.1 reached) differs, child?]

/-- The leaves are in the same states as before. -/
theorem leafState_eq (old : other < arena.nodes.size)
    (mem : leaf ∈ (arena.node other).shape.leaves) :
    next.leafState other leaf = arena.leafState other leaf := by
  induction leaf generalizing other with
  | nil =>
    have differs : other ≠ id := by
      rintro rfl
      exact splits.hasFields (Shape.nil_mem_leaves.mp mem)
    rw [leafState, leafState, splits.others old differs]
  | cons name rest ih =>
    by_cases here : other = id
    · subst here
      obtain ⟨part, isField, inPart⟩ := Shape.cons_mem_leaves.mp mem
      obtain ⟨child, found⟩ := Option.isSome_iff_exists.mp
        (isSome_lookup_iff.mpr (splits.full _ isField))
      obtain ⟨pos, field, isPart, -, child_eq⟩ := mem_fieldNodes.mp
        (splits.entries _ ((lookup_eq_some_iff_mem splits.names).mp found))
      have node_eq := splits.parts isPart
      rw [← show child = _ from child_eq] at node_eq
      rw [@leafState_cons next other child name rest found, leafState_of_uniform (by rw [node_eq]),
        leafState_of_uniform splits.uniform, node_eq]
      rfl
    · have node_eq := splits.others old here
      have sameChild : next.child? other name = arena.child? other name := by
        rw [child?, node_eq, child?]
      rw [leafState, leafState, sameChild]
      cases found : arena.child? other name with
      | none =>
        dsimp only
        rw [node_eq]
      | some child =>
        have isChild := formed.isChild found
        obtain ⟨part, isField, inPart⟩ := Shape.cons_mem_leaves.mp mem
        have distinct := (formed other).distinct
        have part_eq := distinct.field?_eq_some_iff.mpr isField
        rw [distinct.field?_eq_some_iff.mpr isChild.shape_eq] at part_eq
        rw [← Option.some.inj part_eq] at inPart
        exact ih isChild.inside inPart

end SplitAt

theorem extends_split (formed : arena.Formed) (id : NodeId) :
    arena.Extends (arena.split id) fun _ _ => False := by
  rcases arena.split_cases id with ⟨same, -⟩ | splits
  · rw [same]
    exact .refl arena
  · exact splits.isExtended formed

theorem Tracks.split (tracks : arena.Tracks exempt ledger) (id : NodeId) :
    (arena.split id).Tracks exempt ledger := by
  rcases arena.split_cases id with ⟨same, -⟩ | splits
  · rwa [same]
  · refine tracks.extend (splits.isExtended tracks.formed) (tracks.consistent.split id)
      fun root isRoot leaf mem => ?_
    rw [splits.leafState_eq tracks.formed isRoot.1 mem]
    exact tracks.agrees isRoot leaf mem

theorem children_split_ne_nil (hasFields : (arena.node id).shape.fields ≠ []) :
    ((arena.split id).node id).children ≠ [] := by
  rcases arena.split_cases id with ⟨same, leaf⟩ | splits
  · rw [same]
    exact fun uniform => hasFields (leaf uniform)
  · exact splits.children_ne_nil

end StructWasm.Ownership.Arena

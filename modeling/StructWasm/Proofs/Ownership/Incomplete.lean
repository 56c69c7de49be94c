import StructWasm.Proofs.Ownership.Markers

/-!
# Parts that are not composable

Whatever calls were made, a part that is not composable has a gap: the flag of a split
node is that of its children, and these stand for its fields.
-/

namespace StructWasm.Ownership.Arena

/-- Calls lead from one arena to another, and none of them takes a loan back. -/
def Leads (origin arena : Arena) : Prop :=
  ∃ script : List Call, (∀ id, .borrow id none ∉ script) ∧ script.foldl Arena.call origin = arena

/-- An arena that comes of calls. -/
def Called (arena : Arena) : Prop :=
  empty.Leads arena

namespace Leads

variable {origin arena next : Arena}

theorem refl (arena : Arena) : arena.Leads arena :=
  ⟨[], fun _ => List.not_mem_nil, rfl⟩

theorem trans (first : origin.Leads arena) (second : arena.Leads next) : origin.Leads next := by
  obtain ⟨script, keeps, rfl⟩ := first
  obtain ⟨rest, keepsToo, rfl⟩ := second
  refine ⟨script ++ rest, fun id => ?_, List.foldl_append⟩
  rw [List.mem_append, not_or]
  exact ⟨keeps id, keepsToo id⟩

theorem call (leads : origin.Leads arena) (call : Call)
    (keeps : ∀ id, .borrow id none ≠ call := by simp) : origin.Leads (arena.call call) :=
  leads.trans ⟨[call], by simpa using keeps, rfl⟩

end Leads

/-- A part that is not composable has a gap. -/
theorem Consistent.gaps_ne_nil {arena : Arena} {direct : Prop} {origin defined}
    (consistent : arena.Consistent direct (fun _ => False) origin defined) {id}
    (incomplete : arena.isComposable id = false) (start : String) :
    (arena.tree id).gaps start ≠ [] := by
  rw [tree_eq fun _ => consistent.isChild, Tree.gaps, if_neg
    (by simpa [isComposable] using incomplete)]
  cases (arena.node id).consumedAt with
  | some moved => simp
  | none =>
    dsimp only
    split
    · rw [Shape.leafPaths_eq]
      simpa using Shape.leaves_ne_nil _
    · rename_i hasChildren
      rw [List.isEmpty_iff, List.map_eq_nil_iff] at hasChildren
      obtain ⟨entry, mem⟩ := List.exists_mem_of_ne_nil _ hasChildren
      have below := consistent.isChild mem
      have kept := consistent.kept id (Nat.lt_trans below.after below.inside)
      -- One of the children is not composable, and it stands for a field.
      obtain ⟨⟨name, child⟩, isChild, childIncomplete⟩ : ∃ entry ∈ (arena.node id).children,
          arena.isComposable entry.2 = false := by
        have flag := kept.complete not_false hasChildren
        rw [incomplete] at flag
        simpa using flag.symm
      have childBelow := consistent.isChild isChild
      have childGaps := Consistent.gaps_ne_nil consistent childIncomplete
        (Shape.extendPath start name)
      intro noGaps
      refine childGaps ?_
      have none := List.flatMap_eq_nil_iff.mp noGaps _ childBelow.shape_eq
      rw [childGaps_eq, List.map_map, Function.comp_def, lookup_map fun name child =>
        (arena.tree child).gaps (Shape.extendPath start name),
        (lookup_eq_some_iff_mem kept.names).mpr isChild] at none
      exact none
termination_by arena.nodes.size - id
decreasing_by
  exact Nat.sub_lt_sub_left (Nat.lt_trans childBelow.after childBelow.inside) childBelow.after

theorem Called.gaps_ne_nil {arena : Arena} (called : arena.Called) {id}
    (incomplete : arena.isComposable id = false) : arena.gaps id ≠ [] := by
  obtain ⟨script, -, rfl⟩ := called
  have consistent : (script.foldl Arena.call empty).Consistent False (fun _ => False) none _ :=
    Consistent.empty.calls False.elim
  exact consistent.gaps_ne_nil incomplete _

end StructWasm.Ownership.Arena

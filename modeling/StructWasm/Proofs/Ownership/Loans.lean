import StructWasm.Proofs.Ownership.Incomplete

/-!
# Parts that are lent

A loan ends only by a call that takes it back. So a node that carries a loan carries one
after any other calls, the copy of such a node carries one too, and the parts of a value
that is lent are lent with it.
-/

namespace StructWasm.Ownership.Arena

open List

variable {before after arena : Arena} {id : NodeId}

/-- A node carries a loan of its own. -/
def Lent (arena : Arena) (id : NodeId) : Prop :=
  (arena.node id).loan.isSome

/-- Nodes that carried a loan still do. -/
def KeepsLoans (before after : Arena) : Prop :=
  ∀ ⦃id⦄, before.Lent id → after.Lent id

theorem Lent.lt_size (lent : arena.Lent id) : id < arena.nodes.size := by
  by_contra beyond
  rw [Lent, node_of_size_le (Nat.le_of_not_lt beyond)] at lent
  cases lent

namespace KeepsLoans

theorem refl (arena : Arena) : arena.KeepsLoans arena :=
  fun _ lent => lent

theorem trans (first : before.KeepsLoans mid) (second : mid.KeepsLoans after) :
    before.KeepsLoans after :=
  fun _ lent => second (first lent)

theorem foldl {α : Type} {step : Arena → α → Arena}
    (keeps : ∀ (arena : Arena) (value : α), arena.KeepsLoans (step arena value)) (values : List α)
    (arena : Arena) : arena.KeepsLoans (values.foldl step arena) := by
  induction values generalizing arena with
  | nil => exact .refl arena
  | cons value values ih => exact (keeps arena value).trans (ih _)

theorem modify {change : Node → Node}
    (keeps : ∀ node : Node, node.loan.isSome → (change node).loan.isSome) :
    arena.KeepsLoans (arena.modify id change) := by
  intro other lent
  by_cases here : other = id
  · subst here
    rw [Lent, node_modify_self lent.lt_size]
    exact keeps _ lent
  · rw [Lent, node_modify_ne here]
    exact lent

theorem ofAdds (adds : before.Adds after) : before.KeepsLoans after := by
  intro other lent
  rw [Lent, adds.kept lent.lt_size]
  exact lent

theorem split (arena : Arena) (id : NodeId) : arena.KeepsLoans (arena.split id) := by
  intro other lent
  rcases arena.split_cases id with ⟨same, -⟩ | splits
  · rwa [same]
  by_cases here : other = id
  · obtain ⟨_, node_eq⟩ := splits.itself
    rw [Lent, here, node_eq]
    exact here ▸ lent
  · rw [Lent, splits.others lent.lt_size here]
    exact lent

theorem get? (arena : Arena) (id : NodeId) (name : String) :
    arena.KeepsLoans (arena.get? id name).1 := by
  unfold Arena.get?
  split
  · exact .refl arena
  · exact .split arena id

theorem recompute (arena : Arena) (id : NodeId) : arena.KeepsLoans (arena.recompute id) :=
  .modify fun _ lent => lent

theorem refreshAncestors (arena : Arena) (id : NodeId) :
    arena.KeepsLoans (arena.refreshAncestors id) :=
  .foldl recompute _ _

theorem settle {change : Node → Node} (same : ∀ node : Node, (change node).loan = node.loan) :
    arena.KeepsLoans ((arena.modify id change).refreshAncestors id) := by
  have modified : arena.KeepsLoans (arena.modify id change) := by
    refine .modify fun node lent => ?_
    rwa [same]
  exact modified.trans (.refreshAncestors _ id)

theorem mergeAt (shape : Shape) (target branch : NodeId) (arena : Arena) :
    arena.KeepsLoans (mergeAt shape target branch arena) := by
  refine Shape.induct (motive := fun shape => ∀ target branch arena,
    KeepsLoans arena (Arena.mergeAt shape target branch arena)) ?_ shape target branch arena
  rintro ⟨fields⟩ ih target branch arena
  rw [Arena.mergeAt]
  dsimp only
  cases arena.uniformlyConsumed? branch with
  | some moved => exact .modify fun _ lent => lent
  | none =>
    dsimp only
    split
    · exact .refl arena
    · split
      · exact .modify fun _ lent => lent
      · refine ((KeepsLoans.split arena target).trans (.split _ branch)).trans ?_
        refine (KeepsLoans.foldl (fun arena pair => ?_) _ _).trans (.recompute _ target)
        split
        · exact .refl arena
        · rename_i merge found
          obtain ⟨field, isField, rfl⟩ := exists_of_lookup found
          exact ih field isField _ _ arena

end KeepsLoans

/-! ## Calls -/

theorem KeepsLoans.call (arena : Arena) (call : Call) (keeps : ∀ id, .borrow id none ≠ call) :
    arena.KeepsLoans (arena.call call) := by
  cases call with
  | newValue name shape => exact .ofAdds (arena.adds_push _)
  | get id name => exact .get? arena id name
  | markDefined id =>
    rw [Arena.call, markDefined]
    split
    · exact .refl arena
    · exact .settle fun _ => rfl
  | markConsumed id moved =>
    rw [Arena.call, markConsumed]
    split
    · exact .refl arena
    · exact .settle fun _ => rfl
  | cloneValue id =>
    rw [Arena.call, cloneValue]
    exact .ofAdds (planted_plant none (arena.tree id) arena).2.adds
  | borrow id loan =>
    cases loan with
    | none => exact absurd rfl (keeps id)
    | some loan => exact .modify fun _ _ => rfl
  | infuse target branch =>
    rw [Arena.call, infuse]
    exact .trans (.mergeAt _ target branch arena) (.refreshAncestors _ target)

theorem Leads.keepsLoans (leads : before.Leads after) : before.KeepsLoans after := by
  obtain ⟨script, keeps, rfl⟩ := leads
  induction script generalizing before with
  | nil => exact .refl before
  | cons call script ih =>
    refine (KeepsLoans.call before call fun id same => ?_).trans
      (ih fun id mem => keeps id (mem_cons_of_mem _ mem))
    exact keeps id (same ▸ mem_cons_self)

/-! ## Parts -/

theorem isSome_loan? : (arena.loan? id).isSome ↔ ∃ other ∈ arena.lineage id, arena.Lent other :=
  findSome?_isSome_iff

theorem Lent.isSome_loan? (lent : arena.Lent id) : (arena.loan? id).isSome :=
  Arena.isSome_loan?.mpr ⟨id, mem_cons_self, lent⟩

/-- A field of a part that is lent is lent. -/
theorem Called.isSome_loan?_get? (called : arena.Called)
    (found : (arena.get? id name).2 = some child) (lent : (arena.loan? id).isSome) :
    ((arena.get? id name).1.loan? child).isSome := by
  have after : (arena.get? id name).1.Called := called.call (.get id name)
  have retains : arena.Retains (arena.get? id name).1 0 := by
    unfold get?
    split
    · exact .refl arena 0
    · exact .split arena id 0
  have keeps := KeepsLoans.get? arena id name
  obtain ⟨script, -, script_eq⟩ := after
  have consistent : (script.foldl Arena.call empty).Consistent False (fun _ => False) none _ :=
    Consistent.empty.calls False.elim
  rw [script_eq] at consistent
  have isChild : (arena.get? id name).1.IsChild id name child := by
    unfold get? at found consistent ⊢
    split at found
    · cases found
    · rename_i part field
      rw [field] at consistent
      exact (consistent.isChild_of_child? found).2
  obtain ⟨other, inLineage, otherLent⟩ := isSome_loan?.mp lent
  refine isSome_loan?.mpr ⟨other, ?_, keeps otherLent⟩
  rw [lineage_of_parent isChild.parent isChild.after]
  have inside : id < arena.nodes.size := by
    by_contra beyond
    unfold get? at found
    rw [node_of_size_le (Nat.le_of_not_lt beyond)] at found
    cases found
  rw [retains.lineage_eq inside]
  exact mem_cons_of_mem _ inLineage

end StructWasm.Ownership.Arena

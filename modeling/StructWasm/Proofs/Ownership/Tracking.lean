import StructWasm.Proofs.Ownership.Consistency

/-!
# Ledgers of leaves

A ledger says for every value in which state its leaves are. An arena tracks a ledger
if the leaves of its values are in these states. A change of one node, with the flags
above it brought up to date, is a change of the leaves below that node in the ledger.
-/

namespace StructWasm.Ownership

/-- The states of the leaves of all values: by the number of the value and the path
to the leaf. -/
abbrev Ledger := NodeId → List String → LeafState

/-- The ledger in which the leaves below a part of a value have other states, given by
their paths from there. -/
def Ledger.update (ledger : Ledger) (root : NodeId) (path : List String)
    (state : List String → LeafState) : Ledger :=
  fun value leaf =>
    if value = root ∧ path <+: leaf then state (leaf.drop path.length) else ledger value leaf

namespace Ledger

variable {ledger : Ledger} {root : NodeId} {path leaf : List String}
variable {state : List String → LeafState}

theorem update_below (rest : List String) :
    ledger.update root path state root (path ++ rest) = state rest := by
  simp [update]

theorem update_other (elsewhere : ¬(value = root ∧ path <+: leaf)) :
    ledger.update root path state value leaf = ledger value leaf :=
  if_neg elsewhere

end Ledger

namespace Arena

variable {arena before after : Arena} {root id : NodeId}
variable {path leaf : List String} {ledger : Ledger} {exempt : NodeId → Prop}

/-- The nodes are in order with exceptions of flags, names of fields are distinct, and the
leaves of all values are in the states of a ledger. -/
structure Tracks (arena : Arena) (exempt : NodeId → Prop) (ledger : Ledger) : Prop where
  consistent : arena.Consistent True exempt none []
  distinct : ∀ ⦃root⦄, arena.IsRoot root → (arena.node root).shape.Distinct
  agrees : ∀ ⦃root⦄, arena.IsRoot root → ∀ leaf ∈ (arena.node root).shape.leaves,
    arena.leafState root leaf = ledger root leaf

/-- Names are distinct in all parts if they are in values. -/
theorem Tracks.distinct_shape {arena : Arena} (tracks : arena.Tracks exempt ledger) (id : NodeId) :
    (arena.node id).shape.Distinct := by
  by_cases inside : id < arena.nodes.size
  · cases parent_eq : (arena.node id).parent with
    | none => exact tracks.distinct ⟨inside, parent_eq⟩
    | some parent =>
      obtain ⟨below, label⟩ := tracks.consistent.born id parent_eq
      exact (Tracks.distinct_shape tracks parent).field label
  · rw [node_of_size_le (Nat.le_of_not_lt inside)]
    exact ⟨List.nodup_nil, trivial⟩
termination_by id

theorem Tracks.formed (tracks : arena.Tracks exempt ledger) : arena.Formed := by
  intro id
  refine ⟨?_, fun _ isParent => (tracks.consistent.born id isParent).1,
    fun _ => tracks.consistent.isChild, tracks.distinct_shape id⟩
  by_cases inside : id < arena.nodes.size
  · exact (tracks.consistent.kept id inside).toRegular
  · rw [node_of_size_le (Nat.le_of_not_lt inside)]
    exact .of_uniform (by rintro - ⟨⟩)

theorem Tracks.complete (tracks : arena.Tracks exempt ledger) : arena.Complete exempt := by
  intro id counted hasChildren
  obtain ⟨entry, mem⟩ := List.exists_mem_of_ne_nil _ hasChildren
  have isChild := tracks.consistent.isChild mem
  exact (tracks.consistent.kept id (Nat.lt_trans isChild.after isChild.inside)).complete counted
    hasChildren

theorem Tracks.mono {more : NodeId → Prop} (tracks : arena.Tracks exempt ledger)
    (implies : ∀ id, exempt id → more id) : arena.Tracks more ledger :=
  { tracks with consistent := tracks.consistent.mono implies }

/-- Nodes keep their names, shapes and parents, new ones are parts of others, and what
lies in a value is still there, but for some places. -/
structure Extends (before after : Arena) (inside : NodeId → List String → Prop) : Prop where
  size_le : before.nodes.size ≤ after.nodes.size
  alike : ∀ ⦃id⦄, id < before.nodes.size → Alike (after.node id) (before.node id)
  fresh : ∀ ⦃id⦄, before.nodes.size ≤ id → id < after.nodes.size → (after.node id).parent ≠ none
  found : ∀ ⦃root path id⦄, before.Lies root path id → ¬inside root path →
    after.find? root path = some id

/-- The places strictly below a part of a value. -/
def StrictlyBelow (root : NodeId) (path : List String) (value : NodeId) (place : List String) :
    Prop :=
  value = root ∧ path <+: place ∧ place ≠ path

namespace Extends

variable {inside more : NodeId → List String → Prop}

theorem refl (arena : Arena) : arena.Extends arena inside where
  size_le := Nat.le_refl _
  alike := fun _ _ => .refl _
  fresh := fun _ le lt => absurd lt (Nat.not_lt_of_le le)
  found := fun _ _ _ lies _ => lies.found

theorem shape_eq (grows : before.Extends after inside) (old : id < before.nodes.size) :
    (after.node id).shape = (before.node id).shape :=
  (grows.alike old).shape_eq

theorem parent_eq (grows : before.Extends after inside) (old : id < before.nodes.size) :
    (after.node id).parent = (before.node id).parent :=
  (grows.alike old).parent_eq

theorem mono (extends_ : before.Extends after inside)
    (implies : ∀ root path, inside root path → more root path) : before.Extends after more :=
  { extends_ with
    found := fun root path _ lies outside =>
      extends_.found lies fun isInside => outside (implies root path isInside) }

theorem isRoot_iff (grows : before.Extends after inside) :
    after.IsRoot root ↔ before.IsRoot root := by
  constructor
  · rintro ⟨mem, parentless⟩
    by_cases old : root < before.nodes.size
    · exact ⟨old, (grows.parent_eq old).symm.trans parentless⟩
    · exact absurd parentless (grows.fresh (Nat.le_of_not_lt old) mem)
  · rintro ⟨old, parentless⟩
    exact ⟨Nat.lt_of_lt_of_le old grows.size_le, (grows.parent_eq old).trans parentless⟩

theorem lies (grows : before.Extends after inside) (lies : before.Lies root path id)
    (outside : ¬inside root path) : after.Lies root path id :=
  ⟨grows.isRoot_iff.mpr lies.isRoot, grows.found lies outside⟩

theorem trans (first : before.Extends mid inside) (second : mid.Extends after inside) :
    before.Extends after inside where
  size_le := Nat.le_trans first.size_le second.size_le
  alike := fun id old =>
    (second.alike (Nat.lt_of_lt_of_le old first.size_le)).trans (first.alike old)
  fresh := fun id new mem => by
    by_cases early : id < mid.nodes.size
    · rw [second.parent_eq early]
      exact first.fresh new early
    · exact second.fresh (Nat.le_of_not_lt early) mem
  found := fun _ _ _ lies outside => second.found (first.lies lies outside) outside

end Extends

/-- Values stay what they are, and their leaves are in the states of another ledger. -/
theorem Tracks.extend {inside : NodeId → List String → Prop} {more : NodeId → Prop}
    (tracks : before.Tracks exempt ledger) (grows : before.Extends after inside)
    (consistent : after.Consistent True more none [])
    (agrees : ∀ ⦃root⦄, before.IsRoot root → ∀ leaf ∈ (before.node root).shape.leaves,
      after.leafState root leaf = next root leaf) : after.Tracks more next := by
  refine ⟨consistent, fun root isRoot => ?_, fun root isRoot => ?_⟩
  all_goals
    replace isRoot := grows.isRoot_iff.mp isRoot
    rw [grows.shape_eq isRoot.1]
  · exact tracks.distinct isRoot
  · exact agrees isRoot

/-! ## One node -/

section Settle

variable {change : Node → Node} {state : LeafState}
variable (formed : arena.Formed) (lies : arena.Lies root path id)
variable (settles : Settles (arena.node id) (change (arena.node id)) state)
include formed lies settles

theorem extends_settle : arena.Extends (arena.modify id change) (StrictlyBelow root path) := by
  refine ⟨by simp, fun other _ => related_modify Alike .refl settles.toAlike other,
    fun other le lt => absurd lt (by simpa using le), ?_⟩
  intro value place other otherLies outside
  rw [find?_congr, otherLies.found]
  intro front field node onWay reached
  -- The node that changes is not on the way, or the place would be below it.
  have differs : node ≠ id := by
    rintro rfl
    obtain ⟨rfl, rfl⟩ := lies.unique formed ⟨otherLies.isRoot, reached⟩
    refine outside ⟨rfl, (List.prefix_append _ _).trans onWay, ?_⟩
    rintro rfl
    have longer := onWay.length_le
    rw [List.length_append, List.length_singleton] at longer
    exact Nat.not_succ_le_self _ longer
  rw [child?, child?, node_modify_ne differs]

end Settle

/-- Making a node uniform sets the leaves below it, if the flags of its parent are
brought up to date later. -/
theorem Tracks.settle {change : Node → Node} (tracks : arena.Tracks exempt ledger)
    (lies : arena.Lies root path id)
    (settles : Settles (arena.node id) (change (arena.node id)) state)
    (later : ∀ parent, (arena.node id).parent = some parent → exempt parent) :
    (arena.modify id change).Tracks exempt (ledger.update root path fun _ => state) := by
  have grows := extends_settle tracks.formed lies settles
  have node_eq := node_modify_self (lies.inside tracks.formed) change
  refine tracks.extend grows (tracks.consistent.settle settles later (fun _ isDefined => isDefined)
    (by rintro _ ⟨⟩)) fun value isRoot leaf mem => ?_
  by_cases below : value = root ∧ path <+: leaf
  · obtain ⟨rfl, rest, rfl⟩ := below
    have found : (arena.modify id change).find? value path = some id :=
      grows.found lies fun strict => strict.2.2 rfl
    rw [Ledger.update_below, leafState_append found,
      leafState_of_uniform (by rw [node_eq, settles.uniform]), node_eq, settles.state_eq]
  · rw [Ledger.update_other below, ← tracks.agrees isRoot leaf mem]
    refine tracks.formed.leafState_congr mem fun front node onWay reached => ?_
    have differs : node ≠ id := by
      rintro rfl
      obtain ⟨rfl, rfl⟩ := lies.unique tracks.formed ⟨isRoot, reached⟩
      exact below ⟨rfl, onWay⟩
    rw [node_modify_ne differs]
    exact ⟨rfl, fun _ => rfl⟩

/-! ## Flags -/

/-- A node changes that keeps its children. -/
theorem extends_modify {change : Node → Node}
    (alike : Alike (change (arena.node id)) (arena.node id))
    (children_eq : (change (arena.node id)).children = (arena.node id).children) :
    arena.Extends (arena.modify id change) fun _ _ => False where
  size_le := by simp
  alike := fun other _ => related_modify Alike .refl alike other
  fresh := fun other le lt => absurd lt (by simpa using le)
  found := fun value place other lies _ => by
    rw [find?_congr, lies.found]
    intro front field node _ _
    exact congrArg (List.lookup field) (related_modify (fun node original =>
      node.children = original.children) (fun _ => rfl) children_eq node)

/-- Bringing the flag of a split node up to date. -/
theorem Tracks.recompute (tracks : arena.Tracks (fun other => exempt other ∨ other = id) ledger)
    (hasChildren : (arena.node id).children ≠ [])
    (later : ∀ parent, (arena.node id).parent = some parent → exempt parent) :
    (arena.recompute id).Tracks exempt ledger := by
  refine tracks.extend (extends_modify ⟨rfl, rfl, rfl⟩ rfl) (tracks.consistent.recompute
    (fun _ => (tracks.formed id).split hasChildren) later) fun value isRoot leaf mem => ?_
  rw [← tracks.agrees isRoot leaf mem]
  refine tracks.formed.leafState_congr mem fun front node _ _ => ?_
  refine ⟨arena.children_recompute id node, fun uniform => ?_⟩
  have differs : node ≠ id := by
    rintro rfl
    exact hasChildren uniform
  rw [Arena.recompute, node_modify_ne differs]

/-- Bringing the flags above a node up to date. -/
theorem Tracks.refreshAncestors {arena : Arena} {id path}
    (tracks : arena.Tracks (fun other => (arena.node id).parent = some other) ledger)
    (lies : arena.Lies root path id) :
    (arena.refreshAncestors id).Tracks (fun _ => False) ledger := by
  rcases lies.cases with ⟨rfl, rfl⟩ | ⟨front, name, parent, path_eq, parentLies, found⟩
  · rw [Arena.refreshAncestors, lies.isRoot.ancestors_eq]
    refine tracks.mono fun other isParent => ?_
    cases lies.isRoot.2.symm.trans isParent
  · have isChild := tracks.formed.isChild found
    have hasChildren : (arena.node parent).children ≠ [] := by
      intro uniform
      simp [child?, uniform] at found
    have grows : arena.Extends (arena.recompute parent) fun _ _ => False :=
      extends_modify ⟨rfl, rfl, rfl⟩ rfl
    have mem := parentLies.inside tracks.formed
    have refreshed : arena.refreshAncestors id =
        (arena.recompute parent).refreshAncestors parent := by
      rw [Arena.refreshAncestors, Arena.refreshAncestors, isChild.ancestors_eq,
        ancestors_congr fun other le => grows.parent_eq (Nat.lt_of_le_of_lt le mem),
        List.foldl_cons]
    rw [refreshed]
    refine Tracks.refreshAncestors ?_ (grows.lies parentLies not_false)
    rw [grows.parent_eq mem]
    refine Tracks.recompute ?_ hasChildren fun _ isParent => isParent
    refine tracks.mono fun other isParent => .inr ?_
    exact (Option.some.inj (isChild.parent.symm.trans isParent)).symm
termination_by path.length
decreasing_by simp [path_eq]

end Arena
end StructWasm.Ownership

import StructWasm.Proofs.Ownership.Formed

/-!
# Flags and markers

The flag of a split node says whether its children are composable, and a marker stands
on uniform nodes that are not composable only. What happens to a node keeps this, as long
as the nodes above it whose flags are brought up to date have children.

Beside it goes a part that was moved out. Its uniform nodes carry a marker until they, or
nodes above them, are defined.
-/

namespace StructWasm.Ownership

open List Nat

namespace Tree

/-- What is known of the part at the top of a tree. -/
def state : Tree → State
  | .node state _ => state

def children : Tree → List (String × Tree)
  | .node _ children => children

/-- The state of the leaf at the end of a path of fields. -/
def leafState : Tree → List String → LeafState
  | tree, [] => tree.state.leafState
  | tree, name :: rest =>
    match tree.children.lookup name with
    | some child => child.leafState rest
    | none => tree.state.leafState

/-- The parts of a tree are kept in order. -/
inductive Sound (direct : Prop) : Tree → Prop where
  | node {state : State} {children : List (String × Tree)} (regular : Regular direct state children)
      (fields : ∀ child ∈ children, child.2.state.name = child.1 ∧
        (child.1, child.2.state.shape) ∈ state.shape.fields)
      (complete : children ≠ [] →
        state.composable = children.all fun child => child.2.state.composable)
      (below : ∀ child ∈ children, child.2.Sound direct) :
      Sound direct (.node state children)

end Tree

namespace Arena

variable {arena before after : Arena} {id : NodeId} {direct : Prop}
variable {exempt exemptToo : NodeId → Prop}
variable {origin : Option NodeId} {defined : List NodeId}

/-! ## What calls keep -/

/-- A node and the nodes above it, nearest first. -/
def lineage (arena : Arena) (id : NodeId) : List NodeId :=
  id :: arena.ancestors id

theorem lineage_congr
    (same : ∀ other ≤ id, (after.node other).parent = (before.node other).parent) :
    after.lineage id = before.lineage id := by
  rw [lineage, lineage, ancestors_congr same]

variable {target parent other place node branch : NodeId}
variable {step : Arena → String × NodeId × NodeId → Arena} {children : List (String × Tree)}
variable {entries : List (String × NodeId)}

theorem lineage_of_parent (parent_eq : (arena.node id).parent = some parent) (below : parent < id) :
    arena.lineage id = id :: arena.lineage parent := by
  rw [lineage, lineage, ancestors, parent_eq]
  simp [below]

theorem le_of_mem_lineage {arena : Arena} {id} (above : other ∈ arena.lineage id) : other ≤ id := by
  rw [lineage, ancestors] at above
  rcases mem_cons.mp above with rfl | above
  · exact le_refl _
  · split at above
    · cases above
    · rename_i parent _
      split at above
      · rename_i below
        have le : other ≤ parent := le_of_mem_lineage above
        exact le_trans le (le_of_lt below)
      · cases above
termination_by id

/-- A node is a part of another, or the other itself. -/
inductive Within (arena : Arena) (place : NodeId) : NodeId → Prop where
  | self : arena.Within place place
  | child {parent : NodeId} {entry : String × NodeId} (within : arena.Within place parent)
      (mem : entry ∈ (arena.node parent).children) : arena.Within place entry.2

/-- What is kept of a node: its children are parts of it, and its flag says whether they are
composable. If a part was moved out, the uniform nodes of it were defined since, or carry a
marker. -/
structure Kept (arena : Arena) (direct : Prop) (exempt : NodeId → Prop) (origin : Option NodeId)
    (defined : List NodeId) (id : NodeId) : Prop
    extends Regular direct (arena.node id).toState (arena.node id).children where
  listed : ∀ entry ∈ (arena.node id).children, id < entry.2 ∧ entry.2 < arena.nodes.size ∧
    (arena.node entry.2).parent = some id ∧ (arena.node entry.2).name = entry.1
  complete : ¬exempt id → (arena.node id).children ≠ [] → arena.isComposable id =
    (arena.node id).children.all fun child => arena.isComposable child.2
  since : ∀ place ∈ origin, arena.Within place id → (arena.node id).children = [] →
    (∃ other ∈ arena.lineage id, other ∈ defined) ∨
      (arena.node id).composable = false ∧ (arena.node id).consumedAt ≠ none

/-- A node stands for a field of its parent, which was there before. -/
def Born (arena : Arena) (id : NodeId) : Prop :=
  ∀ ⦃parent⦄, (arena.node id).parent = some parent → parent < id ∧
    ((arena.node id).name, (arena.node id).shape) ∈ (arena.node parent).shape.fields

/-- All nodes are kept in order, but for flags of some of them. A part that was moved out
is followed through direct calls only. -/
structure Consistent (arena : Arena) (direct : Prop) (exempt : NodeId → Prop)
    (origin : Option NodeId) (defined : List NodeId) : Prop where
  followed : ∀ place ∈ origin, direct
  old : ∀ place ∈ origin, place < arena.nodes.size
  born : ∀ id, arena.Born id
  kept : ∀ id < arena.nodes.size, arena.Kept direct exempt origin defined id

/-- A uniform node is kept if its marker is. -/
theorem kept_of_uniform (uniform : (arena.node id).children = [])
    (whole : direct → (arena.node id).composable = true → (arena.node id).consumedAt = none)
    (since : ∀ place ∈ origin, arena.Within place id →
      (∃ other ∈ arena.lineage id, other ∈ defined) ∨
        (arena.node id).composable = false ∧ (arena.node id).consumedAt ≠ none) :
    arena.Kept direct exempt origin defined id where
  toRegular := by
    rw [uniform]
    exact .of_uniform whole
  listed := by simp [uniform]
  complete := fun _ hasChildren => absurd uniform hasChildren
  since := fun place isOrigin within _ => since place isOrigin within

/-- If one node changes and others are added, what was there and is a part of another node
was a part of it before. -/
theorem Within.back (others : ∀ ⦃other⦄, other < before.nodes.size → other ≠ id →
      after.node other = before.node other)
    (parts : before.Within place id → ∀ entry ∈ (after.node id).children,
      entry.2 < before.nodes.size → entry ∈ (before.node id).children)
    (fresh : ∀ other, before.nodes.size ≤ other → ∀ entry ∈ (after.node other).children,
      other < entry.2) (within : after.Within place node) :
    node < before.nodes.size → before.Within place node := by
  induction within with
  | self => exact fun _ => .self
  | @child parent entry _ mem ih =>
    intro old
    by_cases parentOld : parent < before.nodes.size
    · have parentWithin := ih parentOld
      by_cases here : parent = id
      · subst here
        exact .child parentWithin (parts parentWithin entry mem old)
      · rw [others parentOld here] at mem
        exact .child parentWithin mem
    · have late := fresh parent (Nat.le_of_not_lt parentOld) entry mem
      exact absurd (Nat.lt_trans late old) parentOld

theorem Within.ofAdds (within : after.Within place node) (adds : before.Adds after)
    (fresh : ∀ other, before.nodes.size ≤ other → ∀ entry ∈ (after.node other).children,
      other < entry.2) (old : node < before.nodes.size) : before.Within place node := by
  have others : ∀ ⦃other⦄, other < before.nodes.size → other ≠ after.nodes.size →
      after.node other = before.node other := fun _ old _ => adds.kept old
  refine within.back others (fun _ entry mem => ?_) fresh old
  rw [node_of_size_le (le_refl _)] at mem
  cases mem

/-- A node that is made uniform, in some state. -/
structure Settles (node settled : Node) (state : LeafState) : Prop extends Alike settled node where
  uniform : settled.children = []
  whole : settled.composable = true → settled.consumedAt = none
  state_eq : settled.leafState = state

theorem settles_define (node : Node) : Settles node node.define .defined :=
  ⟨⟨rfl, rfl, rfl⟩, rfl, fun _ => rfl, rfl⟩

theorem settles_consume (node : Node) (moved : Span) :
    Settles node (node.consume moved) .consumed :=
  ⟨⟨rfl, rfl, rfl⟩, rfl, (by rintro ⟨⟩), rfl⟩

namespace Consistent

theorem isChild (consistent : arena.Consistent direct exempt origin defined)
    (mem : entry ∈ (arena.node id).children) : arena.IsChild id entry.1 entry.2 := by
  have there : id < arena.nodes.size := by
    by_contra beyond
    rw [node_of_size_le (Nat.le_of_not_lt beyond)] at mem
    cases mem
  obtain ⟨below, inside, parent, name_eq⟩ := (consistent.kept id there).listed entry mem
  exact ⟨below, inside, parent, name_eq, name_eq ▸ (consistent.born entry.2 parent).2⟩

/-- One node changes and others are added. The rest is kept as it was, if the flag of the
node above is brought up to date later. -/
theorem turn (consistent : before.Consistent direct exempt origin defined)
    (size_le : before.nodes.size ≤ after.nodes.size)
    (others : ∀ ⦃other⦄, other < before.nodes.size → other ≠ id →
      after.node other = before.node other)
    (alike : Alike (after.node id) (before.node id))
    (counted : ∀ other, other ≠ id → exempt other → exemptToo other)
    (flag : after.isComposable id = before.isComposable id ∨
      ∀ parent, (before.node id).parent = some parent → exemptToo parent)
    (more : ∀ other ∈ defined, other ∈ definedToo)
    (back : ∀ place ∈ origin, ∀ other < before.nodes.size, after.Within place other →
      before.Within place other)
    (born : ∀ other, before.nodes.size ≤ other → other < after.nodes.size → after.Born other)
    (rest : ∀ other < after.nodes.size, other = id ∨ before.nodes.size ≤ other →
      after.Kept direct exemptToo origin definedToo other) :
    after.Consistent direct exemptToo origin definedToo := by
  have face : ∀ other < before.nodes.size, Alike (after.node other) (before.node other) := by
    intro other old
    by_cases here : other = id
    · exact here ▸ alike
    · rw [others old here]
      exact .refl _
  refine ⟨consistent.followed,
    fun place isOrigin => Nat.lt_of_lt_of_le (consistent.old place isOrigin) size_le, ?_, ?_⟩
  · intro other
    by_cases old : other < before.nodes.size
    · intro parent isParent
      rw [(face other old).parent_eq] at isParent
      obtain ⟨below, label⟩ := consistent.born other isParent
      rw [(face other old).name_eq, (face other old).shape_eq,
        (face parent (Nat.lt_trans below old)).shape_eq]
      exact ⟨below, label⟩
    · by_cases inside : other < after.nodes.size
      · exact born other (Nat.le_of_not_lt old) inside
      · rw [Born, node_of_size_le (Nat.le_of_not_lt inside)]
        rintro _ ⟨⟩
  intro other there
  by_cases changed : other = id ∨ before.nodes.size ≤ other
  · exact rest other there changed
  · obtain ⟨differs, old⟩ := not_or.mp changed
    replace old := Nat.lt_of_not_le old
    have node_eq := others old differs
    have kept := consistent.kept other old
    have lineage_eq : after.lineage other = before.lineage other :=
      lineage_congr fun place le => (face place (Nat.lt_of_le_of_lt le old)).parent_eq
    refine ⟨by rw [node_eq]; exact kept.toRegular, ?_, ?_, ?_⟩
    · rw [node_eq]
      intro entry mem
      obtain ⟨below, inside, parent, name_eq⟩ := kept.listed entry mem
      have alike := face entry.2 inside
      exact ⟨below, Nat.lt_of_lt_of_le inside size_le, alike.parent_eq.trans parent,
        alike.name_eq.trans name_eq⟩
    · rw [isComposable, node_eq, ← isComposable]
      intro notExempt hasChildren
      rw [kept.complete (fun isExempt => notExempt (counted other differs isExempt)) hasChildren]
      refine all_eq_all fun entry mem => ?_
      obtain ⟨-, inside, parent, -⟩ := kept.listed entry mem
      by_cases here : entry.2 = id
      · rw [here] at parent ⊢
        rcases flag with same | later
        · exact same.symm
        · exact absurd (later other parent) notExempt
      · rw [isComposable, isComposable, others inside here]
    · rw [node_eq, lineage_eq]
      intro place isOrigin within uniform
      refine (kept.since place isOrigin (back place isOrigin other old within) uniform).imp_left ?_
      rintro ⟨found, isAbove, isDefined⟩
      exact ⟨found, isAbove, more found isDefined⟩

variable {change : Node → Node}

/-- One node changes. -/
theorem modify (consistent : arena.Consistent direct exempt origin defined)
    (alike : Alike (change (arena.node id)) (arena.node id))
    (counted : ∀ other, other ≠ id → exempt other → exemptToo other)
    (flag : (change (arena.node id)).composable = (arena.node id).composable ∨
      ∀ parent, (arena.node id).parent = some parent → exemptToo parent)
    (more : ∀ other ∈ defined, other ∈ definedToo)
    (parts : ∀ place ∈ origin, arena.Within place id →
      (change (arena.node id)).children ⊆ (arena.node id).children)
    (rest : id < arena.nodes.size →
      (∀ place ∈ origin, (arena.modify id change).Within place id → arena.Within place id) →
      (arena.modify id change).Kept direct exemptToo origin definedToo id) :
    (arena.modify id change).Consistent direct exemptToo origin definedToo := by
  have flag : (arena.modify id change).isComposable id = arena.isComposable id ∨
      ∀ parent, (arena.node id).parent = some parent → exemptToo parent := by
    refine flag.imp_left fun same => ?_
    exact related_modify (fun node original => node.composable = original.composable)
      (fun _ => rfl) same id
  have back : ∀ place ∈ origin, ∀ other < arena.nodes.size,
      (arena.modify id change).Within place other → arena.Within place other := by
    intro place isOrigin other old within
    refine within.back (fun _ _ differs => node_modify_ne differs change)
      (fun above entry mem _ => ?_) (fun other beyond entry mem => ?_) old
    · exact related_modify (fun node original => (change original).children ⊆ original.children →
        node.children ⊆ original.children) (fun _ _ => Subset.refl _) (fun same => same) id
        (parts place isOrigin above) mem
    · rw [node_of_size_le (by simpa using beyond)] at mem
      cases mem
  refine consistent.turn (by simp) (fun _ _ differs => node_modify_ne differs change)
    (related_modify Alike .refl alike id) counted flag more back (fun other new inside => ?_) ?_
  · exact absurd inside (by simpa using new)
  · rintro other inside (rfl | new)
    · rw [size_modify] at inside
      exact rest inside fun place isOrigin => back place isOrigin other inside
    · exact absurd inside (by simpa using new)

theorem settle (consistent : arena.Consistent direct exempt origin defined)
    (settles : Settles (arena.node id) (change (arena.node id)) state)
    (later : ∀ parent, (arena.node id).parent = some parent → exempt parent)
    (more : ∀ other ∈ defined, other ∈ definedToo)
    (since : ∀ place ∈ origin, id ∈ definedToo ∨ (change (arena.node id)).composable = false ∧
      (change (arena.node id)).consumedAt ≠ none) :
    (arena.modify id change).Consistent direct exempt origin definedToo := by
  refine consistent.modify settles.toAlike (fun _ _ isExempt => isExempt) (.inr later) more
    (fun _ _ _ => by rw [settles.uniform]; exact nil_subset _) fun there _ => ?_
  have node_eq := node_modify_self there change
  refine kept_of_uniform ?_ ?_ fun place isOrigin _ => ?_ <;> rw [node_eq]
  · exact settles.uniform
  · exact fun _ => settles.whole
  · exact (since place isOrigin).imp_left fun isDefined => ⟨id, mem_cons_self, isDefined⟩

/-- The loan of a node changes, or its flag if it carries no marker. -/
theorem relabel
    (consistent : arena.Consistent direct (fun other => exempt other ∨ other = id) origin defined)
    (change_eq : change (arena.node id) = { arena.node id with composable, loan })
    (clear : direct → composable = (arena.node id).composable ∨ (arena.node id).consumedAt = none)
    (complete : (arena.node id).children ≠ [] → composable =
      (arena.node id).children.all fun child => arena.isComposable child.2)
    (later : composable = (arena.node id).composable ∨
      ∀ parent, (arena.node id).parent = some parent → exempt parent) :
    (arena.modify id change).Consistent direct exempt origin defined := by
  refine consistent.modify (by rw [change_eq]; exact ⟨rfl, rfl, rfl⟩)
    (fun _ differs isExempt => isExempt.resolve_right differs) (by rw [change_eq]; exact later)
    (fun _ isDefined => isDefined) (fun _ _ _ => by rw [change_eq]; exact Subset.refl _)
    fun there back => ?_
  have node_eq := (node_modify_self there change).trans change_eq
  have kept := consistent.kept id there
  have lineage_eq : (arena.modify id change).lineage id = arena.lineage id :=
    lineage_congr fun other _ => related_modify (fun node original => node.parent = original.parent)
      (fun _ => rfl) (by rw [change_eq]) other
  refine ⟨?_, ?_, ?_, ?_⟩
  · rw [node_eq]
    refine ⟨kept.names, kept.full, kept.split, fun isDirect isComposable => ?_⟩
    exact (clear isDirect).elim (fun same => kept.whole isDirect (same ▸ isComposable))
      fun clear => clear
  · rw [node_eq]
    intro entry mem
    have listed := kept.listed entry mem
    rw [node_modify_ne (ne_of_gt listed.1), size_modify]
    exact listed
  · rw [isComposable, node_eq]
    intro _ hasChildren
    refine (complete hasChildren).trans (all_eq_all fun entry mem => ?_)
    rw [isComposable, isComposable, node_modify_ne (ne_of_gt (kept.listed entry mem).1)]
  · rw [node_eq, lineage_eq]
    intro place isOrigin within uniform
    have since := kept.since place isOrigin (back place isOrigin within) uniform
    rcases clear (consistent.followed place isOrigin) with same | clear
    · rwa [← same] at since
    · exact .inl (since.resolve_right fun marked => marked.2 clear)

theorem recompute
    (consistent : arena.Consistent direct (fun other => exempt other ∨ other = id) origin defined)
    (clear : direct → (arena.node id).consumedAt = none)
    (later : ∀ parent, (arena.node id).parent = some parent → exempt parent) :
    (arena.recompute id).Consistent direct exempt origin defined :=
  consistent.relabel rfl (fun isDirect => .inr (clear isDirect)) (fun _ => rfl) (.inr later)

theorem mono (consistent : arena.Consistent direct exempt origin defined)
    (counted : ∀ other, exempt other → exemptToo other) :
    arena.Consistent direct exemptToo origin defined where
  followed := consistent.followed
  old := consistent.old
  born := consistent.born
  kept := fun id there =>
    { consistent.kept id there with
      complete := fun notExempt => (consistent.kept id there).complete fun isExempt =>
        notExempt (counted id isExempt) }

theorem borrow (consistent : arena.Consistent direct (fun _ => False) origin defined) (id : NodeId)
    (loan : Option Loan) :
    (arena.borrow id loan).Consistent direct (fun _ => False) origin defined := by
  refine (consistent.mono fun _ => False.elim).relabel rfl (fun _ => .inl rfl) ?_ (.inl rfl)
  intro hasChildren
  by_cases there : id < arena.nodes.size
  · exact (consistent.kept id there).complete not_false hasChildren
  · rw [node_of_size_le (Nat.le_of_not_lt there)] at hasChildren
    exact absurd rfl hasChildren

theorem empty : Arena.empty.Consistent direct (fun _ => False) none [] where
  followed := by rintro _ ⟨⟩
  old := by rintro _ ⟨⟩
  born := fun id => by
    rw [Born, node_of_size_le (zero_le id)]
    rintro _ ⟨⟩
  kept := fun id there => absurd there (not_lt_zero id)

theorem isChild_of_child? (consistent : arena.Consistent direct exempt origin defined)
    (found : arena.child? id name = some child) :
    (name, child) ∈ (arena.node id).children ∧ arena.IsChild id name child := by
  obtain ⟨_, _, children_eq, -⟩ := lookup_eq_some_iff.mp found
  have mem : (name, child) ∈ (arena.node id).children := by simp [children_eq]
  exact ⟨mem, consistent.isChild mem⟩

theorem adds (consistent : before.Consistent direct exempt origin defined)
    (adds : before.Adds after)
    (fresh : ∀ other, before.nodes.size ≤ other → ∀ entry ∈ (after.node other).children,
      other < entry.2)
    (born : ∀ other, before.nodes.size ≤ other → other < after.nodes.size → after.Born other)
    (rest : ∀ other < after.nodes.size, before.nodes.size ≤ other →
      after.Kept direct exempt origin defined other) :
    after.Consistent direct exempt origin defined := by
  have beyond : after.node after.nodes.size = before.node after.nodes.size := by
    rw [node_of_size_le (le_refl _), node_of_size_le adds.size_le]
  refine consistent.turn adds.size_le (fun _ old _ => adds.kept old) ⟨by rw [beyond],
    by rw [beyond], by rw [beyond]⟩
    (fun _ _ isExempt => isExempt) (.inl ?_) (fun _ isDefined => isDefined) ?_ born ?_
  · rw [isComposable, beyond, isComposable]
  · exact fun _ _ _ old within => within.ofAdds adds fresh old
  · rintro other there (rfl | new)
    · exact absurd there (lt_irrefl _)
    · exact rest other there new

/-- A new node is a part of another only through the node that has changed. -/
theorem within_of_new (consistent : before.Consistent direct exempt origin defined)
    (others : ∀ ⦃other⦄, other < before.nodes.size → other ≠ id →
      after.node other = before.node other)
    (uniform : ∀ other, before.nodes.size ≤ other → (after.node other).children = []) {node}
    (isOrigin : place ∈ origin) (within : after.Within place node)
    (new : before.nodes.size ≤ node) : after.Within place id ∧ (after.node id).children ≠ [] := by
  cases within with
  | self => exact absurd (consistent.old place isOrigin) (Nat.not_lt_of_le new)
  | @child parent entry above mem =>
    have parentOld : parent < before.nodes.size := by
      by_contra late
      rw [uniform parent (Nat.le_of_not_lt late)] at mem
      cases mem
    by_cases here : parent = id
    · subst here
      exact ⟨above, ne_nil_of_mem mem⟩
    · rw [others parentOld here] at mem
      have inside := ((consistent.kept parent parentOld).listed entry mem).2.1
      exact absurd inside (Nat.not_lt_of_le new)

/-! ## Splitting -/

/-- The parts of a node are in its state, and whoever has defined it has defined them. -/
theorem split (consistent : arena.Consistent direct exempt origin defined) (id : NodeId) :
    (arena.split id).Consistent direct exempt origin defined := by
  rcases arena.split_cases id with ⟨same, -⟩ | splits
  · rwa [same]
  have there := splits.there
  have kept := consistent.kept id there
  obtain ⟨children, node_eq⟩ := splits.itself
  have lineage_eq : (arena.split id).lineage id = arena.lineage id :=
    lineage_congr fun other le => (splits.alike (Nat.lt_of_le_of_lt le there)).parent_eq
  have isPart : ∀ entry ∈ ((arena.split id).node id).children, ∃ pos field,
      (arena.node id).shape.fields[pos]? = some field ∧ entry.1 = field.1 ∧
        entry.2 = arena.nodes.size + pos :=
    fun entry mem => mem_fieldNodes.mp (splits.entries entry mem)
  have flag : (arena.split id).isComposable id = arena.isComposable id := by
    rw [isComposable, node_eq, isComposable]
  have back : ∀ place ∈ origin, ∀ other < arena.nodes.size,
      (arena.split id).Within place other → arena.Within place other := by
    intro place _ other old within
    refine within.back splits.others (fun _ entry mem entryOld => ?_)
      (fun other new entry mem => ?_) old
    · obtain ⟨pos, field, -, -, child_eq⟩ := isPart entry mem
      rw [child_eq] at entryOld
      exact absurd entryOld (Nat.not_lt_of_le (Nat.le_add_right _ _))
    · rw [splits.children_eq_nil new] at mem
      cases mem
  refine consistent.turn (splits.size_eq ▸ Nat.le_add_right _ _) splits.others (splits.alike there)
    (fun _ _ isExempt => isExempt) (.inl flag) (fun _ isDefined => isDefined) back
    (fun other new inside => ?_) fun other inside changed => ?_
  · obtain ⟨pos, field, rfl, found⟩ := splits.exists_field new inside
    rw [Born, splits.parts found]
    rintro _ ⟨⟩
    rw [(splits.alike there).shape_eq]
    exact ⟨Nat.lt_add_right _ there, mem_of_getElem? found⟩
  by_cases here : other = id
  · subst here
    refine ⟨⟨splits.names, fun _ => ?_, fun _ => ?_, fun _ _ => ?_⟩, fun entry mem => ?_,
      fun _ _ => ?_, fun _ _ _ uniform => absurd uniform splits.children_ne_nil⟩
    · rw [(splits.alike there).shape_eq]
      exact splits.full
    · rw [node_eq]
    · rw [node_eq]
    · obtain ⟨pos, field, found, name_eq, child_eq⟩ := isPart entry mem
      have inside := (List.getElem?_eq_some_iff.mp found).1
      rw [child_eq, name_eq, splits.parts found, splits.size_eq]
      exact ⟨Nat.lt_add_right _ there, Nat.add_lt_add_left inside _, rfl, rfl⟩
    · have flags : ∀ entry ∈ ((arena.split other).node other).children,
          (arena.split other).isComposable entry.2 = arena.isComposable other := by
        intro entry mem
        obtain ⟨pos, field, found, -, child_eq⟩ := isPart entry mem
        rw [child_eq, isComposable, splits.parts found, isComposable]
      obtain ⟨first, rest, children_eq⟩ := exists_cons_of_ne_nil splits.children_ne_nil
      rw [flag, all_eq_all flags, children_eq]
      cases arena.isComposable other with
      | false => rfl
      | true => exact (all_eq_true.mpr fun _ _ => rfl).symm
  · have new := changed.resolve_left here
    have below : id < other := Nat.lt_of_lt_of_le there new
    obtain ⟨pos, field, rfl, found⟩ := splits.exists_field new inside
    have part_eq := splits.parts found
    refine kept_of_uniform (by rw [part_eq]) (by rw [part_eq]; exact kept.whole)
      fun place isOrigin within => ?_
    have above := back place isOrigin id there (consistent.within_of_new splits.others
      (fun _ => splits.children_eq_nil) isOrigin within new).1
    rw [lineage_of_parent (by rw [part_eq]) below, lineage_eq, part_eq]
    refine (kept.since place isOrigin above splits.uniform).imp_left ?_
    rintro ⟨found, isAbove, isDefined⟩
    exact ⟨found, mem_cons_of_mem _ isAbove, isDefined⟩

end Consistent

/-! ## Flags above a node -/

/-- A node is a child of another. -/
def Lists (arena : Arena) (child parent : NodeId) : Prop :=
  child ∈ (arena.node parent).children.map Prod.snd

instance (arena : Arena) (child parent : NodeId) : Decidable (arena.Lists child parent) :=
  inferInstanceAs (Decidable (_ ∈ _))

/-- A node that has not been cut off: it and all nodes above it are children of the nodes
above them. -/
def Current (arena : Arena) (id : NodeId) : Prop :=
  id < arena.nodes.size ∧ (arena.lineage id).IsChain arena.Lists

instance (arena : Arena) (id : NodeId) : Decidable (arena.Current id) :=
  inferInstanceAs (Decidable (_ ∧ _))

/-- Nodes keep their parents, and those before some number keep their children. -/
structure Retains (before after : Arena) (limit : NodeId) : Prop where
  size_le : before.nodes.size ≤ after.nodes.size
  parent_eq : ∀ ⦃other⦄, other < before.nodes.size →
    (after.node other).parent = (before.node other).parent
  children_eq : ∀ ⦃other⦄, other < limit → other < before.nodes.size →
    (before.node other).children ≠ [] → (after.node other).children = (before.node other).children

namespace Retains

variable {limit : NodeId}

theorem refl (arena : Arena) (limit : NodeId) : arena.Retains arena limit :=
  ⟨le_refl _, fun _ _ => rfl, fun _ _ _ _ => rfl⟩

theorem trans (first : before.Retains mid limit) (second : mid.Retains after limit) :
    before.Retains after limit where
  size_le := le_trans first.size_le second.size_le
  parent_eq := fun _ old =>
    (second.parent_eq (lt_of_lt_of_le old first.size_le)).trans (first.parent_eq old)
  children_eq := fun _ early old hasChildren => by
    have same := first.children_eq early old hasChildren
    exact (second.children_eq early (lt_of_lt_of_le old first.size_le)
      (same ▸ hasChildren)).trans same

theorem mono (retains : before.Retains after limit) (le : lower ≤ limit) :
    before.Retains after lower :=
  { retains with
    children_eq := fun _ early => retains.children_eq (lt_of_lt_of_le early le) }

theorem lineage_eq (retains : before.Retains after limit) (old : id < before.nodes.size) :
    after.lineage id = before.lineage id :=
  lineage_congr fun _ le => retains.parent_eq (lt_of_le_of_lt le old)

theorem split (arena : Arena) (id limit : NodeId) : arena.Retains (arena.split id) limit := by
  rcases arena.split_cases id with ⟨same, -⟩ | splits
  · rw [same]
    exact .refl arena limit
  · refine ⟨splits.size_eq ▸ le_add_right _ _, fun _ old => (splits.alike old).parent_eq,
      fun other _ old hasChildren => ?_⟩
    have differs : other ≠ id := by
      rintro rfl
      exact hasChildren splits.uniform
    rw [splits.others old differs]

theorem modify {change : Node → Node}
    (parent_eq : (change (arena.node id)).parent = (arena.node id).parent) :
    arena.Retains (arena.modify id change) id where
  size_le := by simp
  parent_eq := fun other _ =>
    related_modify (fun node original => node.parent = original.parent)
      (fun _ => rfl) parent_eq other
  children_eq := fun other early _ _ => by rw [node_modify_ne (Nat.ne_of_lt early)]

theorem recompute (arena : Arena) (id limit : NodeId) : arena.Retains (arena.recompute id) limit :=
  { @modify arena id _ rfl with
    children_eq := fun other _ _ _ => children_recompute arena id other }

theorem isChain (retains : before.Retains after id)
    (consistent : before.Consistent direct exempt origin defined) (current : before.Current id) :
    (after.lineage id).IsChain after.Lists := by
  rw [retains.lineage_eq current.1]
  refine current.2.imp_of_mem_imp fun child parent childAbove parentAbove listed => ?_
  have parentThere := lt_of_le_of_lt (le_of_mem_lineage parentAbove) current.1
  obtain ⟨entry, mem, rfl⟩ := mem_map.mp listed
  have below := ((consistent.kept parent parentThere).listed entry mem).1
  have early := lt_of_lt_of_le below (le_of_mem_lineage childAbove)
  rw [Lists, retains.children_eq early parentThere (ne_nil_of_mem mem)]
  exact listed

end Retains

/-- Bringing the flags above a node up to date. -/
theorem Consistent.refreshAncestors {arena : Arena} {id}
    (consistent : arena.Consistent direct (fun other => (arena.node id).parent = some other) origin
      defined) (chain : direct → (arena.lineage id).IsChain arena.Lists) :
    (arena.refreshAncestors id).Consistent direct (fun _ => False) origin defined := by
  cases parent_eq : (arena.node id).parent with
  | none =>
    rw [Arena.refreshAncestors, ancestors, parent_eq]
    refine consistent.mono fun other isParent => ?_
    rw [parent_eq] at isParent
    cases isParent
  | some parent =>
    have there : id < arena.nodes.size := by
      by_contra beyond
      rw [node_of_size_le (Nat.le_of_not_lt beyond)] at parent_eq
      cases parent_eq
    have below := (consistent.born id parent_eq).1
    have parentThere := Nat.lt_trans below there
    have retains := Retains.recompute arena parent arena.nodes.size
    rw [lineage_of_parent parent_eq below, lineage, isChain_cons_cons] at chain
    have hasChildren : direct → (arena.node parent).children ≠ [] := by
      intro isDirect uniform
      have listed := (chain isDirect).1
      simp [Lists, uniform] at listed
    have refreshed : arena.refreshAncestors id =
        (arena.recompute parent).refreshAncestors parent := by
      rw [Arena.refreshAncestors, Arena.refreshAncestors,
        ancestors_congr fun other le => retains.parent_eq (Nat.lt_of_le_of_lt le parentThere)]
      rw [show arena.ancestors id = parent :: arena.ancestors parent from
        (List.cons.inj (lineage_of_parent parent_eq below)).2, foldl_cons]
    rw [refreshed]
    refine Consistent.refreshAncestors ?_ fun isDirect => ?_
    · rw [retains.parent_eq parentThere]
      refine Consistent.recompute ?_ (fun isDirect =>
        (consistent.kept parent parentThere).split (hasChildren isDirect))
        fun _ isParent => isParent
      refine consistent.mono fun other isParent => .inr ?_
      exact Option.some.inj (isParent.symm.trans parent_eq)
    · rw [retains.lineage_eq parentThere]
      have same : (arena.recompute parent).Lists = arena.Lists := by
        funext child other
        rw [Lists, Lists, children_recompute]
      rw [same]
      exact (chain isDirect).2
termination_by id

/-! ## Merging -/

/-- A way to merge that keeps nodes in order. -/
def MergesKept (direct : Prop) (origin : Option NodeId) (defined : List NodeId) (merge : Merger) :
    Prop :=
  ∀ ⦃arena exempt target⦄ (branch : NodeId), arena.Consistent direct exempt origin defined →
    target < arena.nodes.size →
    (∀ parent, (arena.node target).parent = some parent → exempt parent) →
    (merge target branch arena).Consistent direct exempt origin defined ∧
      arena.Retains (merge target branch arena) target

theorem Consistent.mem_commonChildren (consistent : arena.Consistent direct exempt origin defined)
    {pair} (mem : pair ∈ arena.commonChildren target branch) :
    target < pair.2.1 ∧ pair.2.1 < arena.nodes.size ∧
      (arena.node pair.2.1).parent = some target := by
  obtain ⟨⟨name, child⟩, listed, paired⟩ := mem_filterMap.mp mem
  obtain ⟨other, -, rfl⟩ := Option.map_eq_some_iff.mp paired
  have isChild := consistent.isChild listed
  exact ⟨isChild.after, isChild.inside, isChild.parent⟩

/-- The fields of a part are merged one after the other. -/
theorem Consistent.mergePairs (steps : ∀ arena pair, step arena pair = arena ∨
      ∃ merge, MergesKept direct origin defined merge ∧ step arena pair =
        merge pair.2.1 pair.2.2 arena)
    {pairs : List (String × NodeId × NodeId)}
    (consistent : arena.Consistent direct exempt origin defined) (counted : exempt target)
    (parts : ∀ pair ∈ pairs, target < pair.2.1 ∧ pair.2.1 < arena.nodes.size ∧
      (arena.node pair.2.1).parent = some target) :
    (pairs.foldl step arena).Consistent direct exempt origin defined ∧
      arena.Retains (pairs.foldl step arena) (target + 1) := by
  induction pairs generalizing arena with
  | nil => exact ⟨consistent, .refl _ _⟩
  | cons pair pairs ih =>
    obtain ⟨below, inside, parent_eq⟩ := parts pair mem_cons_self
    have merged : (step arena pair).Consistent direct exempt origin defined ∧
        arena.Retains (step arena pair) (target + 1) := by
      rcases steps arena pair with same | ⟨merge, keeps, same⟩
      · rw [same]
        exact ⟨consistent, .refl _ _⟩
      · rw [same]
        have result := keeps pair.2.2 consistent inside fun parent isParent => by
          cases parent_eq.symm.trans isParent
          exact counted
        exact ⟨result.1, result.2.mono below⟩
    obtain ⟨all, retains⟩ := ih merged.1 fun later mem => by
      obtain ⟨laterBelow, laterInside, laterParent⟩ := parts later (mem_cons_of_mem _ mem)
      exact ⟨laterBelow, lt_of_lt_of_le laterInside merged.2.size_le,
        (merged.2.parent_eq laterInside).trans laterParent⟩
    exact ⟨all, merged.2.trans retains⟩

theorem consumedAt_split (old : other < arena.nodes.size)
    (clear : (arena.node other).consumedAt = none) :
    ((arena.split id).node other).consumedAt = none := by
  rcases arena.split_cases id with ⟨same, -⟩ | splits
  · rwa [same]
  by_cases here : other = id
  · obtain ⟨_, node_eq⟩ := splits.itself
    rw [here, node_eq]
  · rwa [splits.others old here]

/-- The fields of a split part are merged, and then its flag is brought up to date. -/
theorem Consistent.mergeFields (consistent : arena.Consistent direct exempt origin defined)
    (steps : ∀ arena pair, step arena pair = arena ∨
      ∃ merge, MergesKept direct origin defined merge ∧ step arena pair =
        merge pair.2.1 pair.2.2 arena)
    (there : target < arena.nodes.size) (clear : (arena.node target).consumedAt = none)
    (later : ∀ parent, (arena.node target).parent = some parent → exempt parent) :
    (((arena.commonChildren target branch).foldl step arena).recompute
    target).Consistent direct exempt
        origin defined ∧
      arena.Retains (((arena.commonChildren target branch).foldl step arena).recompute target)
        target := by
  have counted : arena.Consistent direct (fun other => exempt other ∨ other = target)
    origin defined :=
    consistent.mono fun _ => .inl
  obtain ⟨mergedKept, retains⟩ := counted.mergePairs steps (.inr rfl) fun _ mem =>
    consistent.mem_commonChildren mem
  generalize merged_eq : (arena.commonChildren target branch).foldl step arena = merged
    at mergedKept retains ⊢
  have mergedThere := lt_of_lt_of_le there retains.size_le
  -- The merges of the fields do not reach the node itself.
  have mergedClear : (merged.node target).consumedAt = none := by
    by_cases hasChildren : (arena.node target).children ≠ []
    · have same := retains.children_eq (lt_succ_self target) there hasChildren
      refine (mergedKept.kept target mergedThere).split ?_
      rw [same]
      exact hasChildren
    · have common : arena.commonChildren target branch = [] := by
        rw [commonChildren, not_not.mp hasChildren, filterMap_nil]
      rw [← merged_eq, common]
      exact clear
  refine ⟨mergedKept.recompute (fun _ => mergedClear) ?_,
    (retains.mono (le_succ target)).trans (.recompute _ _ _)⟩
  rw [retains.parent_eq there]
  exact later

theorem mergesKept_mergeAt (direct : Prop) (origin : Option NodeId) (defined : List NodeId)
    (shape : Shape) : MergesKept direct origin defined (mergeAt shape) := by
  refine Shape.induct (motive := fun shape => MergesKept direct origin defined
    (mergeAt shape)) ?_ shape
  rintro ⟨fields⟩ ih arena exempt target branch consistent there later
  rw [mergeAt]
  dsimp only
  cases consumed : arena.uniformlyConsumed? branch with
  | some moved =>
    exact ⟨consistent.settle (settles_consume _ moved) later (fun _ isDefined => isDefined)
      (fun _ _ => .inr ⟨rfl, by simp [Node.consume]⟩), .modify rfl⟩
  | none =>
    dsimp only
    split
    · exact ⟨consistent, .refl arena target⟩
    · rename_i notConsumed
      -- Neither side carries a marker.
      have clear : (arena.node target).consumedAt = none := by
        by_cases uniform : (arena.node target).children = []
        · simpa [uniformlyConsumed?, uniform] using notConsumed
        · exact (consistent.kept target there).split uniform
      split
      · rename_i uniform
        rw [Bool.and_eq_true, List.isEmpty_iff] at uniform
        exact ⟨(consistent.mono fun _ => .inl).relabel rfl (fun _ => .inr clear)
          (fun hasChildren => absurd uniform.1 hasChildren) (.inr later), .modify rfl⟩
      · have half := Retains.split arena target target
        have retains : arena.Retains ((arena.split target).split branch) target :=
          half.trans (.split _ branch target)
        refine And.imp_right retains.trans (Consistent.mergeFields
          ((consistent.split target).split branch) (fun arena pair => ?_)
          (lt_of_lt_of_le there retains.size_le)
          (consumedAt_split (lt_of_lt_of_le there half.size_le) (consumedAt_split there clear))
          (by rw [retains.parent_eq there]; exact later))
        split
        · exact .inl rfl
        · rename_i merge found
          obtain ⟨field, isField, rfl⟩ := exists_of_lookup found
          exact .inr ⟨_, ih field isField, rfl⟩

theorem mergeAt_of_size_le (beyond : arena.nodes.size ≤ target) (shape : Shape) (branch : NodeId) :
    mergeAt shape target branch arena = arena := by
  have absent := node_of_size_le beyond
  obtain ⟨fields⟩ := shape
  rw [mergeAt]
  dsimp only
  cases arena.uniformlyConsumed? branch with
  | some moved => exact modify_of_size_le beyond _
  | none =>
    have clear : arena.uniformlyConsumed? target = none := by
      rw [uniformlyConsumed?, absent]
      rfl
    have alone : (arena.node target).children = [] := by rw [absent]; rfl
    rw [clear]
    by_cases uniform : (arena.node branch).children = []
    · simp only [alone, uniform]
      exact modify_of_size_le beyond _
    · have leaf : (arena.node target).shape.fields = [] := by rw [absent]; rfl
      have parted : (arena.node branch).children.isEmpty = false := by simpa using uniform
      simp only [alone, parted, split_of_isLeaf leaf, split_of_children uniform, commonChildren,
        filterMap_nil]
      exact modify_of_size_le beyond _

/-! ## Copies -/

theorem tree_eq (parts : ∀ entry ∈ (arena.node id).children, arena.IsChild id entry.1 entry.2) :
    arena.tree id = .node (arena.node id).toState
      ((arena.node id).children.map fun entry => (entry.1, arena.tree entry.2)) := by
  rw [tree]
  congr 1
  refine filterMap_eq_map_iff_forall_eq_some.mpr fun entry mem => ?_
  have isChild := parts entry mem
  exact if_pos ⟨isChild.after, isChild.inside⟩

theorem state_tree (arena : Arena) (id : NodeId) :
    (arena.tree id).state = (arena.node id).toState := by
  rw [tree]
  rfl

theorem Consistent.leafState_tree (consistent : arena.Consistent direct exempt origin defined)
    (id : NodeId) (path : List String) :
    (arena.tree id).leafState path = arena.leafState id path := by
  induction path generalizing id with
  | nil => rw [Tree.leafState, state_tree, leafState]
  | cons name path ih =>
    rw [Tree.leafState, leafState, state_tree, tree_eq fun _ => consistent.isChild, Tree.children,
      lookup_map fun _ child => arena.tree child, child?]
    cases (arena.node id).children.lookup name with
    | none => rfl
    | some child => exact ih child

theorem Consistent.sound_tree {arena : Arena}
    (consistent : arena.Consistent direct (fun _ => False) origin defined) {id} :
    (arena.tree id).Sound direct := by
  rw [tree_eq fun _ => consistent.isChild]
  by_cases there : id < arena.nodes.size
  case neg =>
    rw [node_of_size_le (Nat.le_of_not_lt there)]
    exact .node (.of_uniform (by rintro - ⟨⟩)) (by rintro _ ⟨⟩)
      (fun hasChildren => absurd rfl hasChildren) (by rintro _ ⟨⟩)
  have kept := consistent.kept id there
  refine .node (kept.toRegular.congr (map_map ..)) ?_ ?_ ?_
  · intro child mem
    obtain ⟨entry, isEntry, rfl⟩ := mem_map.mp mem
    have isChild := consistent.isChild isEntry
    rw [state_tree]
    exact ⟨isChild.name_eq, isChild.shape_eq⟩
  · intro hasChildren
    rw [all_map]
    refine (kept.complete not_false (by simpa using hasChildren)).trans
      (all_eq_all fun entry mem => ?_)
    rw [Function.comp, state_tree]
    rfl
  · intro child mem
    obtain ⟨entry, isEntry, rfl⟩ := mem_map.mp mem
    have below := consistent.isChild isEntry
    exact consistent.sound_tree
termination_by arena.nodes.size - id
decreasing_by exact Nat.sub_lt_sub_left (Nat.lt_trans below.after below.inside) below.after

/-- Leaves keep their states if the nodes from some number on do not change. -/
theorem Consistent.leafState_of_kept (consistent : before.Consistent direct exempt origin defined)
    (kept : ∀ ⦃id⦄, low ≤ id → id < before.nodes.size → after.node id = before.node id)
    (above : low ≤ id) (inside : id < before.nodes.size) (path : List String) :
    after.leafState id path = before.leafState id path := by
  induction path generalizing id with
  | nil => rw [leafState, leafState, kept above inside]
  | cons name path ih =>
    have same : after.child? id name = before.child? id name := by
      rw [child?, child?, kept above inside]
    rw [leafState, leafState, same, kept above inside]
    cases found : before.child? id name with
    | none => rfl
    | some child =>
      have isChild := (consistent.isChild_of_child? found).2
      exact ih (le_trans above (le_of_lt isChild.after)) isChild.inside

theorem Consistent.leafState_of_adds (consistent : before.Consistent direct exempt origin defined)
    (adds : before.Adds after) (inside : id < before.nodes.size) (path : List String) :
    after.leafState id path = before.leafState id path :=
  consistent.leafState_of_kept (fun _ _ old => adds.kept old) (zero_le id) inside path

/-- A tree has grown into new nodes, all of them parts of others but for its top. -/
structure Planted (before after : Arena) (parent : Option NodeId) (tree : Tree) : Prop where
  adds : before.Adds after
  inside : before.nodes.size < after.nodes.size
  parent_eq : (after.node before.nodes.size).parent = parent
  state_eq : (after.node before.nodes.size).toState = tree.state
  fresh : ∀ ⦃id⦄, before.nodes.size < id → id < after.nodes.size → (after.node id).parent ≠ none

mutual

theorem planted_plant (parent : Option NodeId) (tree : Tree) (arena : Arena) :
    (plant parent tree arena).2 = arena.nodes.size ∧
      arena.Planted (plant parent tree arena).1 parent tree := by
  match tree with
  | .node state children =>
    let new : Node := { toState := state, children := [], parent }
    have inside : arena.nodes.size < (arena.push new).1.nodes.size := arena.lt_size_push new
    obtain ⟨grows, fresh⟩ := planted_plantChildren arena.nodes.size children (arena.push new).1
    have total := (arena.adds_push new).trans grows
    have mem := Nat.lt_of_lt_of_le inside grows.size_le
    have node_eq := (grows.kept inside).trans (arena.node_push_self new)
    refine ⟨rfl, ⟨?_, ?_⟩, ?_, ?_, ?_, fun other late there => ?_⟩
    · exact Nat.le_trans total.size_le (Nat.le_of_eq size_attach.symm)
    · intro other old
      exact (node_attach_ne (Nat.ne_of_lt old)).trans (total.kept old)
    · exact Nat.lt_of_lt_of_le mem (Nat.le_of_eq size_attach.symm)
    · exact (parent_attach arena.nodes.size).trans (congrArg Node.parent node_eq)
    · exact (state_attach arena.nodes.size).trans (congrArg Node.toState node_eq)
    · refine (parent_attach other).trans_ne (fresh ?_ (size_attach ▸ there))
      rw [size_push]
      exact late

theorem planted_plantChildren (parent : NodeId) (children : List (String × Tree)) (arena : Arena) :
    let planted := plantChildren parent children arena
    arena.Adds planted.1 ∧ ∀ ⦃id⦄, arena.nodes.size ≤ id → id < planted.1.nodes.size →
      (planted.1.node id).parent ≠ none := by
  match children with
  | [] =>
    exact ⟨⟨Nat.le_refl _, fun _ _ => rfl⟩, fun _ new inside => absurd inside
      (Nat.not_lt_of_le new)⟩
  | (name, child) :: rest =>
    obtain ⟨-, grown⟩ := planted_plant (some parent) child arena
    obtain ⟨grows, fresh⟩ := planted_plantChildren parent rest (plant (some parent) child arena).1
    refine ⟨grown.adds.trans grows, fun id new inside => ?_⟩
    by_cases early : id < (plant (some parent) child arena).1.nodes.size
    · refine (congrArg Node.parent (grows.kept early)).trans_ne ?_
      rcases Nat.eq_or_lt_of_le new with rfl | late
      · rw [grown.parent_eq]
        exact Option.some_ne_none _
      · exact grown.fresh late early
    · exact fresh (Nat.le_of_not_lt early) inside

end

/-- An entry stands for the tree of a child that has grown below a node. -/
structure Grown (arena : Arena) (parent : NodeId) (child : String × Tree)
    (entry : String × NodeId) : Prop where
  name_eq : entry.1 = child.1
  listed : parent < entry.2 ∧ entry.2 < arena.nodes.size ∧
    (arena.node entry.2).parent = some parent
  state_eq : (arena.node entry.2).toState = child.2.state
  leaves : ∀ path, arena.leafState entry.2 path = child.2.leafState path

theorem Grown.ofAdds (grown : before.Grown parent child entry)
    (consistent : before.Consistent direct exempt origin defined) (adds : before.Adds after) :
    after.Grown parent child entry := by
  obtain ⟨name_eq, ⟨below, inside, parent_eq⟩, state_eq, leaves⟩ := grown
  refine ⟨name_eq, ⟨below, lt_of_lt_of_le inside adds.size_le, ?_⟩, ?_, fun path => ?_⟩
  · rw [adds.kept inside, parent_eq]
  · rw [adds.kept inside, state_eq]
  · rw [consistent.leafState_of_adds adds inside, leaves]

section Attach

variable {state : State} (consistent : arena.Consistent direct (fun _ => False) origin defined)
  (there : id < arena.nodes.size) (state_eq : (arena.node id).toState = state)
  (pairs : List.Forall₂ (arena.Grown id) children entries)

include pairs in
/-- The names and flags of children that have grown are those of their trees. -/
theorem entries_of_grown : entries.map Prod.fst = children.map Prod.fst ∧
      (children.all fun child => child.2.state.composable) =
        (entries.all fun entry => arena.isComposable entry.2) ∧
      ∀ entry ∈ entries, ∃ child ∈ children, arena.Grown id child entry := by
  refine ⟨?_, ?_, fun _ => exists_of_forall₂ pairs⟩ <;> induction pairs with
  | nil => rfl
  | cons pair _ ih => simp [ih, pair.name_eq, isComposable, pair.state_eq]

include pairs in
theorem lookup_of_grown (name : String) :
    (entries.lookup name = none ∧ children.lookup name = none) ∨
      ∃ tree entry, entries.lookup name = some entry ∧ children.lookup name = some tree ∧
        arena.Grown id (name, tree) (name, entry) := by
  induction pairs with
  | nil => exact .inl ⟨rfl, rfl⟩
  | @cons child entry children entries pair _ ih =>
    obtain ⟨childName, tree⟩ := child
    obtain ⟨entryName, node⟩ := entry
    obtain rfl : entryName = childName := pair.name_eq
    rw [List.lookup_cons, List.lookup_cons]
    cases here : name == entryName with
    | true =>
      obtain rfl := beq_iff_eq.mp here
      exact .inr ⟨tree, node, rfl, rfl, pair⟩
    | false => exact ih

include consistent there state_eq pairs

/-- A node gets the children that stand for the trees of a sound one. -/
theorem Consistent.attach (sound : Tree.Sound direct (.node state children))
    (apart : ∀ place ∈ origin, ¬arena.Within place id) :
    (arena.attach id entries).Consistent direct (fun _ => False) origin defined := by
  have node_eq : (arena.attach id entries).node id = { arena.node id with children := entries } :=
    node_attach_self there
  obtain ⟨regular, fields, complete, -⟩ := sound
  obtain ⟨names, flags, grown⟩ := entries_of_grown pairs
  refine consistent.modify ⟨rfl, rfl, rfl⟩ (fun _ _ isExempt => isExempt) (.inl rfl)
    (fun _ isDefined => isDefined) (fun place isOrigin above => absurd above (apart place isOrigin))
    fun _ back => ?_
  have regular : Regular direct (arena.node id).toState entries := state_eq ▸ regular.congr names
  refine ⟨node_eq ▸ regular, ?_, ?_, fun place isOrigin within =>
    absurd (back place isOrigin within) (apart place isOrigin)⟩
  · change ∀ entry ∈ ((arena.attach id entries).node id).children, _
    rw [node_eq]
    intro entry mem
    obtain ⟨child, isChild, pair⟩ := grown entry mem
    obtain ⟨below, inside, parent_eq⟩ := pair.listed
    refine ⟨below, (size_modify ..).symm ▸ inside, (parent_attach entry.2).trans parent_eq, ?_⟩
    refine (congrArg State.name ((state_attach entry.2).trans pair.state_eq)).trans ?_
    exact (fields child isChild).1.trans pair.name_eq.symm
  · change ¬False → ((arena.attach id entries).node id).children ≠ [] →
      (arena.attach id entries).isComposable id = ((arena.attach id entries).node id).children.all _
    rw [isComposable, node_eq]
    intro _ hasEntries
    have hasChildren : children ≠ [] := by
      rintro rfl
      exact hasEntries (map_eq_nil_iff.mp names)
    refine (congrArg State.composable state_eq).trans ((complete hasChildren).trans
      (flags.trans ?_))
    refine all_eq_all fun entry mem => ?_
    obtain ⟨_, _, pair⟩ := grown entry mem
    exact congrArg State.composable (state_attach entry.2).symm

theorem leafState_attach (path : List String) :
    (arena.attach id entries).leafState id path = (Tree.node state children).leafState path := by
  have here : ((arena.attach id entries).node id).toState.leafState = state.leafState := by
    rw [state_attach id, state_eq]
  cases path with
  | nil => exact here
  | cons name rest =>
    have found : (arena.attach id entries).child? id name = entries.lookup name := by
      rw [child?, node_attach_self there]
    rw [leafState, Tree.leafState, found, Tree.children]
    rcases lookup_of_grown pairs name with ⟨noEntry, noChild⟩ | ⟨child, entry, isEntry,
      isChild, pair⟩
    · rw [noEntry, noChild]
      exact here
    · rw [isEntry, isChild]
      -- The walk goes on in nodes after the one that changes.
      have kept : ∀ ⦃other⦄, id + 1 ≤ other → other < arena.nodes.size →
          (arena.attach id entries).node other = arena.node other :=
        fun other isAfter _ => node_attach_ne (ne_of_gt isAfter)
      exact (consistent.leafState_of_kept kept pair.listed.1 pair.listed.2.1 rest).trans
        (pair.leaves rest)

end Attach

/-- A uniform node is added, and is no part of the part that was moved out. -/
theorem Consistent.push (consistent : arena.Consistent direct exempt origin defined)
    (uniform : new.children = [])
    (born : ∀ ⦃parent⦄, new.parent = some parent → parent < arena.nodes.size ∧
      (new.name, new.shape) ∈ (arena.node parent).shape.fields)
    (whole : direct → new.composable = true → new.consumedAt = none) :
    (arena.push new).1.Consistent direct exempt origin defined ∧
      ∀ place ∈ origin, ¬(arena.push new).1.Within place arena.nodes.size := by
  have added := arena.adds_push new
  have new_eq := arena.node_push_self new
  have allUniform : ∀ other, arena.nodes.size ≤ other →
      ((arena.push new).1.node other).children = [] := by
    intro other isNew
    by_cases here : other = arena.nodes.size
    · rw [here, new_eq, uniform]
    · rw [node_push_ne new here, node_of_size_le isNew]
      rfl
  have others : ∀ ⦃other⦄, other < arena.nodes.size → other ≠ arena.nodes.size →
      (arena.push new).1.node other = arena.node other := fun _ old _ => added.kept old
  have apart : ∀ place ∈ origin, ¬(arena.push new).1.Within place arena.nodes.size :=
    fun place isOrigin within => (consistent.within_of_new others allUniform isOrigin within
      (le_refl _)).2 (allUniform _ (le_refl _))
  have only : ∀ other, arena.nodes.size ≤ other → other < (arena.push new).1.nodes.size →
      other = arena.nodes.size := by
    intro other isNew inside
    rw [size_push] at inside
    exact le_antisymm (le_of_lt_succ inside) isNew
  refine ⟨consistent.adds added (fun other isNew => ?_) (fun other isNew inside => ?_)
    fun other inside isNew => ?_, apart⟩
  · rw [allUniform other isNew]
    intro _ mem
    cases mem
  · obtain rfl := only other isNew inside
    rw [Born, new_eq]
    intro parent isParent
    obtain ⟨below, label⟩ := born isParent
    rw [added.kept below]
    exact ⟨below, label⟩
  · obtain rfl := only other isNew inside
    refine kept_of_uniform ?_ ?_ fun place isOrigin within => absurd within (apart place isOrigin)
    all_goals rw [new_eq]; assumption

mutual

/-- A planted tree is kept as its copy was. -/
theorem Consistent.plant (parent : Option NodeId) (tree : Tree) (sound : tree.Sound direct)
    (arena : Arena) (consistent : arena.Consistent direct (fun _ => False) origin defined)
    (born : ∀ ⦃above⦄, parent = some above → above < arena.nodes.size ∧
      (tree.state.name, tree.state.shape) ∈ (arena.node above).shape.fields) :
    let planted := Arena.plant parent tree arena
    planted.1.Consistent direct (fun _ => False) origin defined ∧
      ∀ path, planted.1.leafState arena.nodes.size path = tree.leafState path := by
  match tree, sound with
  | .node state children, sound =>
    intro planted
    let new : Node := { toState := state, children := [], parent }
    have parts := sound
    obtain ⟨regular, fields, -, below⟩ := parts
    obtain ⟨pushed, apart⟩ : (arena.push new).1.Consistent direct (fun _ => False) origin defined ∧
        ∀ place ∈ origin, ¬(arena.push new).1.Within place arena.nodes.size :=
      consistent.push rfl born regular.whole
    have new_eq := arena.node_push_self new
    have inside : arena.nodes.size < (arena.push new).1.nodes.size := arena.lt_size_push new
    obtain ⟨grown, pairs⟩ := Consistent.plantChildren arena.nodes.size children below
      (arena.push new).1 pushed inside (by rw [new_eq]; exact fun child mem =>
        (fields child mem).1 ▸ (fields child mem).2)
    have grows := (planted_plantChildren arena.nodes.size children (arena.push new).1).1
    have present := lt_of_lt_of_le inside grows.size_le
    have state_eq := congrArg Node.toState ((grows.kept inside).trans new_eq)
    refine ⟨grown.attach present state_eq pairs sound fun place isOrigin within => ?_,
      leafState_attach grown present state_eq pairs⟩
    exact apart place isOrigin (within.ofAdds grows
      (fun _ _ _ mem => (grown.isChild mem).after) inside)

theorem Consistent.plantChildren (parent : NodeId) (children : List (String × Tree))
    (sound : ∀ child ∈ children, child.2.Sound direct) (arena : Arena)
    (consistent : arena.Consistent direct (fun _ => False) origin defined)
    (there : parent < arena.nodes.size) (fields : ∀ child ∈ children,
      (child.2.state.name, child.2.state.shape) ∈ (arena.node parent).shape.fields) :
    let planted := Arena.plantChildren parent children arena
    planted.1.Consistent direct (fun _ => False) origin defined ∧
      List.Forall₂ (planted.1.Grown parent) children planted.2 := by
  match children, sound with
  | [], _ => exact ⟨consistent, .nil⟩
  | (name, child) :: rest, sound =>
    intro planted
    obtain ⟨first, leaves⟩ := Consistent.plant (some parent) child (sound _ mem_cons_self)
      arena consistent fun above same => by
        cases same
        exact ⟨there, fields _ mem_cons_self⟩
    obtain ⟨first_eq, grown⟩ := planted_plant (some parent) child arena
    obtain ⟨all, pairs⟩ := Consistent.plantChildren parent rest
      (fun other mem => sound other (mem_cons_of_mem _ mem)) _ first
      (lt_of_lt_of_le there grown.adds.size_le) (by
        rw [grown.adds.kept there]
        exact fun other mem => fields other (mem_cons_of_mem _ mem))
    refine ⟨all, .cons (Grown.ofAdds ⟨rfl, ?_, ?_, ?_⟩ first
      (planted_plantChildren parent rest _).1) pairs⟩
    · rw [first_eq]
      exact ⟨there, grown.inside, grown.parent_eq⟩
    · rw [first_eq, grown.state_eq]
    · rw [first_eq]
      exact leaves

end

end Arena
end StructWasm.Ownership

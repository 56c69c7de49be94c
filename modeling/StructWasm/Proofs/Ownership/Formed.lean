import StructWasm.Proofs.Ownership.Nodes

/-!
# States of leaves

The state of a leaf is that of the uniform node on the way to it. What an arena says
of a part follows from the states of its leaves, as long as its nodes follow their
shapes and the flags of split nodes are up to date.
-/

namespace StructWasm.Ownership

open List

/-- What is known of a leaf. -/
inductive LeafState where
  /-- It was never defined. -/
  | undefined
  /-- It is defined, and was not moved out since. -/
  | defined
  /-- It was moved out, and not defined since. -/
  | consumed
  deriving DecidableEq, Repr

/-- The state of all leaves of a uniform part. -/
def State.leafState (state : State) : LeafState :=
  if state.composable then
    .defined
  else if state.consumedAt.isSome then
    .consumed
  else
    .undefined

theorem State.leafState_eq_defined_iff {state : State} :
    state.leafState = .defined ↔ state.composable = true := by
  unfold State.leafState
  split
  · simp_all
  · split <;> simp_all

/-- The parts of a part stand for its fields, and a marker stands on uniform parts, which are
not composable as long as calls are direct. -/
structure Regular {α : Type} (direct : Prop) (state : State) (children : List (String × α)) :
    Prop where
  names : (children.map Prod.fst).Nodup
  full : children ≠ [] → ∀ field ∈ state.shape.fields, field.1 ∈ children.map Prod.fst
  split : children ≠ [] → state.consumedAt = none
  whole : direct → state.composable = true → state.consumedAt = none

theorem Regular.of_uniform {α : Type} {direct : Prop}
    (whole : direct → state.composable = true → state.consumedAt = none) :
    Regular direct state ([] : List (String × α)) :=
  ⟨nodup_nil, fun parted => absurd rfl parted, fun parted => absurd rfl parted, whole⟩

theorem Regular.congr {α β : Type} {direct : Prop} {children : List (String × α)}
    {others : List (String × β)} (regular : Regular direct state children)
    (names_eq : others.map Prod.fst = children.map Prod.fst) : Regular direct state others := by
  have parted (hasOthers : others ≠ []) : children ≠ [] := by
    rintro rfl
    exact hasOthers (map_eq_nil_iff.mp names_eq)
  refine ⟨?_, fun hasOthers => ?_, fun hasOthers => regular.split (parted hasOthers), regular.whole⟩
  · rw [names_eq]
    exact regular.names
  · rw [names_eq]
    exact regular.full (parted hasOthers)

namespace Arena

variable {arena before after : Arena} {root id child : NodeId} {name : String}
variable {path rest leaf : List String}

/-! ## Nodes -/

/-- The node of a field of a split node. -/
def child? (arena : Arena) (id : NodeId) (name : String) : Option NodeId :=
  (arena.node id).children.lookup name

/-- The node at the end of a path of fields. -/
def find? (arena : Arena) : NodeId → List String → Option NodeId
  | id, [] => some id
  | id, name :: rest => (arena.child? id name).bind fun child => arena.find? child rest

/-- The state of the leaf at the end of a path of fields. -/
def leafState (arena : Arena) : NodeId → List String → LeafState
  | id, [] => (arena.node id).leafState
  | id, name :: rest =>
    match arena.child? id name with
    | some child => arena.leafState child rest
    | none => (arena.node id).leafState

/-- A node that stands for a whole value. -/
def IsRoot (arena : Arena) (id : NodeId) : Prop :=
  id < arena.nodes.size ∧ (arena.node id).parent = none

/-! ## Paths -/

theorem find?_append (found : arena.find? root path = some id) :
    arena.find? root (path ++ rest) = arena.find? id rest := by
  induction path generalizing root with
  | nil =>
    obtain rfl : root = id := by simpa [find?] using found
    rfl
  | cons name path ih =>
    obtain ⟨child, first, found⟩ := Option.bind_eq_some_iff.mp found
    rw [cons_append, find?, first]
    exact ih found

theorem isSome_find?_of_append (found : (arena.find? root (path ++ rest)).isSome = true) :
    (arena.find? root path).isSome = true := by
  induction path generalizing root with
  | nil => rfl
  | cons name path ih =>
    rw [cons_append, find?] at found
    rw [find?]
    cases first : arena.child? root name with
    | none => simp [first] at found
    | some child =>
      rw [first] at found
      exact ih found

theorem leafState_append (found : arena.find? root path = some id) :
    arena.leafState root (path ++ rest) = arena.leafState id rest := by
  induction path generalizing root with
  | nil =>
    obtain rfl : root = id := by simpa [find?] using found
    rfl
  | cons name path ih =>
    obtain ⟨child, first, found⟩ := Option.bind_eq_some_iff.mp found
    rw [cons_append, leafState, first]
    exact ih found

theorem leafState_of_uniform (uniform : (arena.node id).children = []) :
    arena.leafState id path = (arena.node id).leafState := by
  cases path with
  | nil => rfl
  | cons name rest => simp [leafState, child?, uniform]

/-- A path leads to the same node if the nodes on the way have the same children. -/
theorem find?_congr (same : ∀ ⦃front name node⦄, front ++ [name] <+: path →
      before.find? id front = some node → after.child? node name = before.child? node name) :
    after.find? id path = before.find? id path := by
  induction path generalizing id with
  | nil => rfl
  | cons name path ih =>
    have here : after.child? id name = before.child? id name :=
      same (by simp : [] ++ [name] <+: name :: path) rfl
    rw [find?, find?, here]
    cases first : before.child? id name with
    | none => rfl
    | some child =>
      refine ih ?_
      intro front other node onWay found
      have onWayToo : name :: (front ++ [other]) <+: name :: path :=
        cons_prefix_cons.mpr ⟨rfl, onWay⟩
      have foundToo : before.find? id (name :: front) = some node := by
        rw [find?, first]
        exact found
      exact same onWayToo foundToo

/-! ## Well-formed nodes -/

/-- A node is the child of another under the name of a field. -/
structure IsChild (arena : Arena) (id : NodeId) (name : String) (child : NodeId) : Prop where
  after : id < child
  inside : child < arena.nodes.size
  parent : (arena.node child).parent = some id
  name_eq : (arena.node child).name = name
  shape_eq : (name, (arena.node child).shape) ∈ (arena.node id).shape.fields

/-- A node follows its shape. -/
structure FormedAt (arena : Arena) (id : NodeId) : Prop
    extends Regular True (arena.node id).toState (arena.node id).children where
  parent_lt : ∀ ⦃parent⦄, (arena.node id).parent = some parent → parent < id
  children : ∀ entry ∈ (arena.node id).children, arena.IsChild id entry.1 entry.2
  distinct : (arena.node id).shape.Distinct

/-- All nodes follow their shapes. -/
def Formed (arena : Arena) : Prop :=
  ∀ id, arena.FormedAt id

/-- The flags of split nodes are up to date, some nodes apart. -/
def Complete (arena : Arena) (exempt : NodeId → Prop) : Prop :=
  ∀ id, ¬exempt id → (arena.node id).children ≠ [] →
    arena.isComposable id = (arena.node id).children.all fun child => arena.isComposable child.2

namespace Formed

variable (formed : arena.Formed)
include formed

theorem isChild (found : arena.child? id name = some child) : arena.IsChild id name child :=
  (formed id).children _ ((lookup_eq_some_iff_mem (formed id).names).mp found)

theorem child?_eq_some_iff :
    arena.child? id name = some child ↔ (name, child) ∈ (arena.node id).children :=
  lookup_eq_some_iff_mem (formed id).names

theorem exists_child (hasChildren : (arena.node id).children ≠ [])
    (mem : field ∈ (arena.node id).shape.fields) :
    ∃ child, arena.child? id field.1 = some child ∧ (arena.node child).shape = field.2 := by
  obtain ⟨entry, present, name_eq⟩ := mem_map.mp ((formed id).full hasChildren field mem)
  have isChild := (formed id).children entry present
  refine ⟨entry.2, ?_, ?_⟩
  · rw [formed.child?_eq_some_iff, ← name_eq]
    exact present
  · have distinct := (formed id).distinct
    have found := distinct.field?_eq_some_iff.mpr isChild.shape_eq
    rw [name_eq, distinct.field?_eq_some_iff.mpr mem] at found
    exact (Option.some.inj found).symm

theorem uniform_of_isLeaf (isLeaf : (arena.node id).shape.fields = []) :
    (arena.node id).children = [] := by
  cases children_eq : (arena.node id).children with
  | nil => rfl
  | cons entry rest =>
    have isChild := (formed id).children entry (by simp [children_eq])
    simpa [isLeaf] using isChild.shape_eq

theorem lt_of_find? (inside : root < arena.nodes.size) (found : arena.find? root path = some id) :
    id < arena.nodes.size := by
  induction path generalizing root with
  | nil =>
    obtain rfl : root = id := by simpa [find?] using found
    exact inside
  | cons name path ih =>
    obtain ⟨child, first, found⟩ := Option.bind_eq_some_iff.mp found
    exact ih (formed.isChild first).inside found

end Formed

/-! ## Where a node is -/

/-- The value that a node is a part of. -/
def rootOf (arena : Arena) (id : NodeId) : NodeId :=
  (arena.ancestors id).getLastD id

/-- The fields that lead from a value to a part. -/
def fieldPath (arena : Arena) (id : NodeId) : List String :=
  ((id :: arena.ancestors id).dropLast.map fun id => (arena.node id).name).reverse

/-- A node that can be found from its value. -/
def Attached (arena : Arena) (id : NodeId) : Prop :=
  id < arena.nodes.size ∧ arena.find? (arena.rootOf id) (arena.fieldPath id) = some id

instance (arena : Arena) (id : NodeId) : Decidable (arena.Attached id) :=
  inferInstanceAs (Decidable (_ ∧ _))

/-- A node is found in a value. -/
structure Lies (arena : Arena) (root : NodeId) (path : List String) (id : NodeId) : Prop where
  isRoot : arena.IsRoot root
  found : arena.find? root path = some id

theorem IsRoot.ancestors_eq (isRoot : arena.IsRoot root) : arena.ancestors root = [] := by
  rw [ancestors, isRoot.2]

section

variable (isChild : arena.IsChild id name child)
include isChild

theorem IsChild.ancestors_eq : arena.ancestors child = id :: arena.ancestors id := by
  rw [ancestors, isChild.parent]
  simp [isChild.after]

theorem IsChild.rootOf_eq : arena.rootOf child = arena.rootOf id := by
  rw [rootOf, isChild.ancestors_eq, getLastD_cons]
  rfl

theorem IsChild.fieldPath_eq : arena.fieldPath child = arena.fieldPath id ++ [name] := by
  rw [fieldPath, isChild.ancestors_eq, dropLast_cons_of_ne_nil (by simp), map_cons,
    reverse_cons, isChild.name_eq]
  rfl

end

theorem Formed.place_of_find? (formed : arena.Formed) (found : arena.find? root path = some id) :
    arena.rootOf id = arena.rootOf root ∧ arena.fieldPath id = arena.fieldPath root ++ path := by
  induction path generalizing root with
  | nil =>
    obtain rfl : root = id := by simpa [find?] using found
    simp
  | cons name path ih =>
    obtain ⟨child, first, found⟩ := Option.bind_eq_some_iff.mp found
    have isChild := formed.isChild first
    obtain ⟨root_eq, path_eq⟩ := ih found
    rw [root_eq, path_eq, isChild.rootOf_eq, isChild.fieldPath_eq]
    simp

namespace Lies

variable (lies : arena.Lies root path id) (formed : arena.Formed)
include lies formed

theorem rootOf_eq : arena.rootOf id = root := by
  rw [(formed.place_of_find? lies.found).1, rootOf, lies.isRoot.ancestors_eq]
  rfl

theorem fieldPath_eq : arena.fieldPath id = path := by
  rw [(formed.place_of_find? lies.found).2, fieldPath, lies.isRoot.ancestors_eq]
  rfl

theorem unique (liesToo : arena.Lies other otherPath id) : other = root ∧ otherPath = path :=
  ⟨(liesToo.rootOf_eq formed).symm.trans (lies.rootOf_eq formed),
    (liesToo.fieldPath_eq formed).symm.trans (lies.fieldPath_eq formed)⟩

theorem inside : id < arena.nodes.size :=
  formed.lt_of_find? lies.isRoot.1 lies.found

omit formed in
theorem cases : (path = [] ∧ id = root) ∨ ∃ front name parent, path = front ++ [name] ∧
      arena.Lies root front parent ∧ arena.child? parent name = some id := by
  obtain ⟨isRoot, found⟩ := lies
  rcases eq_nil_or_concat path with rfl | ⟨front, name, rfl⟩
  · exact .inl ⟨rfl, by simpa [find?] using found.symm⟩
  · right
    rw [concat_eq_append] at found ⊢
    obtain ⟨parent, reached⟩ := Option.isSome_iff_exists.mp
      (isSome_find?_of_append (Option.isSome_iff_exists.mpr ⟨id, found⟩))
    rw [find?_append reached] at found
    obtain ⟨child, first, found⟩ := Option.bind_eq_some_iff.mp found
    obtain rfl : child = id := by simpa [find?] using found
    exact ⟨front, name, parent, rfl, ⟨isRoot, reached⟩, first⟩

omit formed in
theorem ofChild (found : arena.child? id name = some child) :
    arena.Lies root (path ++ [name]) child := by
  refine ⟨lies.isRoot, ?_⟩
  rw [find?_append lies.found, find?, found]
  rfl

end Lies

/-! ## What a node says of its leaves -/

theorem Formed.exists_of_mem_leaves (formed : arena.Formed)
    (hasChildren : (arena.node id).children ≠ []) (mem : leaf ∈ (arena.node id).shape.leaves) :
    ∃ name rest child, leaf = name :: rest ∧ arena.child? id name = some child ∧
      rest ∈ (arena.node child).shape.leaves := by
  cases leaf with
  | nil => exact absurd (formed.uniform_of_isLeaf (Shape.nil_mem_leaves.mp mem)) hasChildren
  | cons name rest =>
    obtain ⟨part, field, inPart⟩ := Shape.cons_mem_leaves.mp mem
    obtain ⟨child, found, shape_eq⟩ := formed.exists_child hasChildren field
    exact ⟨name, rest, child, rfl, found, shape_eq ▸ inPart⟩

theorem IsChild.mem_leaves (isChild : arena.IsChild id name child)
    (mem : rest ∈ (arena.node child).shape.leaves) : name :: rest ∈ (arena.node id).shape.leaves :=
  Shape.cons_mem_leaves.mpr ⟨_, isChild.shape_eq, mem⟩

theorem leafState_cons (found : arena.child? id name = some child) :
    arena.leafState id (name :: rest) = arena.leafState child rest := by
  rw [leafState, found]

/-- A leaf is in the same state if the nodes on the way have the same children and the
uniform one among them is in the same state. -/
theorem Formed.leafState_congr (formed : before.Formed) (mem : leaf ∈ (before.node id).shape.leaves)
    (same : ∀ ⦃front node⦄, front <+: leaf → before.find? id front = some node →
      (after.node node).children = (before.node node).children ∧ ((before.node node).children = [] →
          (after.node node).leafState = (before.node node).leafState)) :
    after.leafState id leaf = before.leafState id leaf := by
  induction leaf generalizing id with
  | nil =>
    have uniform := formed.uniform_of_isLeaf (Shape.nil_mem_leaves.mp mem)
    have here : before.find? id [] = some id := rfl
    exact (same prefix_rfl here).2 uniform
  | cons name rest ih =>
    have here : before.find? id [] = some id := rfl
    obtain ⟨children_eq, state_eq⟩ := same nil_prefix here
    by_cases uniform : (before.node id).children = []
    · rw [leafState_of_uniform uniform, leafState_of_uniform (children_eq.trans uniform),
        state_eq uniform]
    · obtain ⟨_, _, child, same_eq, found, inChild⟩ :=
        formed.exists_of_mem_leaves uniform mem
      obtain ⟨rfl, rfl⟩ := List.cons.inj same_eq
      have foundToo : after.child? id name = some child := by
        rw [child?, children_eq]
        exact found
      rw [leafState_cons found, leafState_cons foundToo]
      refine ih inChild fun front node onWay reached => ?_
      refine same (cons_prefix_cons.mpr ⟨rfl, onWay⟩) ?_
      rw [find?, found]
      exact reached

/-- A part is fully defined if all its leaves are. -/
theorem Formed.isComposable_iff (formed : arena.Formed) (complete : arena.Complete fun _ => False)
    (id : NodeId) : arena.isComposable id = true ↔
      ∀ leaf ∈ (arena.node id).shape.leaves, arena.leafState id leaf = .defined := by
  by_cases uniform : (arena.node id).children = []
  · rw [isComposable, ← State.leafState_eq_defined_iff]
    constructor
    · intro defined leaf _
      rw [leafState_of_uniform uniform, defined]
    · intro defined
      obtain ⟨leaf, mem⟩ := exists_mem_of_ne_nil _ (Shape.leaves_ne_nil (arena.node id).shape)
      rw [← leafState_of_uniform uniform]
      exact defined leaf mem
  · rw [complete id not_false uniform, all_eq_true]
    constructor
    · intro all leaf mem
      obtain ⟨name, rest, child, rfl, found, inChild⟩ :=
        formed.exists_of_mem_leaves uniform mem
      have isChild := formed.isChild found
      have composable := all (name, child) (formed.child?_eq_some_iff.mp found)
      rw [leafState_cons found]
      exact (Formed.isComposable_iff formed complete child).mp composable rest inChild
    · intro all entry mem
      have isChild := (formed id).children entry mem
      have found := formed.child?_eq_some_iff.mpr mem
      refine (Formed.isComposable_iff formed complete entry.2).mpr fun rest inChild => ?_
      rw [← leafState_cons found]
      exact all _ (isChild.mem_leaves inChild)
termination_by arena.nodes.size - id
decreasing_by
  all_goals exact Nat.sub_lt_sub_left (Nat.lt_trans isChild.after isChild.inside) isChild.after

end Arena
end StructWasm.Ownership

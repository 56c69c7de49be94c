import StructWasm.Ownership.Merge
import StructWasm.Ownership.Tree
import StructWasm.Proofs.Outcome
import StructWasm.Proofs.Ownership.Leaves

/-!
# Nodes of an arena

What calls do to the nodes of an arena: one node changes, a uniform node gets one child
for each field, and nodes are added.
-/

namespace StructWasm.Ownership

open List

variable {entries : List (String × NodeId)} {name : String}

theorem mem_of_mem_insertChild (mem : entry ∈ insertChild name child entries) :
    entry = (name, child) ∨ entry ∈ entries := by
  induction entries with
  | nil => exact .inl (mem_singleton.mp mem)
  | cons first entries ih =>
    unfold insertChild at mem
    split at mem
    · exact mem_cons.mp mem
    · split at mem
      · exact (mem_cons.mp mem).imp_right (mem_cons_of_mem _)
      · rcases mem_cons.mp mem with rfl | mem
        · exact .inr mem_cons_self
        · exact (ih mem).imp_right (mem_cons_of_mem _)

theorem mem_names_insertChild (named : other = name ∨ other ∈ entries.map Prod.fst) :
    other ∈ (insertChild name child entries).map Prod.fst := by
  induction entries with
  | nil => simpa [insertChild] using named
  | cons first entries ih =>
    unfold insertChild
    split
    · simpa using named
    · split
      · rename_i same
        rcases named with rfl | named
        · exact mem_cons_self
        · rw [map_cons, ← same] at named
          exact named
      · rw [map_cons] at named ⊢
        rcases named with isName | named
        · exact mem_cons_of_mem _ (ih (.inl isName))
        · rcases mem_cons.mp named with rfl | named
          · exact mem_cons_self
          · exact mem_cons_of_mem _ (ih (.inr named))

/-- Entries that are inserted one after the other: each is there or was replaced by one
of its name. -/
theorem foldl_insertChild (added entries : List (String × NodeId)) :
    let inserted := added.foldl (fun children entry => insertChild entry.1 entry.2 children) entries
    (∀ entry ∈ inserted, entry ∈ added ∨ entry ∈ entries) ∧
      ∀ name, name ∈ added.map Prod.fst ∨ name ∈ entries.map Prod.fst →
        name ∈ inserted.map Prod.fst := by
  induction added generalizing entries with
  | nil => exact ⟨fun _ => .inr, fun _ named => named.resolve_left not_mem_nil⟩
  | cons first added ih =>
    obtain ⟨come, stay⟩ := ih (insertChild first.1 first.2 entries)
    refine ⟨fun entry mem => ?_, fun name named => stay name ?_⟩
    · rcases come entry mem with isAdded | mem
      · exact .inl (mem_cons_of_mem _ isAdded)
      · rcases mem_of_mem_insertChild mem with rfl | mem
        · exact .inl mem_cons_self
        · exact .inr mem
    · rcases named with named | named
      · rcases mem_cons.mp named with rfl | named
        · exact .inr (mem_names_insertChild (.inl rfl))
        · exact .inl named
      · exact .inr (mem_names_insertChild (.inr named))

theorem sorted_insertChild (sorted : (entries.map Prod.fst).Pairwise (· < ·)) (name : String)
    (child : NodeId) : ((insertChild name child entries).map Prod.fst).Pairwise (· < ·) := by
  induction entries with
  | nil => simp [insertChild]
  | cons first entries ih =>
    have order := sorted
    rw [map_cons, pairwise_cons] at order
    unfold insertChild
    split
    · rename_i before
      rw [map_cons, pairwise_cons]
      refine ⟨fun other mem => ?_, sorted⟩
      rcases mem_cons.mp mem with rfl | mem
      · exact before
      · exact before.trans (order.1 other mem)
    · rename_i notBefore
      split
      · rename_i same
        rw [map_cons, same]
        exact sorted
      · rename_i differs
        rw [map_cons, pairwise_cons]
        refine ⟨fun other mem => ?_, ih order.2⟩
        obtain ⟨entry, isEntry, rfl⟩ := mem_map.mp mem
        rcases mem_of_mem_insertChild isEntry with rfl | isEntry
        · exact lt_of_le_of_ne (not_lt.mp notBefore) (Ne.symm differs)
        · exact order.1 _ (mem_map_of_mem isEntry)

theorem nodup_foldl_insertChild (added : List (String × NodeId))
    (sorted : (entries.map Prod.fst).Pairwise (· < ·)) :
    ((added.foldl (fun children entry => insertChild entry.1 entry.2 children) entries).map
      Prod.fst).Nodup := by
  induction added generalizing entries with
  | nil => exact sorted.imp fun less => ne_of_lt less
  | cons first added ih =>
    exact ih (sorted_insertChild sorted first.1 first.2)

theorem all_eq_all {α : Type} {entries : List α} {holds holdsToo : α → Bool}
    (same : ∀ entry ∈ entries, holds entry = holdsToo entry) :
    entries.all holds = entries.all holdsToo := by
  rw [Bool.eq_iff_iff, all_eq_true, all_eq_true]
  exact forall₂_congr fun entry mem => by rw [same entry mem]

namespace Arena

variable {arena before after : Arena} {id other : NodeId}

/-! ## One node -/

theorem node_of_size_le (beyond : arena.nodes.size ≤ id) : arena.node id = default := by
  simp [node, beyond]

@[simp] theorem size_modify (arena : Arena) (id : NodeId) (change : Node → Node) :
    (arena.modify id change).nodes.size = arena.nodes.size := by
  simp [modify]

theorem node_modify_self (inside : id < arena.nodes.size) (change : Node → Node) :
    (arena.modify id change).node id = change (arena.node id) := by
  simp only [modify, node, Array.getD_eq_getD_getElem?, Array.getElem?_modify, if_true,
    Array.getElem?_eq_getElem inside, Option.map_some, Option.getD_some]

theorem node_modify_ne (differs : other ≠ id) (change : Node → Node) :
    (arena.modify id change).node other = arena.node other := by
  simp only [modify, node, Array.getD_eq_getD_getElem?, Array.getElem?_modify,
    if_neg (Ne.symm differs)]

theorem modify_of_size_le (beyond : arena.nodes.size ≤ id) (change : Node → Node) :
    arena.modify id change = arena := by
  refine congrArg Arena.mk (Array.ext_getElem? fun other => ?_)
  rw [Array.getElem?_modify]
  split
  · rename_i same
    rw [← same, Array.getElem?_eq_none beyond]
    rfl
  · rfl

/-- What relates the new node to the old one relates all nodes. -/
theorem related_modify (related : Node → Node → Prop) (same : ∀ node, related node node)
    {change : Node → Node} (changed : related (change (arena.node id)) (arena.node id))
    (other : NodeId) : related ((arena.modify id change).node other) (arena.node other) := by
  by_cases here : other = id
  · subst here
    by_cases there : other < arena.nodes.size
    · rw [node_modify_self there]
      exact changed
    · rw [modify_of_size_le (Nat.le_of_not_lt there)]
      exact same _
  · rw [node_modify_ne here]
    exact same _

/-- Two nodes have the same name, shape and parent. -/
structure Alike (node original : Node) : Prop where
  name_eq : node.name = original.name
  shape_eq : node.shape = original.shape
  parent_eq : node.parent = original.parent

theorem Alike.refl (node : Node) : Alike node node :=
  ⟨rfl, rfl, rfl⟩

theorem Alike.trans {node} (second : Alike node mid)
    (first : Alike mid original) : Alike node original :=
  ⟨second.name_eq.trans first.name_eq, second.shape_eq.trans first.shape_eq,
    second.parent_eq.trans first.parent_eq⟩

theorem there_of_fields (hasFields : (arena.node id).shape.fields ≠ []) :
    id < arena.nodes.size := by
  by_contra beyond
  rw [node_of_size_le (Nat.le_of_not_lt beyond)] at hasFields
  exact hasFields rfl

theorem children_recompute (arena : Arena) (id other : NodeId) :
    ((arena.recompute id).node other).children = (arena.node other).children :=
  related_modify (fun node original => node.children = original.children) (fun _ => rfl) rfl other

theorem ancestors_congr {id}
    (same : ∀ other ≤ id, (after.node other).parent = (before.node other).parent) :
    after.ancestors id = before.ancestors id := by
  rw [ancestors, ancestors, same id (Nat.le_refl id)]
  cases (before.node id).parent with
  | none => rfl
  | some parent =>
    dsimp only
    split
    · rename_i below
      have same : ∀ other ≤ parent, (after.node other).parent = (before.node other).parent :=
        fun other le => same other (Nat.le_trans le (Nat.le_of_lt below))
      rw [ancestors_congr same]
    · rfl
termination_by id

/-! ## Splitting -/

/-- The children that a node gets: the fields with the next numbers. -/
def fieldNodes (arena : Arena) (id : NodeId) : List (String × NodeId) :=
  ((arena.node id).shape.fields.map Prod.fst).zipIdx arena.nodes.size

theorem map_fst_fieldNodes (arena : Arena) (id : NodeId) :
    (arena.fieldNodes id).map Prod.fst = (arena.node id).shape.fields.map Prod.fst := by
  rw [fieldNodes, zipIdx_map_fst]

theorem split_of_children (hasChildren : (arena.node id).children ≠ []) :
    arena.split id = arena := by
  have nonempty : (arena.node id).children.isEmpty = false := by simpa using hasChildren
  simp [split, nonempty]

theorem split_of_isLeaf (isLeaf : (arena.node id).shape.fields = []) : arena.split id = arena := by
  simp [split, Shape.isLeaf, isLeaf]

section Uniform

variable (uniform : (arena.node id).children = []) (hasFields : (arena.node id).shape.fields ≠ [])
include uniform hasFields

theorem nodes_split : (arena.split id).nodes.toList = (arena.nodes.modify id fun node =>
      { node with
        children := (arena.fieldNodes id).foldl
          (fun children entry => insertChild entry.1 entry.2 children) []
        consumedAt := none }).toList ++ (arena.node id).parts id := by
  have notLeaf : (arena.node id).shape.isLeaf = false := by
    simpa [Shape.isLeaf] using hasFields
  simp only [split, uniform, notLeaf, isEmpty_nil, Bool.not_true, Bool.or_self, Bool.false_eq_true,
    if_false, Array.toList_appendList, fieldNodes, Node.parts, zipIdx_map, foldl_map]
  rfl

theorem size_split :
    (arena.split id).nodes.size = arena.nodes.size + (arena.node id).shape.fields.length := by
  rw [← Array.length_toList, nodes_split uniform hasFields]
  simp [Node.parts]

theorem node_split_ne (mem : other < arena.nodes.size) (differs : other ≠ id) :
    (arena.split id).node other = arena.node other := by
  have found : (arena.split id).nodes[other]? = arena.nodes[other]? := by
    rw [← Array.getElem?_toList, nodes_split uniform hasFields,
      getElem?_append_left (by simpa using mem), Array.getElem?_toList,
      Array.getElem?_modify, if_neg (Ne.symm differs)]
  rw [node, node, Array.getD_eq_getD_getElem?, Array.getD_eq_getD_getElem?, found]

theorem node_split_self (mem : id < arena.nodes.size) : (arena.split id).node id =
      { arena.node id with
        children := (arena.fieldNodes id).foldl
          (fun children entry => insertChild entry.1 entry.2 children) []
        consumedAt := none } := by
  rw [node, Array.getD_eq_getD_getElem?, ← Array.getElem?_toList, nodes_split uniform hasFields,
    getElem?_append_left (by simpa using mem), Array.getElem?_toList,
    Array.getElem?_modify, if_pos rfl, Array.getElem?_eq_getElem mem, Option.map_some,
    Option.getD_some]
  simp [node, mem]

theorem node_split_new (found : (arena.node id).shape.fields[pos]? = some field) :
    (arena.split id).node (arena.nodes.size + pos) =
      { name := field.1, shape := field.2, composable := (arena.node id).composable
        consumedAt := (arena.node id).consumedAt, loan := none, children := []
        parent := some id } := by
  have foundNode : (arena.split id).nodes[arena.nodes.size + pos]? =
      ((arena.node id).parts id)[pos]? := by
    rw [← Array.getElem?_toList, nodes_split uniform hasFields, getElem?_append_right (by simp)]
    simp
  rw [node, Array.getD_eq_getD_getElem?, foundNode, Node.parts, getElem?_map, found]
  rfl

end Uniform

theorem mem_fieldNodes : entry ∈ arena.fieldNodes id ↔ ∃ pos field,
      (arena.node id).shape.fields[pos]? = some field ∧ entry.1 = field.1 ∧
        entry.2 = arena.nodes.size + pos := by
  obtain ⟨name, child⟩ := entry
  rw [fieldNodes, mk_mem_zipIdx_iff_le_and_getElem?_sub, getElem?_map, Option.map_eq_some_iff]
  constructor
  · rintro ⟨le, field, found, rfl⟩
    exact ⟨child - arena.nodes.size, field, found, rfl, (Nat.add_sub_cancel' le).symm⟩
  · rintro ⟨pos, field, found, rfl, rfl⟩
    refine ⟨Nat.le_add_right _ _, field, ?_, rfl⟩
    rw [Nat.add_sub_cancel_left]
    exact found

/-- What a split does to the nodes of an arena. -/
structure SplitAt (arena : Arena) (id : NodeId) (next : Arena) : Prop where
  uniform : (arena.node id).children = []
  hasFields : (arena.node id).shape.fields ≠ []
  size_eq : next.nodes.size = arena.nodes.size + (arena.node id).shape.fields.length
  others : ∀ ⦃other⦄, other < arena.nodes.size → other ≠ id → next.node other = arena.node other
  itself : ∃ children, next.node id = { arena.node id with children, consumedAt := none }
  names : ((next.node id).children.map Prod.fst).Nodup
  full : ∀ field ∈ (arena.node id).shape.fields,
    field.1 ∈ (next.node id).children.map Prod.fst
  entries : ∀ entry ∈ (next.node id).children, entry ∈ arena.fieldNodes id
  parts : ∀ ⦃pos field⦄, (arena.node id).shape.fields[pos]? = some field →
    next.node (arena.nodes.size + pos) =
      { name := field.1, shape := field.2, composable := (arena.node id).composable
        consumedAt := (arena.node id).consumedAt, loan := none, children := []
        parent := some id }

theorem split_cases (arena : Arena) (id : NodeId) :
    arena.split id = arena ∧ ((arena.node id).children = [] → (arena.node id).shape.fields = []) ∨
      arena.SplitAt id (arena.split id) := by
  by_cases hasChildren : (arena.node id).children ≠ []
  · exact .inl ⟨split_of_children hasChildren, fun uniform => absurd uniform hasChildren⟩
  by_cases isLeaf : (arena.node id).shape.fields = []
  · exact .inl ⟨split_of_isLeaf isLeaf, fun _ => isLeaf⟩
  have uniform := not_not.mp hasChildren
  have node_eq := node_split_self uniform isLeaf (there_of_fields isLeaf)
  obtain ⟨come, stay⟩ := foldl_insertChild (arena.fieldNodes id) []
  refine .inr ⟨uniform, isLeaf, size_split uniform isLeaf, fun _ => node_split_ne uniform isLeaf,
    ⟨_, node_eq⟩, ?_, fun field mem => ?_, fun entry mem => ?_,
    fun _ _ => node_split_new uniform isLeaf⟩
  · rw [node_eq]
    exact nodup_foldl_insertChild _ .nil
  · rw [node_eq]
    refine stay field.1 (.inl ?_)
    rw [map_fst_fieldNodes]
    exact mem_map_of_mem mem
  · rw [node_eq] at mem
    exact (come entry mem).resolve_right not_mem_nil

namespace SplitAt

variable {next : Arena} (splits : arena.SplitAt id next)
include splits

theorem there : id < arena.nodes.size :=
  there_of_fields splits.hasFields

theorem alike (old : other < arena.nodes.size) : Alike (next.node other) (arena.node other) := by
  by_cases here : other = id
  · obtain ⟨_, node_eq⟩ := splits.itself
    rw [here, node_eq]
    exact ⟨rfl, rfl, rfl⟩
  · rw [splits.others old here]
    exact .refl _

theorem exists_field (new : arena.nodes.size ≤ other) (inside : other < next.nodes.size) :
    ∃ pos field, other = arena.nodes.size + pos ∧
      (arena.node id).shape.fields[pos]? = some field := by
  rw [splits.size_eq] at inside
  exact ⟨other - arena.nodes.size, _, (Nat.add_sub_cancel' new).symm,
    getElem?_eq_getElem (Nat.sub_lt_left_of_lt_add new inside)⟩

theorem children_eq_nil (new : arena.nodes.size ≤ other) : (next.node other).children = [] := by
  by_cases inside : other < next.nodes.size
  · obtain ⟨pos, field, rfl, found⟩ := splits.exists_field new inside
    rw [splits.parts found]
  · rw [node_of_size_le (Nat.le_of_not_lt inside)]
    rfl

theorem children_ne_nil : (next.node id).children ≠ [] := by
  obtain ⟨field, mem⟩ := exists_mem_of_ne_nil _ splits.hasFields
  obtain ⟨entry, listed, -⟩ := mem_map.mp (splits.full field mem)
  exact ne_nil_of_mem listed

end SplitAt

/-! ## Adding nodes -/

/-- Nodes are added, and those that were there stay as they are. -/
structure Adds (before after : Arena) : Prop where
  size_le : before.nodes.size ≤ after.nodes.size
  kept : ∀ ⦃id⦄, id < before.nodes.size → after.node id = before.node id

theorem Adds.trans (first : before.Adds mid) (second : mid.Adds after) : before.Adds after where
  size_le := Nat.le_trans first.size_le second.size_le
  kept := fun _ old =>
    (second.kept (Nat.lt_of_lt_of_le old first.size_le)).trans (first.kept old)

section Push

variable (new : Node)

theorem node_push_self : (arena.push new).1.node arena.nodes.size = new := by
  simp [push, node]

theorem node_push_ne (differs : id ≠ arena.nodes.size) :
    (arena.push new).1.node id = arena.node id := by
  simp [push, node, Array.getD_eq_getD_getElem?, Array.getElem?_push, differs]

theorem size_push : (arena.push new).1.nodes.size = arena.nodes.size + 1 := by
  simp [push]

theorem lt_size_push : arena.nodes.size < (arena.push new).1.nodes.size := by
  rw [size_push]
  exact Nat.lt_succ_self _

theorem adds_push : arena.Adds (arena.push new).1 where
  size_le := by rw [size_push]; exact Nat.le_succ _
  kept := fun _ old => node_push_ne new (Nat.ne_of_lt old)

end Push

/-- The node gets its children. -/
def attach (arena : Arena) (id : NodeId) (entries : List (String × NodeId)) : Arena :=
  arena.modify id fun node => { node with children := entries }

theorem node_attach_ne (differs : other ≠ id) :
    (arena.attach id entries).node other = arena.node other :=
  node_modify_ne differs _

theorem node_attach_self (mem : id < arena.nodes.size) :
    (arena.attach id entries).node id = { arena.node id with children := entries } :=
  node_modify_self mem _

theorem size_attach : (arena.attach id entries).nodes.size = arena.nodes.size :=
  size_modify ..

theorem state_attach (other : NodeId) :
    ((arena.attach id entries).node other).toState = (arena.node other).toState :=
  related_modify (fun node original => node.toState = original.toState) (fun _ => rfl) rfl other

theorem parent_attach (other : NodeId) :
    ((arena.attach id entries).node other).parent = (arena.node other).parent :=
  related_modify (fun node original => node.parent = original.parent) (fun _ => rfl) rfl other

/-! ## Merging -/

theorem fieldMergers_eq (fields : List (String × Shape)) :
    fieldMergers fields = fields.map fun field => (field.1, mergeAt field.2) := by
  induction fields with
  | nil => rfl
  | cons field fields ih =>
    rw [fieldMergers, ih, map_cons]

theorem exists_of_lookup {fields name merge}
    (found : (fieldMergers fields).reverse.lookup name = some merge) :
    ∃ field ∈ fields, merge = mergeAt field.2 := by
  obtain ⟨_, _, mergers_eq, -⟩ := lookup_eq_some_iff.mp found
  have mem : (name, merge) ∈ (fieldMergers fields).reverse := by simp [mergers_eq]
  rw [mem_reverse, fieldMergers_eq] at mem
  obtain ⟨field, isField, same⟩ := mem_map.mp mem
  exact ⟨field, isField, (Prod.mk.inj same).2.symm⟩

end Arena
end StructWasm.Ownership

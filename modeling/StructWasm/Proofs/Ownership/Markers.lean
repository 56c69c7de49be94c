import StructWasm.Proofs.Ownership.Refinement

/-!
# Parts that were moved out

As long as calls change states through nodes that have not been cut off, no part that
carries a marker is composable, and a part that was moved out is composable again only
after it was defined: as a whole, with a part around it, or field by field.

A node that was cut off still refreshes the flags above it. Then the node that has lost
it is recomputed over no fields, and becomes composable although it carries a marker.
-/

namespace StructWasm.Ownership

open List

namespace Call

/-- Handles name nodes that are there, and states change through nodes that have not been
cut off. -/
def Direct (arena : Arena) : Call → Prop
  | newValue _ _ => True
  | get id _ => id < arena.nodes.size
  | markDefined id => arena.Current id
  | markConsumed id _ => arena.Current id
  | cloneValue id => id < arena.nodes.size
  | borrow id _ => id < arena.nodes.size
  | infuse target branch => arena.Current target ∧ branch < arena.nodes.size

/-- All calls of a script are direct when they are made. -/
def AllDirect : Arena → List Call → Prop
  | _, [] => True
  | arena, call :: rest => call.Direct arena ∧ AllDirect (arena.call call) rest

/-- The node that a call defines, if it is not refused. -/
def defines (arena : Arena) : Call → List NodeId
  | markDefined id => if (arena.markDefined id).isOk then [id] else []
  | newValue _ _ | get _ _ | markConsumed _ _ | cloneValue _ | borrow _ _ | infuse _ _ => []

/-- The nodes that the calls of a script define. -/
def definedBy : Arena → List Call → List NodeId
  | _, [] => []
  | arena, call :: rest => call.defines arena ++ definedBy (arena.call call) rest

theorem allDirect_append : AllDirect arena (first ++ second) ↔
      AllDirect arena first ∧ AllDirect (first.foldl Arena.call arena) second := by
  induction first generalizing arena with
  | nil => simp [AllDirect]
  | cons call first ih =>
    simp only [cons_append, AllDirect, foldl_cons, ih, and_assoc]

end Call

namespace Arena

variable {arena : Arena} {id : NodeId} {direct : Prop} {origin : Option NodeId}
variable {defined : List NodeId}

/-- A part has been defined again: it or a part around it was defined, or it has fields
and the nodes of all of them have been. -/
inductive Regained (arena : Arena) (defined : List NodeId) : NodeId → Prop where
  | whole {id other : NodeId} (above : other ∈ arena.lineage id) (isDefined : other ∈ defined) :
      arena.Regained defined id
  | fields {id : NodeId} (hasFields : (arena.node id).shape.fields ≠ [])
      (there : ∀ field ∈ (arena.node id).shape.fields, (arena.child? id field.1).isSome = true)
      (all : ∀ field ∈ (arena.node id).shape.fields, ∀ child,
        arena.child? id field.1 = some child → arena.Regained defined child) :
      arena.Regained defined id

theorem Within.eq_of_uniform {node} (within : arena.Within place node)
    (uniform : (arena.node place).children = []) : node = place := by
  induction within with
  | self => rfl
  | child _ mem ih =>
    rw [ih, uniform] at mem
    cases mem

namespace Consistent

section

variable (consistent : arena.Consistent direct (fun _ => False) origin defined)
include consistent

/-- A node is made uniform, and the flags above it are brought up to date. -/
theorem settled {change : Node → Node} (current : direct → arena.Current id)
    (settles : Settles (arena.node id) (change (arena.node id)) state)
    (more : ∀ other ∈ defined, other ∈ definedToo)
    (since : ∀ place ∈ origin, id ∈ definedToo ∨ (change (arena.node id)).composable = false ∧
      (change (arena.node id)).consumedAt ≠ none) :
    ((arena.modify id change).refreshAncestors id).Consistent direct (fun _ => False) origin
      definedToo := by
  have retains : arena.Retains (arena.modify id change) id := .modify settles.parent_eq
  refine Consistent.refreshAncestors ?_ fun isDirect =>
    retains.isChain consistent (current isDirect)
  have parent_eq : ((arena.modify id change).node id).parent = (arena.node id).parent := by
    by_cases there : id < arena.nodes.size
    · exact retains.parent_eq there
    · rw [modify_of_size_le (Nat.le_of_not_lt there)]
  rw [parent_eq]
  exact (consistent.mono fun _ => False.elim).settle settles (fun _ isParent => isParent) more since

theorem infuse (current : direct → arena.Current target) (branch : NodeId) :
    (arena.infuse target branch).Consistent direct (fun _ => False) origin defined := by
  by_cases there : target < arena.nodes.size
  · obtain ⟨merged, retains⟩ := mergesKept_mergeAt direct origin defined (arena.node target).shape
      branch (consistent.mono fun _ => False.elim) there fun _ isParent => isParent
    refine Consistent.refreshAncestors ?_ fun isDirect =>
      retains.isChain consistent (current isDirect)
    rw [retains.parent_eq there]
    exact merged
  · rw [Arena.infuse, mergeAt_of_size_le (Nat.le_of_not_lt there)]
    exact Consistent.refreshAncestors (consistent.mono fun _ => False.elim) fun isDirect =>
      absurd (current isDirect).1 there

/-- A call keeps the nodes in order. -/
theorem call {call} (isDirect : direct → call.Direct arena) :
    (arena.call call).Consistent direct (fun _ => False) origin
      (defined ++ call.defines arena) := by
  cases call with
  | newValue name shape =>
    rw [Call.defines, append_nil]
    exact (consistent.push rfl (by rintro _ ⟨⟩) (by rintro _ ⟨⟩)).1
  | get id name =>
    rw [Call.defines, append_nil, Arena.call, Arena.get?]
    cases (arena.node id).shape.field? name with
    | none => exact consistent
    | some part => exact consistent.split id
  | markDefined id =>
    rw [Arena.call, Call.defines, markDefined]
    split
    · rw [show (Except.isOk (.error _ : Except Error Arena)) = false from rfl, if_neg (by simp),
        append_nil]
      exact consistent
    · exact consistent.settled isDirect (settles_define _) (fun _ => mem_append_left _)
        fun _ _ => .inl (mem_append_right _ (mem_singleton_self id))
  | markConsumed id moved =>
    rw [Arena.call, Call.defines, append_nil, markConsumed]
    split
    · exact consistent
    · exact consistent.settled isDirect (settles_consume _ moved) (fun _ isDefined => isDefined)
        fun _ _ => .inr ⟨rfl, by simp [Node.consume]⟩
  | cloneValue id =>
    rw [Call.defines, append_nil]
    exact (consistent.plant none (arena.tree id) consistent.sound_tree arena (by rintro _ ⟨⟩)).1
  | borrow id loan =>
    rw [Call.defines, append_nil]
    exact consistent.borrow id loan
  | infuse target branch =>
    rw [Call.defines, append_nil]
    exact consistent.infuse (fun direct => (isDirect direct).1) branch

theorem calls (allDirect : direct → Call.AllDirect arena script) :
    (script.foldl Arena.call arena).Consistent direct (fun _ => False) origin
      (defined ++ Call.definedBy arena script) := by
  induction script generalizing arena defined with
  | nil =>
    rw [Call.definedBy, append_nil]
    exact consistent
  | cons call script ih =>
    rw [Call.definedBy, ← append_assoc]
    exact ih (consistent.call fun direct => (allDirect direct).1) fun direct => (allDirect direct).2

end

/-- From the moment at which a part is moved out, it is kept whether its nodes were
defined since. -/
theorem start (consistent : arena.Consistent True (fun _ => False) none defined)
    (current : arena.Current id) (consumes : arena.markConsumed id moved = .ok consumed) :
    consumed.Consistent True (fun _ => False) (some id) [] := by
  rw [markConsumed] at consumes
  split at consumes
  · cases consumes
  · obtain rfl := Except.ok.inj consumes
    have retains : arena.Retains (arena.modify id (Node.consume moved)) id := .modify rfl
    refine Consistent.refreshAncestors ?_ fun _ => retains.isChain consistent current
    rw [retains.parent_eq current.1]
    have settled : (arena.modify id (Node.consume moved)).Consistent True
        (fun other => (arena.node id).parent = some other) none defined :=
      (consistent.mono fun _ => False.elim).settle (settles_consume _ moved)
        (fun _ isParent => isParent) (fun _ isDefined => isDefined)
        (fun _ _ => .inr ⟨rfl, by simp [Node.consume]⟩)
    have node_eq := node_modify_self current.1 (Node.consume moved)
    refine ⟨fun _ _ => trivial, ?_, settled.born, fun other there =>
      { settled.kept other there with since := ?_ }⟩
    · rintro _ ⟨⟩
      simpa using current.1
    · -- The part has no children yet, so that it is its only node.
      rintro _ ⟨⟩ within -
      rw [within.eq_of_uniform (by rw [node_eq]; rfl), node_eq]
      exact .inr ⟨rfl, by simp [Node.consume]⟩

/-- What is composable in a part that was moved out has been defined again. -/
theorem regained {arena : Arena} {origin id}
    (consistent : arena.Consistent direct (fun _ => False) (some origin) defined)
    (there : id < arena.nodes.size) (within : arena.Within origin id)
    (composable : arena.isComposable id = true) : arena.Regained defined id := by
  have kept := consistent.kept id there
  by_cases uniform : (arena.node id).children = []
  · rcases kept.since origin rfl within uniform with ⟨other, above, isDefined⟩ | ⟨undefined, -⟩
    · exact .whole above isDefined
    · cases undefined.symm.trans composable
  · rw [kept.complete not_false uniform, all_eq_true] at composable
    obtain ⟨entry, listed⟩ := exists_mem_of_ne_nil _ uniform
    refine .fields (ne_nil_of_mem (consistent.isChild listed).shape_eq)
      (fun field isField => isSome_lookup_iff.mpr (kept.full uniform field isField))
      fun field isField child found => ?_
    obtain ⟨mem, isChild⟩ := consistent.isChild_of_child? found
    exact Consistent.regained consistent isChild.inside (.child within mem) (composable _ mem)
termination_by arena.nodes.size - id
decreasing_by exact Nat.sub_lt_sub_left (Nat.lt_trans isChild.after isChild.inside) isChild.after

end Consistent

/-- After every script of direct calls no composable part carries a marker, and if a part
is composable that was moved out earlier, it was defined since: as a whole, with a part
around it, or by the nodes of its fields. -/
theorem regained_of_composable
    (script : List Call)
    (direct : Call.AllDirect empty script) :
    let arena := script.foldl Arena.call empty
    (∀ id, arena.isComposable id = true → (arena.node id).consumedAt = none) ∧
      ∀ (before after : List Call) (id : NodeId) (moved : Span) (consumed : Arena),
        script = before ++ .markConsumed id moved :: after →
        (before.foldl Arena.call empty).markConsumed id moved = .ok consumed →
        arena.isComposable id = true → arena.Regained (Call.definedBy consumed after) id := by
  intro arena
  have consistent : arena.Consistent True (fun _ => False) none _ :=
    Consistent.empty.calls fun _ => direct
  refine ⟨fun id composable => ?_, ?_⟩
  · by_cases there : id < arena.nodes.size
    · exact (consistent.kept id there).whole trivial composable
    · rw [node_of_size_le (Nat.le_of_not_lt there)]
      rfl
  · rintro before after id moved consumed rfl consumes composable
    rw [Call.allDirect_append] at direct
    obtain ⟨directBefore, current, directAfter⟩ := direct
    have called : (before.foldl Arena.call empty).call (.markConsumed id moved) = consumed := by
      rw [Arena.call, consumes]
      rfl
    have arena_eq : arena = after.foldl Arena.call consumed := by
      rw [← called]
      exact List.foldl_append
    rw [called] at directAfter
    have started := (Consistent.empty.calls fun _ => directBefore).start current consumes
    have tracked := started.calls fun _ => directAfter
    rw [← arena_eq, List.nil_append] at tracked
    exact tracked.regained (tracked.old id rfl) .self composable

/-- A value is moved out and then defined field by field. -/
theorem regained_by_fields :
    let before : List Call :=
      [.newValue "p" (.composite [("a", .leaf), ("b", .leaf)]), .markDefined 0]
    let after : List Call := [.get 0 "a", .markDefined 1, .markDefined 2]
    let script := before ++ .markConsumed 0 default :: after
    let consumed := (before.foldl Arena.call empty).call (.markConsumed 0 default)
    let arena := script.foldl Arena.call empty
    Call.AllDirect empty script ∧ arena.isComposable 0 = true ∧
      arena.Regained (Call.definedBy consumed after) 0 := by
  intro before after script consumed arena
  have direct : Call.AllDirect empty script := by
    refine ⟨trivial, ?_, ?_, ?_, ?_, ?_, trivial⟩
    case refine_3 =>
      show 0 < _
      decide +kernel
    all_goals
      show Current _ _
      decide +kernel
  have owned : ((before.foldl Arena.call empty).loan? 0).isSome = false := by decide +kernel
  have consumes : (before.foldl Arena.call empty).markConsumed 0 default = .ok consumed := by
    simp only [consumed, Arena.call, markConsumed, owned]
    rfl
  have composable : arena.isComposable 0 = true := by decide +kernel
  refine ⟨direct, composable, ?_⟩
  exact (regained_of_composable script direct).2 before after 0 default consumed rfl consumes
    composable

/-- The node of a field is looked up, its value is moved out, and the field is defined
through the node that was cut off: the value is composable and carries a marker. -/
theorem composable_of_cut_field :
    let script : List Call :=
      [.newValue "p" (.composite [("a", .leaf), ("b", .leaf)]), .markDefined 0, .get 0 "a",
        .markConsumed 0 default, .markDefined 1]
    let arena := script.foldl Arena.call empty
    arena.isComposable 0 = true ∧ (arena.node 0).consumedAt = some default := by
  decide +kernel

end Arena
end StructWasm.Ownership

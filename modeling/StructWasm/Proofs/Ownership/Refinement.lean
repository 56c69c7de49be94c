import StructWasm.Proofs.Ownership.Gaps
import StructWasm.Proofs.Ownership.Merging

/-!
# The arena as a ledger of leaves

Whatever calls are made, the arena says of every part what a ledger with one entry for
each leaf says: whether the part is fully defined, and what keeps it from being used.
The ledger knows nothing of nodes that are split or of flags.
-/

namespace StructWasm.Ownership

/-- A call of the arena. -/
inductive Call where
  /-- A new value is made. -/
  | newValue (name : String) (shape : Shape)
  /-- The node of a field is looked up. -/
  | get (id : NodeId) (name : String)
  /-- A part is defined. -/
  | markDefined (id : NodeId)
  /-- A part is moved out. -/
  | markConsumed (id : NodeId) (moved : Span)
  /-- A part is copied to a value of its own. -/
  | cloneValue (id : NodeId)
  /-- A part is lent or taken back. -/
  | borrow (id : NodeId) (loan : Option Loan)
  /-- The state that a branch left is merged into a part. -/
  | infuse (target branch : NodeId)

/-- The arena after a call. A call that is refused leaves it as it is. -/
def Arena.call (arena : Arena) : Call → Arena
  | .newValue name shape => (arena.newValue name shape).1
  | .get id name => (arena.get? id name).1
  | .markDefined id => (arena.markDefined id).toOption.getD arena
  | .markConsumed id moved => (arena.markConsumed id moved).toOption.getD arena
  | .cloneValue id => (arena.cloneValue id).1
  | .borrow id loan => arena.borrow id loan
  | .infuse target branch => arena.infuse target branch

namespace Call

/-- What callers see to: names of fields are distinct, handles are attached, and only
parts of one shape are merged. -/
def Allowed (arena : Arena) : Call → Prop
  | newValue _ shape => shape.Distinct
  | get id _ => arena.Attached id
  | markDefined id => arena.Attached id
  | markConsumed id _ => arena.Attached id
  | cloneValue id => arena.Attached id
  | borrow id _ => arena.Attached id
  | infuse target branch =>
    arena.Attached target ∧ arena.Attached branch ∧
      (arena.node branch).shape = (arena.node target).shape

/-- All calls of a script are allowed when they are made. -/
def AllAllowed : Arena → List Call → Prop
  | _, [] => True
  | arena, call :: rest => call.Allowed arena ∧ AllAllowed (arena.call call) rest

/-- The ledger after a call. The arena tells where the parts are that the handles name,
and whether the call is refused. -/
def record (arena : Arena) (ledger : Ledger) : Call → Ledger
  | newValue name shape =>
    ledger.update (arena.newValue name shape).2 [] fun _ => .undefined
  | get _ _ => ledger
  | markDefined id =>
    if (arena.markDefined id).isOk then
      ledger.update (arena.rootOf id) (arena.fieldPath id) fun _ => .defined
    else
      ledger
  | markConsumed id moved =>
    if (arena.markConsumed id moved).isOk then
      ledger.update (arena.rootOf id) (arena.fieldPath id) fun _ => .consumed
    else
      ledger
  | cloneValue id =>
    ledger.update (arena.cloneValue id).2 [] fun leaf =>
      ledger (arena.rootOf id) (arena.fieldPath id ++ leaf)
  | borrow _ _ => ledger
  | infuse target branch =>
    ledger.mergeBelow (arena.rootOf target) (arena.fieldPath target) (arena.rootOf branch)
      (arena.fieldPath branch)

/-- The ledger after all calls of a script. -/
def recordAll : Arena → Ledger → List Call → Ledger
  | _, ledger, [] => ledger
  | arena, ledger, call :: rest => recordAll (arena.call call) (call.record arena ledger) rest

end Call

def Ledger.blank : Ledger :=
  fun _ _ => .undefined

namespace Arena

variable {arena before after : Arena} {root id child : NodeId} {name : String}
variable {path leaf : List String} {ledger : Ledger}

/-! ## Attached nodes -/

theorem Formed.isRoot_rootOf {arena : Arena} (formed : arena.Formed) {id}
    (inside : id < arena.nodes.size) : arena.IsRoot (arena.rootOf id) := by
  rw [rootOf, ancestors]
  cases parent_eq : (arena.node id).parent with
  | none => exact ⟨inside, parent_eq⟩
  | some parent =>
    have below := (formed id).parent_lt parent_eq
    dsimp only
    rw [if_pos below, List.getLastD_cons]
    exact Formed.isRoot_rootOf formed (Nat.lt_trans below inside)
termination_by id

theorem Attached.lies (attached : arena.Attached id) (formed : arena.Formed) :
    arena.Lies (arena.rootOf id) (arena.fieldPath id) id :=
  ⟨formed.isRoot_rootOf attached.1, attached.2⟩

/-! ## One call -/

/-- A value that is added gets its own entries in the ledger. -/
theorem Tracks.sprout {state : List String → LeafState}
    (tracks : before.Tracks (fun _ => False) ledger)
    (consistent : after.Consistent True (fun _ => False) none []) (adds : before.Adds after)
    (fresh : ∀ ⦃id⦄, before.nodes.size < id → id < after.nodes.size → (after.node id).parent ≠ none)
    (distinct : (after.node before.nodes.size).shape.Distinct)
    (state_eq : ∀ leaf ∈ (after.node before.nodes.size).shape.leaves,
      after.leafState before.nodes.size leaf = state leaf) :
    after.Tracks (fun _ => False) (ledger.update before.nodes.size [] state) := by
  have old : ∀ ⦃root⦄, after.IsRoot root → root ≠ before.nodes.size → before.IsRoot root := by
    intro root isRoot differs
    rcases Nat.lt_or_gt_of_ne differs with old | new
    · exact ⟨old, adds.kept old ▸ isRoot.2⟩
    · exact absurd isRoot.2 (fresh new isRoot.1)
  refine ⟨consistent, fun root isRoot => ?_, fun root isRoot leaf mem => ?_⟩
  all_goals by_cases here : root = before.nodes.size
  · exact here ▸ distinct
  · have wasRoot := old isRoot here
    exact adds.kept wasRoot.1 ▸ tracks.distinct wasRoot
  · subst here
    rw [state_eq leaf mem]
    exact (Ledger.update_below leaf).symm
  · have wasRoot := old isRoot here
    rw [adds.kept wasRoot.1] at mem
    rw [Ledger.update_other fun same => here same.1,
      tracks.consistent.leafState_of_adds adds wasRoot.1]
    exact tracks.agrees wasRoot leaf mem

section

variable (tracks : arena.Tracks (fun _ => False) ledger)
include tracks

theorem Tracks.newValue (name : String) (distinct : shape.Distinct) :
    (arena.newValue name shape).1.Tracks (fun _ => False)
      (ledger.update (arena.newValue name shape).2 [] fun _ => .undefined) := by
  rw [Arena.newValue]
  generalize new_eq : ({ name, shape, .. } : Node) = new
  have node_eq := arena.node_push_self new
  refine tracks.sprout ?_ (adds_push new) (fun id late inside => ?_) ?_ fun leaf _ => ?_
  · exact (tracks.consistent.push (by rw [← new_eq]) (by rw [← new_eq]; rintro _ ⟨⟩)
      (by rw [← new_eq]; rintro - ⟨⟩)).1
  · rw [size_push] at inside
    exact absurd late (Nat.not_lt_of_le (Nat.le_of_lt_succ inside))
  · rw [node_eq, ← new_eq]
    exact distinct
  · rw [leafState_of_uniform (by rw [node_eq, ← new_eq]), node_eq, ← new_eq]
    rfl

theorem Tracks.cloneValue (lies : arena.Lies root path id) :
    (arena.cloneValue id).1.Tracks (fun _ => False)
      (ledger.update (arena.cloneValue id).2 [] fun leaf => ledger root (path ++ leaf)) := by
  obtain ⟨consistent, leaves⟩ := tracks.consistent.plant none (arena.tree id)
    tracks.consistent.sound_tree arena (by rintro _ ⟨⟩)
  obtain ⟨new_eq, planted⟩ := planted_plant none (arena.tree id) arena
  have state_eq := planted.state_eq.trans (state_tree arena id)
  rw [Arena.cloneValue, new_eq]
  refine tracks.sprout consistent planted.adds planted.fresh ?_ fun leaf mem => ?_
  · rw [state_eq]
    exact tracks.distinct_shape id
  · rw [state_eq] at mem
    rw [leaves, tracks.consistent.leafState_tree, tracks.ledger_eq lies mem]

theorem Tracks.settled {change : Node → Node} (lies : arena.Lies root path id)
    (settles : Settles (arena.node id) (change (arena.node id)) state) :
    ((arena.modify id change).refreshAncestors id).Tracks (fun _ => False)
      (ledger.update root path fun _ => state) := by
  have early : arena.Tracks (fun other => (arena.node id).parent = some other) ledger :=
    tracks.mono fun _ => False.elim
  have grows := extends_settle tracks.formed lies settles
  have settled := early.settle lies settles fun _ isParent => isParent
  rw [← grows.parent_eq (lies.inside tracks.formed)] at settled
  exact settled.refreshAncestors (grows.lies lies fun strict => strict.2.2 rfl)

/-- Loans are no business of the leaves. -/
theorem Tracks.borrow (id : NodeId)
    (loan : Option Loan) : (arena.borrow id loan).Tracks (fun _ => False) ledger := by
  refine tracks.extend (extends_modify ⟨rfl, rfl, rfl⟩ rfl) (tracks.consistent.borrow id loan)
    fun root isRoot leaf mem => ?_
  rw [← tracks.agrees isRoot leaf mem]
  refine tracks.formed.leafState_congr mem fun front node _ _ => ?_
  exact related_modify (fun node original => node.children = original.children ∧
    (original.children = [] → node.leafState = original.leafState)) (fun _ => ⟨rfl, fun _ => rfl⟩)
    ⟨rfl, fun _ => rfl⟩ node

theorem Tracks.get? (id : NodeId)
    (name : String) : (arena.get? id name).1.Tracks (fun _ => False) ledger := by
  rw [Arena.get?]
  cases (arena.node id).shape.field? name with
  | none => exact tracks
  | some part => exact tracks.split id

/-- An allowed call changes the leaves as the ledger says. -/
theorem Tracks.call {call} (allowed : call.Allowed arena) :
    (arena.call call).Tracks (fun _ => False) (call.record arena ledger) := by
  cases call with
  | newValue name shape => exact tracks.newValue name allowed
  | get id name => exact tracks.get? id name
  | markDefined id =>
    rw [Arena.call, Call.record, markDefined]
    split
    · exact tracks
    · exact tracks.settled (allowed.lies tracks.formed) (settles_define _)
  | markConsumed id moved =>
    rw [Arena.call, Call.record, markConsumed]
    split
    · exact tracks
    · exact tracks.settled (allowed.lies tracks.formed) (settles_consume _ moved)
  | cloneValue id => exact tracks.cloneValue (allowed.lies tracks.formed)
  | borrow id loan => exact tracks.borrow id loan
  | infuse target branch =>
    obtain ⟨attached, branchAttached, shape_eq⟩ := allowed
    exact tracks.infuse (attached.lies tracks.formed) (branchAttached.lies tracks.formed) shape_eq

end

/-! ## All calls -/

theorem tracks_empty : empty.Tracks (fun _ => False) .blank where
  consistent := .empty
  distinct := fun root isRoot => absurd isRoot.1 (Nat.not_lt_zero root)
  agrees := fun root isRoot => absurd isRoot.1 (Nat.not_lt_zero root)

theorem Tracks.calls (tracks : arena.Tracks (fun _ => False) ledger)
    (allowed : Call.AllAllowed arena script) :
    (script.foldl Arena.call arena).Tracks (fun _ => False)
      (Call.recordAll arena ledger script) := by
  induction script generalizing arena ledger with
  | nil => exact tracks
  | cons call script ih =>
    exact ih (tracks.call allowed.1) allowed.2

/-- The node that is found for a field stands for the field. -/
theorem Tracks.lies_get? (tracks : arena.Tracks (fun _ => False) ledger)
    (lies : arena.Lies root path id) (isField : field ∈ (arena.node id).shape.fields) :
    ∃ child, (arena.get? id field.1).2 = some child ∧
      (arena.get? id field.1).1.Lies root (path ++ [field.1]) child := by
  have mem := lies.inside tracks.formed
  have grows := extends_split tracks.formed id
  have hasChildren := children_split_ne_nil (List.ne_nil_of_mem isField)
  have found := (tracks.formed id).distinct.field?_eq_some_iff.mpr isField
  rw [Arena.get?, found]
  obtain ⟨child, isChild, -⟩ := (tracks.split id).formed.exists_child hasChildren
    (grows.shape_eq mem ▸ isField)
  exact ⟨child, isChild, (grows.lies lies not_false).ofChild isChild⟩

/-- After any script, the arena answers by the ledger: a part may be used if all its
leaves are defined, its gaps are the leaves that are not, and every field is found. -/
theorem answers_by_ledger
    (script : List Call)
    (allowed : Call.AllAllowed empty script) :
    let arena := script.foldl Arena.call empty
    let ledger := Call.recordAll empty .blank script
    ∀ id, arena.Attached id →
      let shape := (arena.node id).shape
      let state := fun leaf => ledger (arena.rootOf id) (arena.fieldPath id ++ leaf)
      (arena.isComposable id = true ↔ ∀ leaf ∈ shape.leaves, state leaf = .defined) ∧
      (∃ reports : List Report, arena.gaps id = reports.map (Report.gap (arena.path id)) ∧
        (∀ leaf, .missing leaf ∈ reports ↔ leaf ∈ shape.leaves ∧ state leaf = .undefined) ∧
        (∀ leaf ∈ shape.leaves, reports.countP (fun report => report.covers leaf) =
          if state leaf = .defined then 0 else 1) ∧
        Accounts shape state reports) ∧
      ∀ field ∈ shape.fields, ∃ child, (arena.get? id field.1).2 = some child ∧
        (arena.get? id field.1).1.Lies (arena.rootOf id) (arena.fieldPath id ++
        [field.1]) child := by
  intro arena ledger id attached shape state
  have tracks : arena.Tracks (fun _ => False) ledger := tracks_empty.calls allowed
  have lies := attached.lies tracks.formed
  have distinct : shape.Distinct := (tracks.formed id).distinct
  have state_eq : ∀ leaf ∈ shape.leaves, state leaf = arena.leafState id leaf :=
    fun leaf member => tracks.ledger_eq lies member
  refine ⟨?_, ?_, fun field isField => tracks.lies_get? lies isField⟩
  · rw [tracks.formed.isComposable_iff tracks.complete id]
    exact forall₂_congr fun leaf member => by rw [state_eq leaf member]
  · obtain ⟨reports, gaps_eq, accounts⟩ :=
      tracks.formed.exists_accounts tracks.complete id (arena.path id)
    replace accounts := accounts.congr state_eq
    exact ⟨reports, gaps_eq, fun leaf => accounts.missing_mem_iff distinct,
      fun leaf member => accounts.countP_covers distinct member, accounts⟩

/-- A value is defined as a whole, and a copy of it from which a field was moved out is
merged back: the value may not be used, and the moved field is the only gap. -/
theorem gaps_of_moved_copy :
    let script : List Call :=
      [.newValue "p" (.composite [("x", .leaf), ("y", .leaf)]), .get 0 "y", .markDefined 0,
        .cloneValue 0, .get 3 "x", .markConsumed 4 default, .infuse 0 3]
    let arena := script.foldl Arena.call empty
    arena.gaps 0 = [.consumed "p.x" default] ∧ Call.AllAllowed empty script ∧ arena.Attached 0 ∧
      (arena.isComposable 0 = true ↔ ∀ leaf ∈ (arena.node 0).shape.leaves,
        Call.recordAll empty .blank script (arena.rootOf 0) (arena.fieldPath 0 ++ leaf) =
          .defined) := by
  intro script arena
  have allowed : Call.AllAllowed empty script := by
    refine ⟨⟨by decide, by simp [Shape.FieldsDistinct, Shape.leaf, Shape.Distinct]⟩, ?_, ?_, ?_,
      ?_, ?_, ⟨?_, ?_, ?_⟩, trivial⟩
    case refine_8 => cbv
    all_goals
      show Attached _ _
      decide +kernel
  have attached : arena.Attached 0 := by decide +kernel
  refine ⟨?_, allowed, attached, (answers_by_ledger script allowed 0 attached).1⟩
  decide +kernel

/-- A field is moved out of a copy of a value, then the value is moved out as a whole. When
the copy is merged back, what was moved out of it is forgotten. -/
theorem merge_forgets_move :
    let left := Span.ofLines 1 1 1 80
    let moved := Span.ofLines 2 1 2 80
    let script : List Call :=
      [.newValue "p" (.composite [("a", .leaf), ("b", .leaf)]), .markDefined 0, .cloneValue 0,
        .get 1 "a", .markConsumed 2 moved, .markConsumed 0 left]
    let arena := script.foldl Arena.call empty
    arena.gaps 1 = [.consumed "p.a" moved] ∧ arena.gaps 0 = [.consumed "p" left] ∧
      (arena.call (.infuse 0 1)).gaps 0 = [.consumed "p" left] := by
  decide +kernel

end Arena
end StructWasm.Ownership

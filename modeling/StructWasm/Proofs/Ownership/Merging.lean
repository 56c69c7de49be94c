import StructWasm.Proofs.Ownership.Splitting

/-!
# Merging the states of leaves

What a branch leaves is merged leaf by leaf, whatever of the two sides is uniform. A
leaf was moved out if one of the sides moved it, and is defined only if both sides
have it defined.
-/

namespace StructWasm.Ownership

open List Ledger

/-- The state of a leaf after a branch that may not have been taken. -/
def LeafState.merge : LeafState → LeafState → LeafState
  | .consumed, _ => .consumed
  | _, .consumed => .consumed
  | .defined, .defined => .defined
  | _, _ => .undefined

@[simp] theorem LeafState.consumed_merge (state : LeafState) :
    LeafState.consumed.merge state = .consumed := rfl

@[simp] theorem LeafState.merge_consumed (state : LeafState) :
    state.merge .consumed = .consumed := by
  cases state <;> rfl

theorem LeafState.merge_of_flags (left right : Bool) :
    (if left then LeafState.defined else .undefined).merge
    (if right then .defined else .undefined) =
      if left && right then .defined else .undefined := by
  cases left <;> cases right <;> rfl

/-- The leaves below a part get what comes of merging another part into it. -/
def Ledger.mergeBelow (ledger : Ledger) (root : NodeId) (path : List String) (other : NodeId)
    (otherPath : List String) : Ledger :=
  ledger.update root path fun rest =>
    (ledger root (path ++ rest)).merge (ledger other (otherPath ++ rest))

/-- Only the leaves below some fields of a part are merged. -/
def Ledger.mergeFields (ledger : Ledger) (root : NodeId) (path : List String) (other : NodeId)
    (otherPath : List String) (names : List String) : Ledger :=
  ledger.update root path fun rest =>
    if ∃ name ∈ names, [name] <+: rest then
      (ledger root (path ++ rest)).merge (ledger other (otherPath ++ rest))
    else
      ledger root (path ++ rest)

namespace Arena

variable {arena before after : Arena} {root other id target branch child : NodeId}
variable {name : String} {path otherPath rest : List String}
variable {ledger : Ledger} {exempt : NodeId → Prop}

/-! ## Parts of the ledger -/

theorem Formed.append_mem_leaves (formed : arena.Formed) (found : arena.find? root path = some id) :
    path ++ rest ∈ (arena.node root).shape.leaves ↔ rest ∈ (arena.node id).shape.leaves := by
  induction path generalizing root with
  | nil =>
    obtain rfl : root = id := by simpa [find?] using found
    rfl
  | cons name path ih =>
    obtain ⟨child, first, found⟩ := Option.bind_eq_some_iff.mp found
    have isChild := formed.isChild first
    refine (Iff.intro (fun mem => ?_) isChild.mem_leaves).trans (ih found)
    obtain ⟨part, isField, inPart⟩ := Shape.cons_mem_leaves.mp mem
    have distinct := (formed root).distinct
    have part_eq := distinct.field?_eq_some_iff.mpr isField
    rw [distinct.field?_eq_some_iff.mpr isChild.shape_eq] at part_eq
    exact Option.some.inj part_eq ▸ inPart

theorem Tracks.ledger_eq (tracks : arena.Tracks exempt ledger) (lies : arena.Lies root path id)
    (mem : rest ∈ (arena.node id).shape.leaves) :
    ledger root (path ++ rest) = arena.leafState id rest := by
  rw [← leafState_append lies.found]
  exact (tracks.agrees lies.isRoot _ ((tracks.formed.append_mem_leaves lies.found).mpr mem)).symm

variable {names : List String} {shape : Shape} {state : List String → LeafState}
variable {pair : String × NodeId × NodeId} {step : Arena → String × NodeId × NodeId → Arena}
variable {inside : NodeId → List String → Prop}

theorem Tracks.congr_update {other : List String → LeafState}
    (tracks : arena.Tracks exempt (ledger.update root path state)) (lies : arena.Lies root path id)
    (same : ∀ rest ∈ (arena.node id).shape.leaves, other rest = state rest) :
    arena.Tracks exempt (ledger.update root path other) := by
  refine ⟨tracks.consistent, tracks.distinct, fun value isRoot leaf mem => ?_⟩
  rw [tracks.agrees isRoot leaf mem]
  by_cases below : value = root ∧ path <+: leaf
  · obtain ⟨rfl, rest, rfl⟩ := below
    rw [update_below, update_below]
    exact (same rest ((tracks.formed.append_mem_leaves lies.found).mp mem)).symm
  · rw [update_other below, update_other below]

theorem Tracks.update_self (tracks : arena.Tracks exempt ledger) (lies : arena.Lies root path id)
    (same : ∀ rest ∈ (arena.node id).shape.leaves, state rest = ledger root (path ++ rest)) :
    arena.Tracks exempt (ledger.update root path state) := by
  have unchanged : ledger.update root path (fun rest => ledger root (path ++ rest)) = ledger := by
    funext value leaf
    by_cases below : value = root ∧ path <+: leaf
    · obtain ⟨rfl, rest, rfl⟩ := below
      rw [update_below]
    · rw [update_other below]
  refine Tracks.congr_update ?_ lies same
  rw [unchanged]
  exact tracks

/-! ## Parts that do not overlap -/

/-- Neither of two parts is strictly below the other. -/
def Apart (root : NodeId) (path : List String) (other : NodeId) (otherPath : List String) : Prop :=
  ¬StrictlyBelow root path other otherPath ∧ ¬StrictlyBelow other otherPath root path

theorem Apart.eq_of_prefix (apart : Apart root path root otherPath) (isPrefix : path <+: leaf)
    (isPrefixToo : otherPath <+: leaf) : otherPath = path := by
  rcases prefix_or_prefix_of_prefix isPrefix isPrefixToo with below | above
  · by_contra differs
    exact apart.1 ⟨rfl, below, differs⟩
  · by_contra differs
    exact apart.2 ⟨rfl, above, Ne.symm differs⟩

theorem Apart.fields (apart : Apart root path other otherPath) (name otherName : String) :
    Apart root (path ++ [name]) other (otherPath ++ [otherName]) := by
  constructor
  · rintro ⟨rfl, below, differs⟩
    obtain rfl := apart.eq_of_prefix ((prefix_append _ _).trans below) (prefix_append _ _)
    exact differs (below.eq_of_length (by simp)).symm
  · rintro ⟨rfl, below, differs⟩
    obtain rfl := apart.eq_of_prefix (prefix_append _ _) ((prefix_append _ _).trans below)
    exact differs (below.eq_of_length (by simp)).symm

/-! ## Field by field -/

theorem mergeFields_nil (ledger : Ledger) (root : NodeId) (path : List String) (other : NodeId)
    (otherPath : List String) : ledger.mergeFields root path other otherPath [] = ledger := by
  funext value leaf
  by_cases below : value = root ∧ path <+: leaf
  · obtain ⟨rfl, rest, rfl⟩ := below
    rw [mergeFields, update_below]
    simp
  · rw [mergeFields, update_other below]

theorem mergeBelow_mergeFields (apart : Apart root path other otherPath) (fresh : name ∉ names) :
    (ledger.mergeFields root path other otherPath names).mergeBelow root (path ++ [name]) other
        (otherPath ++ [name]) =
      ledger.mergeFields root path other otherPath (name :: names) := by
  have unmerged : ∀ rest, ¬∃ other ∈ names, [other] <+: name :: rest := by
    rintro rest ⟨first, mem, isFirst⟩
    obtain rfl : first = name := by simpa using cons_prefix_cons.mp isFirst
    exact fresh mem
  have target : ∀ rest, ledger.mergeFields root path other otherPath names root
      (path ++ name :: rest) = ledger root (path ++ name :: rest) := by
    intro rest
    rw [mergeFields, update_below, if_neg (unmerged rest)]
  have branch : ∀ rest, ledger.mergeFields root path other otherPath names other
      (otherPath ++ name :: rest) = ledger other (otherPath ++ name :: rest) := by
    intro rest
    by_cases below : other = root ∧ path <+: otherPath ++ name :: rest
    · obtain ⟨rfl, isBelow⟩ := below
      obtain rfl := apart.eq_of_prefix isBelow (prefix_append _ _)
      exact target rest
    · rw [mergeFields, update_other below]
  funext value leaf
  by_cases inField : value = root ∧ path ++ [name] <+: leaf
  · obtain ⟨rfl, rest, rfl⟩ := inField
    rw [mergeBelow, update_below]
    simp only [append_assoc, singleton_append]
    rw [target, branch, mergeFields, update_below, if_pos]
    exact ⟨name, mem_cons_self, by simp⟩
  · rw [mergeBelow, update_other inField, mergeFields, mergeFields]
    by_cases below : value = root ∧ path <+: leaf
    · obtain ⟨rfl, rest, rfl⟩ := below
      have notHere : ¬[name] <+: rest := fun isFirst =>
        inField ⟨rfl, (prefix_append_right_inj path).mpr isFirst⟩
      rw [update_below, update_below]
      simp [notHere]
    · rw [update_other below, update_other below]

/-- A way to merge one part of a shape into another. -/
def MergesAs (shape : Shape) (merge : Merger) : Prop :=
  ∀ ⦃arena exempt ledger root path target other otherPath branch⦄,
    arena.Tracks exempt ledger → arena.Lies root path target →
    arena.Lies other otherPath branch → (arena.node target).shape = shape →
    (arena.node branch).shape = shape → Apart root path other otherPath →
    (∀ parent, (arena.node target).parent = some parent → exempt parent) →
    (merge target branch arena).Tracks exempt (ledger.mergeBelow root path other otherPath) ∧
      arena.Extends (merge target branch arena) (StrictlyBelow root path)

/-- The children of two parts under one name. -/
structure Pairs (arena : Arena) (root : NodeId) (path : List String) (other : NodeId)
    (otherPath : List String) (exempt : NodeId → Prop) (shape : Shape)
    (pair : String × NodeId × NodeId) : Prop where
  target : arena.Lies root (path ++ [pair.1]) pair.2.1
  branch : arena.Lies other (otherPath ++ [pair.1]) pair.2.2
  target_shape : (arena.node pair.2.1).shape = shape
  branch_shape : (arena.node pair.2.2).shape = shape
  later : ∀ parent, (arena.node pair.2.1).parent = some parent → exempt parent

/-- The places strictly below some fields of a part. -/
def BelowFields (root : NodeId) (path names : List String) (value : NodeId)
    (place : List String) : Prop :=
  ∃ name ∈ names, StrictlyBelow root (path ++ [name]) value place

theorem not_belowFields_field (names : List String) (name : String) :
    ¬BelowFields root path names root (path ++ [name]) := by
  rintro ⟨first, -, -, isPrefix, differs⟩
  exact differs (isPrefix.eq_of_length (by simp)).symm

theorem Apart.not_belowFields (apart : Apart root path other otherPath) (names : List String)
    (name : String) : ¬BelowFields root path names other (otherPath ++ [name]) := by
  rintro ⟨first, -, below⟩
  exact (apart.fields first name).1 below

theorem Pairs.keep (pairs : before.Pairs root path other otherPath exempt shape pair)
    (formed : before.Formed) (apart : Apart root path other otherPath)
    (grows : before.Extends after (BelowFields root path names)) :
    after.Pairs root path other otherPath exempt shape pair where
  target := grows.lies pairs.target (not_belowFields_field names _)
  branch := grows.lies pairs.branch (apart.not_belowFields names _)
  target_shape := (grows.shape_eq (pairs.target.inside formed)).trans pairs.target_shape
  branch_shape := (grows.shape_eq (pairs.branch.inside formed)).trans pairs.branch_shape
  later := by
    rw [grows.parent_eq (pairs.target.inside formed)]
    exact pairs.later

/-- Merging the fields of a part one after the other. -/
theorem Tracks.mergePairs {pairs : List (String × NodeId × NodeId)}
    (tracks : arena.Tracks exempt (ledger.mergeFields root path other otherPath merged))
    (apart : Apart root path other otherPath)
    (each : ∀ pair ∈ pairs, ∃ shape merge, MergesAs shape merge ∧
      (∀ arena, step arena pair = merge pair.2.1 pair.2.2 arena) ∧
      arena.Pairs root path other otherPath exempt shape pair)
    (distinct : (pairs.map Prod.fst).Nodup) (fresh : ∀ pair ∈ pairs, pair.1 ∉ merged) :
    (pairs.foldl step arena).Tracks exempt
        (ledger.mergeFields root path other otherPath ((pairs.map Prod.fst).reverse ++ merged)) ∧
      arena.Extends (pairs.foldl step arena) (BelowFields root path (pairs.map Prod.fst)) := by
  induction pairs generalizing arena merged with
  | nil => exact ⟨tracks, .refl arena⟩
  | cons pair pairs ih =>
    obtain ⟨shape, merge, merges, step_eq, isPair⟩ := each pair mem_cons_self
    obtain ⟨mergedTracks, mergedGrows⟩ := merges tracks isPair.target isPair.branch
      isPair.target_shape isPair.branch_shape (apart.fields _ _) isPair.later
    rw [mergeBelow_mergeFields apart (fresh pair mem_cons_self)] at mergedTracks
    rw [← step_eq] at mergedTracks mergedGrows
    have grows : arena.Extends (step arena pair)
        (BelowFields root path ((pair :: pairs).map Prod.fst)) :=
      mergedGrows.mono fun _ _ below => ⟨pair.1, mem_cons_self, below⟩
    rw [map_cons, nodup_cons] at distinct
    have eachLater : ∀ later ∈ pairs, ∃ shape merge, MergesAs shape merge ∧
        (∀ arena, step arena later = merge later.2.1 later.2.2 arena) ∧
        (step arena pair).Pairs root path other otherPath exempt shape later := by
      intro later mem
      obtain ⟨shape, merge, merges, step_eq, isPair⟩ :=
        each later (mem_cons_of_mem _ mem)
      exact ⟨shape, merge, merges, step_eq, isPair.keep tracks.formed apart grows⟩
    have freshLater : ∀ later ∈ pairs, later.1 ∉ pair.1 :: merged := by
      intro later mem inMerged
      rcases mem_cons.mp inMerged with same | inMerged
      · exact distinct.1 (same ▸ mem_map.mpr ⟨later, mem, rfl⟩)
      · exact fresh later (mem_cons_of_mem _ mem) inMerged
    obtain ⟨finalTracks, finalGrows⟩ :=
      ih mergedTracks eachLater distinct.2 freshLater
    refine ⟨?_, grows.trans (finalGrows.mono ?_)⟩
    · rw [map_cons, reverse_cons, append_assoc, singleton_append]
      exact finalTracks
    · rintro _ _ ⟨first, mem, below⟩
      exact ⟨first, mem_cons_of_mem _ mem, below⟩

/-! ## Uniform parts -/

theorem leafState_of_consumed (formed : arena.Formed)
    (consumed : arena.uniformlyConsumed? id = some moved) :
    arena.leafState id rest = .consumed := by
  unfold uniformlyConsumed? at consumed
  dsimp only at consumed
  split at consumed
  · rename_i uniform
    have notComposable : (arena.node id).composable = false := by
      rw [Bool.eq_false_iff]
      intro composable
      cases consumed.symm.trans ((formed id).whole trivial composable)
    rw [leafState_of_uniform (List.isEmpty_iff.mp uniform), State.leafState,
      notComposable, consumed]
    rfl
  · cases consumed

theorem leafState_of_not_consumed (uniform : (arena.node id).children = [])
    (notConsumed : arena.uniformlyConsumed? id = none) :
    (arena.node id).leafState = if arena.isComposable id then .defined else .undefined := by
  have unmarked : (arena.node id).consumedAt = none := by
    simpa [uniformlyConsumed?, uniform] using notConsumed
  rw [State.leafState, unmarked, isComposable]
  rfl

section Cases

variable (tracks : arena.Tracks exempt ledger) (lies : arena.Lies root path target)
  (branchLies : arena.Lies other otherPath branch)
  (shape_eq : (arena.node branch).shape = (arena.node target).shape)
include tracks lies branchLies shape_eq

theorem merged_eq (mem : rest ∈ (arena.node target).shape.leaves) :
    (ledger root (path ++ rest)).merge (ledger other (otherPath ++ rest)) =
      (arena.leafState target rest).merge (arena.leafState branch rest) := by
  rw [tracks.ledger_eq lies mem, tracks.ledger_eq branchLies (shape_eq ▸ mem)]

theorem Tracks.mergeConsumed (consumed : arena.uniformlyConsumed? branch = some moved)
    (later : ∀ parent, (arena.node target).parent = some parent → exempt parent) :
    (arena.modify target (Node.consume moved)).Tracks exempt
      (ledger.mergeBelow root path other otherPath) := by
  have settles := settles_consume (arena.node target) moved
  have grows := extends_settle tracks.formed lies settles
  have stillLies := grows.lies lies fun strict => strict.2.2 rfl
  refine (tracks.settle lies settles later).congr_update stillLies fun rest mem => ?_
  rw [grows.shape_eq (lies.inside tracks.formed)] at mem
  rw [merged_eq tracks lies branchLies shape_eq mem,
    leafState_of_consumed tracks.formed consumed, LeafState.merge_consumed]

theorem Tracks.mergeIntoConsumed (consumed : (arena.uniformlyConsumed? target).isSome = true) :
    arena.Tracks exempt (ledger.mergeBelow root path other otherPath) := by
  obtain ⟨moved, consumed⟩ := Option.isSome_iff_exists.mp consumed
  refine tracks.update_self lies fun rest mem => ?_
  rw [merged_eq tracks lies branchLies shape_eq mem, tracks.ledger_eq lies mem,
    leafState_of_consumed tracks.formed consumed, LeafState.consumed_merge]

/-- Both parts are uniform, and none was moved out. -/
theorem Tracks.mergeUniform (branchKept : arena.uniformlyConsumed? branch = none)
    (kept : arena.uniformlyConsumed? target = none) (uniform : (arena.node target).children = [])
    (branchUniform : (arena.node branch).children = [])
    (later : ∀ parent, (arena.node target).parent = some parent → exempt parent) :
    let both := arena.isComposable target && arena.isComposable branch
    let change : Node → Node := fun node => { node with composable := both }
    (arena.modify target change).Tracks exempt (ledger.mergeBelow root path other otherPath) ∧
      arena.Extends (arena.modify target change) (StrictlyBelow root path) := by
  intro both change
  have unmarked : (arena.node target).consumedAt = none := by
    simpa [uniformlyConsumed?, uniform] using kept
  have settles : Settles (arena.node target) (change (arena.node target))
      (if both then .defined else .undefined) := by
    refine ⟨⟨rfl, rfl, rfl⟩, uniform, fun _ => unmarked, ?_⟩
    rw [State.leafState, unmarked]
    rfl
  have grows := extends_settle tracks.formed lies settles
  have stillLies := grows.lies lies fun strict => strict.2.2 rfl
  refine ⟨(tracks.settle lies settles later).congr_update stillLies fun rest mem => ?_, grows⟩
  rw [grows.shape_eq (lies.inside tracks.formed)] at mem
  rw [merged_eq tracks lies branchLies shape_eq mem, leafState_of_uniform uniform,
    leafState_of_uniform branchUniform, leafState_of_not_consumed uniform kept,
    leafState_of_not_consumed branchUniform branchKept]
  exact LeafState.merge_of_flags _ _

end Cases

/-! ## Split parts -/

theorem Extends.child? (grows : before.Extends after inside) (lies : before.Lies root path id)
    (found : before.child? id name = some child) (outside : ¬inside root path)
    (outsideToo : ¬inside root (path ++ [name])) : after.child? id name = some child := by
  have reached := grows.found (lies.ofChild found) outsideToo
  rw [find?_append (grows.found lies outside)] at reached
  obtain ⟨first, foundFirst, reached⟩ := Option.bind_eq_some_iff.mp reached
  obtain rfl : first = child := by simpa [find?] using reached
  exact foundFirst

theorem Extends.children_ne_nil (grows : before.Extends after inside) (formed : before.Formed)
    (lies : before.Lies root path id) (outside : ¬inside root path)
    (outsideToo : ∀ name, ¬inside root (path ++ [name]))
    (hasChildren : (before.node id).children ≠ []) : (after.node id).children ≠ [] := by
  obtain ⟨entry, rest, children_eq⟩ := exists_cons_of_ne_nil hasChildren
  have found : before.child? id entry.1 = some entry.2 := by
    rw [formed.child?_eq_some_iff, children_eq]
    exact mem_cons_self
  have foundAfter := grows.child? lies found outside (outsideToo entry.1)
  intro uniform
  simp [Arena.child?, uniform] at foundAfter

theorem Formed.mem_commonChildren (formed : arena.Formed) :
    pair ∈ arena.commonChildren target branch ↔
      arena.child? target pair.1 = some pair.2.1 ∧ arena.child? branch pair.1 = some pair.2.2 := by
  obtain ⟨name, child, otherChild⟩ := pair
  rw [commonChildren, mem_filterMap, formed.child?_eq_some_iff]
  constructor
  · rintro ⟨⟨first, found⟩, mem, paired⟩
    obtain ⟨found, foundToo, same⟩ := Option.map_eq_some_iff.mp paired
    obtain ⟨rfl, rfl, rfl⟩ : first = name ∧ _ = child ∧ found = otherChild := by simpa using same
    exact ⟨mem, foundToo⟩
  · rintro ⟨mem, found⟩
    exact ⟨(name, child), mem, Option.map_eq_some_iff.mpr ⟨otherChild, found, rfl⟩⟩

theorem Formed.nodup_commonChildren (formed : arena.Formed) :
    ((arena.commonChildren target branch).map Prod.fst).Nodup := by
  refine (formed target).names.sublist ?_
  unfold commonChildren
  induction (arena.node target).children with
  | nil => exact .slnil
  | cons entry entries ih =>
    obtain ⟨first, child⟩ := entry
    cases found : (arena.node branch).children.lookup first with
    | none =>
      rw [filterMap_cons_none (by simp [found])]
      exact .cons _ ih
    | some otherChild =>
      rw [filterMap_cons_some (b := (first, child, otherChild)) (by simp [found])]
      exact .cons_cons _ ih

/-- The children of two parts of one shape, name by name. -/
theorem Formed.pairs_of_mem (formed : arena.Formed) (lies : arena.Lies root path target)
    (branchLies : arena.Lies other otherPath branch)
    (shape_eq : (arena.node branch).shape = (arena.node target).shape) (counted : exempt target)
    (mem : pair ∈ arena.commonChildren target branch) :
    ∃ field ∈ (arena.node target).shape.fields, field.1 = pair.1 ∧
      arena.Pairs root path other otherPath exempt field.2 pair := by
  obtain ⟨found, branchFound⟩ := formed.mem_commonChildren.mp mem
  have isChild := formed.isChild found
  have branchChild := formed.isChild branchFound
  have distinct := (formed target).distinct
  refine ⟨_, isChild.shape_eq, rfl, lies.ofChild found, branchLies.ofChild branchFound, rfl, ?_, ?_⟩
  · have same := branchChild.shape_eq
    rw [shape_eq, ← distinct.field?_eq_some_iff,
      distinct.field?_eq_some_iff.mpr isChild.shape_eq] at same
    exact (Option.some.inj same).symm
  · intro parent isParent
    cases isChild.parent.symm.trans isParent
    exact counted

theorem Tracks.mergeBelow_of_fields
    (tracks : arena.Tracks exempt (ledger.mergeFields root path other otherPath names))
    (lies : arena.Lies root path target) (hasFields : (arena.node target).shape.fields ≠ [])
    (all : ∀ field ∈ (arena.node target).shape.fields, field.1 ∈ names) :
    arena.Tracks exempt (ledger.mergeBelow root path other otherPath) := by
  refine Tracks.congr_update tracks lies fun rest mem => ?_
  rw [if_pos]
  cases rest with
  | nil => exact absurd (Shape.nil_mem_leaves.mp mem) hasFields
  | cons name rest =>
    obtain ⟨part, isField, -⟩ := Shape.cons_mem_leaves.mp mem
    exact ⟨name, all _ isField, by simp⟩

theorem lookup_fieldMergers (distinct : shape.Distinct) (mem : field ∈ shape.fields) :
    (fieldMergers shape.fields).reverse.lookup field.1 = some (mergeAt field.2) := by
  rw [fieldMergers_eq, lookup_eq_some_iff_mem]
  · rw [mem_reverse]
    exact mem_map.mpr ⟨field, mem, rfl⟩
  · rw [map_reverse, nodup_reverse, map_map]
    exact distinct.names

/-- Parts that are not both uniform are merged field by field. -/
theorem Tracks.mergeSplit (steps : ∀ field ∈ shape.fields, ∃ merge, MergesAs field.2 merge ∧
      ∀ child otherChild arena, step arena (field.1, child, otherChild) =
        merge child otherChild arena)
    (tracks : arena.Tracks exempt ledger) (lies : arena.Lies root path target)
    (branchLies : arena.Lies other otherPath branch)
    (target_shape : (arena.node target).shape = shape)
    (branch_shape : (arena.node branch).shape = shape) (hasFields : shape.fields ≠ [])
    (apart : Apart root path other otherPath)
    (later : ∀ parent, (arena.node target).parent = some parent → exempt parent) :
    let divided := (arena.split target).split branch
    let merged := (divided.commonChildren target branch).foldl step divided
    (merged.recompute target).Tracks exempt (ledger.mergeBelow root path other otherPath) ∧
      arena.Extends (merged.recompute target) (StrictlyBelow root path) := by
  intro divided merged
  have present := lies.inside tracks.formed
  have branchPresent := branchLies.inside tracks.formed
  -- Both parts are split.
  have halfTracks := tracks.split target
  have dividedTracks : divided.Tracks exempt ledger := halfTracks.split branch
  have halfGrows := extends_split tracks.formed target
  have laterGrows : (arena.split target).Extends divided fun _ _ => False :=
    extends_split halfTracks.formed branch
  have dividedGrows : arena.Extends divided fun _ _ => False := halfGrows.trans laterGrows
  have dividedLies := dividedGrows.lies lies not_false
  have dividedBranchLies := dividedGrows.lies branchLies not_false
  have dividedShape : (divided.node target).shape = shape :=
    (dividedGrows.shape_eq present).trans target_shape
  have dividedBranchShape : (divided.node branch).shape = shape :=
    (dividedGrows.shape_eq branchPresent).trans branch_shape
  have children : (divided.node target).children ≠ [] :=
    laterGrows.children_ne_nil halfTracks.formed (halfGrows.lies lies not_false) not_false
      (fun _ => not_false) (children_split_ne_nil (target_shape ▸ hasFields))
  have branchChildren : (divided.node branch).children ≠ [] := by
    refine children_split_ne_nil ?_
    rw [halfGrows.shape_eq branchPresent, branch_shape]
    exact hasFields
  -- Then the children are merged, name by name.
  have formed := dividedTracks.formed
  have pairTracks : divided.Tracks (fun other => exempt other ∨ other = target)
      (ledger.mergeFields root path other otherPath []) := by
    rw [mergeFields_nil]
    exact dividedTracks.mono fun _ => .inl
  have each : ∀ pair ∈ divided.commonChildren target branch, ∃ part merge, MergesAs part merge ∧
      (∀ arena, step arena pair = merge pair.2.1 pair.2.2 arena) ∧
      divided.Pairs root path other otherPath (fun other => exempt other ∨ other = target) part
        pair := by
    intro pair mem
    have paired : ∃ field ∈ (divided.node target).shape.fields, field.1 = pair.1 ∧
        divided.Pairs root path other otherPath (fun other => exempt other ∨ other = target)
          field.2 pair :=
      formed.pairs_of_mem dividedLies dividedBranchLies
        (dividedBranchShape.trans dividedShape.symm) (Or.inr rfl) mem
    obtain ⟨field, isField, name_eq, isPair⟩ := paired
    rw [dividedShape] at isField
    obtain ⟨merge, merges, step_eq⟩ := steps field isField
    rw [name_eq] at step_eq
    exact ⟨field.2, merge, merges, step_eq _ _, isPair⟩
  obtain ⟨fieldTracks, fieldGrows⟩ :=
    pairTracks.mergePairs apart each formed.nodup_commonChildren (fun _ _ => not_mem_nil)
  rw [append_nil] at fieldTracks
  have mergedTracks : merged.Tracks _ _ := fieldTracks
  have mergedGrows : divided.Extends merged _ := fieldGrows
  have notInside : ¬BelowFields root path
      ((divided.commonChildren target branch).map Prod.fst) root path := by
    rintro ⟨name, -, -, isPrefix, -⟩
    have longer := isPrefix.length_le
    rw [length_append, length_singleton] at longer
    exact Nat.not_succ_le_self _ longer
  have mergedLies := mergedGrows.lies dividedLies notInside
  have dividedPresent := dividedLies.inside formed
  have mergedShape : (merged.node target).shape = shape :=
    (mergedGrows.shape_eq dividedPresent).trans dividedShape
  have mergedChildren : (merged.node target).children ≠ [] :=
    mergedGrows.children_ne_nil formed dividedLies notInside (not_belowFields_field _) children
  have mergedLater : ∀ parent, (merged.node target).parent = some parent → exempt parent := by
    rw [mergedGrows.parent_eq dividedPresent, dividedGrows.parent_eq present]
    exact later
  -- All fields have been merged.
  have allFields : ∀ field ∈ (merged.node target).shape.fields,
      field.1 ∈ ((divided.commonChildren target branch).map Prod.fst).reverse := by
    intro field isField
    rw [mergedShape] at isField
    obtain ⟨child, found, -⟩ := formed.exists_child children (dividedShape ▸ isField)
    obtain ⟨otherChild, otherFound, -⟩ :=
      formed.exists_child branchChildren (dividedBranchShape ▸ isField)
    have mem : (field.1, child, otherChild) ∈ divided.commonChildren target branch :=
      formed.mem_commonChildren.mpr ⟨found, otherFound⟩
    exact mem_reverse.mpr (mem_map.mpr ⟨_, mem, rfl⟩)
  have wholeTracks := mergedTracks.mergeBelow_of_fields mergedLies
    (mergedShape ▸ hasFields) allFields
  refine ⟨wholeTracks.recompute mergedChildren mergedLater, ?_⟩
  have growsBelow : divided.Extends merged (StrictlyBelow root path) := by
    refine mergedGrows.mono ?_
    rintro value place ⟨name, mem, rfl, isPrefix, differs⟩
    refine ⟨rfl, (prefix_append _ _).trans isPrefix, ?_⟩
    rintro rfl
    exact notInside ⟨name, mem, rfl, isPrefix, differs⟩
  exact ((dividedGrows.mono fun _ _ => False.elim).trans growsBelow).trans
    ((extends_modify ⟨rfl, rfl, rfl⟩ rfl).mono fun _ _ => False.elim)

/-! ## All parts -/

/-- Merging two parts of one shape merges their leaves. -/
theorem mergesAs_mergeAt (shape : Shape) : MergesAs shape (mergeAt shape) := by
  refine Shape.induct (motive := fun shape => MergesAs shape (mergeAt shape)) ?_ shape
  rintro ⟨fields⟩ ih
  intro arena exempt ledger root path target other otherPath branch tracks lies branchLies
    target_shape branch_shape apart later
  have shape_eq := branch_shape.trans target_shape.symm
  rw [mergeAt]
  dsimp only
  cases consumed : arena.uniformlyConsumed? branch with
  | some moved =>
    exact ⟨tracks.mergeConsumed lies branchLies shape_eq consumed later,
      extends_settle tracks.formed lies (settles_consume _ moved)⟩
  | none =>
    dsimp only
    by_cases targetConsumed : (arena.uniformlyConsumed? target).isSome = true
    · rw [if_pos targetConsumed]
      exact ⟨tracks.mergeIntoConsumed lies branchLies shape_eq targetConsumed, .refl arena⟩
    · rw [if_neg targetConsumed]
      have kept : arena.uniformlyConsumed? target = none := by simpa using targetConsumed
      by_cases uniform : ((arena.node target).children.isEmpty &&
          (arena.node branch).children.isEmpty) = true
      · rw [if_pos uniform]
        rw [Bool.and_eq_true, List.isEmpty_iff, List.isEmpty_iff] at uniform
        exact tracks.mergeUniform lies branchLies shape_eq consumed kept uniform.1 uniform.2 later
      · rw [if_neg uniform]
        have hasFields : (Shape.composite fields).fields ≠ [] := by
          intro isLeaf
          refine uniform ?_
          rw [tracks.formed.uniform_of_isLeaf (target_shape ▸ isLeaf),
            tracks.formed.uniform_of_isLeaf (branch_shape ▸ isLeaf)]
          rfl
        refine Tracks.mergeSplit ?_ tracks lies branchLies target_shape branch_shape hasFields apart
          later
        intro field isField
        refine ⟨mergeAt field.2, ih field isField, fun child otherChild arena => ?_⟩
        have distinct : (Shape.composite fields).Distinct :=
          target_shape ▸ (tracks.formed target).distinct
        have found : (fieldMergers fields).reverse.lookup field.1 = some (mergeAt field.2) :=
          lookup_fieldMergers distinct isField
        dsimp only
        rw [found]

theorem Formed.sizeOf_shape_le (formed : arena.Formed) (found : arena.find? root path = some id) :
    sizeOf (arena.node id).shape + path.length ≤ sizeOf (arena.node root).shape := by
  induction path generalizing root with
  | nil =>
    obtain rfl : root = id := by simpa [find?] using found
    simp
  | cons name path ih =>
    obtain ⟨child, first, found⟩ := Option.bind_eq_some_iff.mp found
    have smaller : sizeOf (arena.node child).shape < sizeOf (arena.node root).shape := by
      have mem := (formed.isChild first).shape_eq
      cases shape_eq : (arena.node root).shape with
      | composite fields =>
        rw [shape_eq] at mem
        have listed := sizeOf_lt_of_mem mem
        have inPair : sizeOf (arena.node child).shape <
            sizeOf (name, (arena.node child).shape) := by
          rw [Prod.mk.sizeOf_spec]
          omega
        have inShape : sizeOf fields < sizeOf (Shape.composite fields) := by simp
        exact Nat.lt_trans (Nat.lt_trans inPair listed) inShape
    have rest := ih found
    rw [length_cons]
    omega

/-- Two parts of one shape do not overlap. -/
theorem Formed.apart (formed : arena.Formed) (lies : arena.Lies root path target)
    (branchLies : arena.Lies other otherPath branch)
    (shape_eq : (arena.node branch).shape = (arena.node target).shape) :
    Apart root path other otherPath := by
  -- A part that is strictly below another has a smaller shape.
  have smaller : ∀ {value upper lower place below}, arena.Lies value place upper →
      arena.Lies value below lower → place <+: below → below ≠ place →
      (arena.node lower).shape ≠ (arena.node upper).shape := by
    rintro value upper lower place _ upperLies lowerLies ⟨rest, rfl⟩ differs same
    have found := lowerLies.found
    rw [find?_append upperLies.found] at found
    have le := formed.sizeOf_shape_le found
    rw [same] at le
    have empty : rest = [] := length_eq_zero_iff.mp (by omega)
    exact differs (by rw [empty, append_nil])
  constructor
  · rintro ⟨rfl, isPrefix, differs⟩
    exact smaller lies branchLies isPrefix differs shape_eq
  · rintro ⟨rfl, isPrefix, differs⟩
    exact smaller branchLies lies isPrefix differs shape_eq.symm

/-- Merging a branch into a part. -/
theorem Tracks.infuse (tracks : arena.Tracks (fun _ => False) ledger)
    (lies : arena.Lies root path target) (branchLies : arena.Lies other otherPath branch)
    (shape_eq : (arena.node branch).shape = (arena.node target).shape) :
    (arena.infuse target branch).Tracks (fun _ => False)
      (ledger.mergeBelow root path other otherPath) := by
  have early : arena.Tracks (fun other => (arena.node target).parent = some other) ledger :=
    tracks.mono fun _ => False.elim
  obtain ⟨mergedTracks, grows⟩ := mergesAs_mergeAt (arena.node target).shape early lies branchLies
    rfl shape_eq (tracks.formed.apart lies branchLies shape_eq) fun _ isParent => isParent
  rw [← grows.parent_eq (lies.inside tracks.formed)] at mergedTracks
  exact mergedTracks.refreshAncestors (grows.lies lies fun strict => strict.2.2 rfl)

end Arena
end StructWasm.Ownership

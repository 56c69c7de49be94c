import StructWasm.Proofs.Ownership.Tracking

/-!
# What keeps a part from being used

The gaps of a part account for its leaves: every leaf that was never defined is missing,
every leaf that was moved out is covered by one move, and the order is that of the
declaration.
-/

namespace StructWasm

open List Shape

namespace Ownership

/-- What keeps a part from being used, with the fields that lead to it. -/
inductive Report where
  /-- A leaf was never defined. -/
  | missing (path : List String)
  /-- A part was moved out. -/
  | consumed (path : List String) (moved : Span)
  deriving DecidableEq, Repr

namespace Report

/-- The gap that is reported for a part whose path starts in some way. -/
def gap (start : String) : Report → Gap
  | missing path => .missing (path.foldl Shape.extendPath start)
  | consumed path moved => .consumed (path.foldl Shape.extendPath start) moved

/-- The report of a field, as one of the part with this field. -/
def below (name : String) : Report → Report
  | missing path => missing (name :: path)
  | consumed path moved => consumed (name :: path) moved

/-- Whether a report is about a leaf. -/
def covers : Report → List String → Bool
  | missing path, leaf => leaf = path
  | consumed path _, leaf => path.isPrefixOf leaf

/-- The state that a report gives to the leaves it covers. -/
def leafState : Report → LeafState
  | missing _ => .undefined
  | consumed _ _ => .consumed

theorem gap_below (start name : String) (report : Report) :
    (report.below name).gap start = report.gap (extendPath start name) := by
  cases report <;> rfl

theorem covers_below (name : String) (report : Report) (rest : List String) :
    (report.below name).covers (name :: rest) = report.covers rest := by
  cases report <;> simp [below, covers]

theorem leafState_below (name : String) (report : Report) :
    (report.below name).leafState = report.leafState := by
  cases report <;> rfl

theorem exists_of_covers_below {report : Report} {leaf}
    (covered : (report.below name).covers leaf = true) : ∃ rest, leaf = name :: rest := by
  cases report with
  | missing path => exact ⟨path, by simpa [below, covers] using covered⟩
  | consumed path moved =>
    obtain ⟨rest, rfl⟩ := isPrefixOf_iff_prefix.mp covered
    exact ⟨path ++ rest, rfl⟩

end Report

/-- Reports account for the leaves that are not defined: what they say of leaves is true,
and together they cover these leaves, one after the other in the order of declaration. -/
structure Accounts (shape : Shape) (state : List String → LeafState) (reports : List Report) :
    Prop where
  holds : ∀ report ∈ reports, ∀ leaf ∈ shape.leaves, report.covers leaf = true →
    state leaf = report.leafState
  useful : ∀ report ∈ reports, ∃ leaf ∈ shape.leaves, report.covers leaf = true
  ordered : reports.flatMap (fun report => shape.leaves.filter report.covers) =
    shape.leaves.filter fun leaf => state leaf ≠ .defined

namespace Accounts

variable {shape : Shape} {state : List String → LeafState}
variable {leaf : List String}

theorem congr {other : List String → LeafState} (accounts : Accounts shape state reports)
    (same : ∀ leaf ∈ shape.leaves, other leaf = state leaf) : Accounts shape other reports where
  holds := fun report listed leaf mem covers =>
    (same leaf mem).trans (accounts.holds report listed leaf mem covers)
  useful := accounts.useful
  ordered := by
    rw [accounts.ordered]
    exact filter_congr fun leaf mem => by rw [same leaf mem]

theorem count_filter_leaves (distinct : shape.Distinct) (mem : leaf ∈ shape.leaves)
    (selects : List String → Bool) :
    (shape.leaves.filter selects).count leaf = if selects leaf then 1 else 0 := by
  by_cases selected : selects leaf = true
  · rw [count_filter selected, if_pos selected]
    exact count_eq_one_of_mem (nodup_leaves distinct) mem
  · rw [if_neg selected]
    exact count_eq_zero_of_not_mem fun listed => selected (mem_filter.mp listed).2

theorem count_flatMap_leaves (distinct : shape.Distinct) (mem : leaf ∈ shape.leaves)
    (reports : List Report) :
    (reports.flatMap fun report => shape.leaves.filter report.covers).count leaf =
      reports.countP fun report => report.covers leaf := by
  induction reports with
  | nil => rfl
  | cons report reports ih =>
    rw [flatMap_cons, count_append, ih, count_filter_leaves distinct mem, countP_cons, Nat.add_comm]

theorem countP_covers (accounts : Accounts shape state reports) (distinct : shape.Distinct)
    (mem : leaf ∈ shape.leaves) :
    reports.countP (fun report => report.covers leaf) = if state leaf = .defined then 0 else 1 := by
  rw [← count_flatMap_leaves distinct mem, accounts.ordered, count_filter_leaves distinct mem]
  simp

/-- The leaves that were never defined are the missing ones. -/
theorem missing_mem_iff (accounts : Accounts shape state reports) (distinct : shape.Distinct) :
    .missing leaf ∈ reports ↔ leaf ∈ shape.leaves ∧ state leaf = .undefined := by
  constructor
  · intro listed
    obtain ⟨covered, mem, covers⟩ := accounts.useful _ listed
    obtain rfl : covered = leaf := by simpa [Report.covers] using covers
    exact ⟨mem, accounts.holds _ listed _ mem covers⟩
  · rintro ⟨mem, undefined⟩
    have once := accounts.countP_covers distinct mem
    rw [undefined, if_neg (by simp)] at once
    obtain ⟨report, listed, covers⟩ := countP_pos_iff.mp (by rw [once]; exact Nat.one_pos)
    have state_eq := accounts.holds report listed leaf mem covers
    cases report with
    | missing path =>
      obtain rfl : leaf = path := by simpa [Report.covers] using covers
      exact listed
    | consumed path moved =>
      rw [undefined] at state_eq
      cases state_eq

end Accounts

/-! ## The reports of a part -/

variable {shape : Shape} {state : List String → LeafState}

theorem accounts_nil (defined : ∀ leaf ∈ shape.leaves, state leaf = .defined) :
    Accounts shape state [] where
  holds := nofun
  useful := nofun
  ordered := by
    rw [flatMap_nil, eq_comm, filter_eq_nil_iff]
    intro leaf mem
    simp [defined leaf mem]

theorem accounts_consumed (consumed : ∀ leaf ∈ shape.leaves, state leaf = .consumed)
    (moved : Span) : Accounts shape state [.consumed [] moved] where
  holds := by
    intro report listed leaf mem _
    obtain rfl := mem_singleton.mp listed
    exact consumed leaf mem
  useful := by
    intro report listed
    obtain rfl := mem_singleton.mp listed
    obtain ⟨leaf, mem⟩ := exists_mem_of_ne_nil _ (leaves_ne_nil shape)
    exact ⟨leaf, mem, rfl⟩
  ordered := by
    rw [flatMap_singleton]
    exact filter_congr fun leaf mem => by simp [Report.covers, consumed leaf mem]

theorem accounts_missing (distinct : shape.Distinct)
    (undefined : ∀ leaf ∈ shape.leaves, state leaf = .undefined) :
    Accounts shape state (shape.leaves.map .missing) where
  holds := by
    intro report listed leaf mem _
    obtain ⟨_, -, rfl⟩ := mem_map.mp listed
    exact undefined leaf mem
  useful := by
    intro report listed
    obtain ⟨leaf, mem, rfl⟩ := mem_map.mp listed
    exact ⟨leaf, mem, by simp [Report.covers]⟩
  ordered := by
    have itself : ∀ leaf ∈ shape.leaves,
        shape.leaves.filter (Report.missing leaf).covers = [leaf] := by
      intro leaf mem
      have once := count_eq_one_of_mem (nodup_leaves distinct) mem
      have filtered := filter_eq (l := shape.leaves) leaf
      rw [once] at filtered
      exact filtered
    rw [flatMap_map, flatMap_congr itself, flatMap_singleton', eq_comm, filter_eq_self]
    intro leaf mem
    simp [undefined leaf mem]

/-- The reports of a split part are those of its fields. -/
theorem accounts_fields (distinct : shape.Distinct) (hasFields : shape.fields ≠ [])
    (reports : String × Shape → List Report) (accounts : ∀ field ∈ shape.fields,
      Accounts field.2 (fun rest => state (field.1 :: rest)) (reports field)) :
    Accounts shape state
      (shape.fields.flatMap fun field => (reports field).map (Report.below field.1)) where
  holds := by
    intro report listed leaf mem covers
    obtain ⟨field, isField, ofField⟩ := mem_flatMap.mp listed
    obtain ⟨report, inField, rfl⟩ := mem_map.mp ofField
    obtain ⟨rest, rfl⟩ := Report.exists_of_covers_below covers
    rw [Report.covers_below] at covers
    obtain ⟨part, isPart, inPart⟩ := cons_mem_leaves.mp mem
    have found := distinct.field?_eq_some_iff.mpr isField
    rw [distinct.field?_eq_some_iff.mpr isPart] at found
    obtain rfl := Option.some.inj found
    rw [Report.leafState_below]
    exact (accounts field isField).holds report inField rest inPart covers
  useful := by
    intro report listed
    obtain ⟨field, isField, ofField⟩ := mem_flatMap.mp listed
    obtain ⟨report, inField, rfl⟩ := mem_map.mp ofField
    obtain ⟨rest, mem, covers⟩ := (accounts field isField).useful report inField
    refine ⟨field.1 :: rest, cons_mem_leaves.mpr ⟨field.2, isField, mem⟩, ?_⟩
    rw [Report.covers_below, covers]
  ordered := by
    rw [flatMap_assoc, leaves_of_fields hasFields, filter_flatMap]
    refine flatMap_congr fun field isField => ?_
    have covered : ∀ report ∈ reports field, shape.leaves.filter (report.below field.1).covers =
          (field.2.leaves.filter report.covers).map (field.1 :: ·) := by
      intro report _
      rw [filter_leaves distinct isField fun _ => Report.exists_of_covers_below]
      simp only [Report.covers_below]
    rw [← leaves_of_fields hasFields, flatMap_map, flatMap_congr covered,
      ← map_flatMap, (accounts field isField).ordered, filter_map]
    rfl

namespace Arena

variable {arena : Arena}

theorem childGaps_eq (children : List (String × Tree)) (start : String) :
    Tree.childGaps children start =
      children.map fun child => (child.1, child.2.gaps (extendPath start child.1)) := by
  induction children with
  | nil => rfl
  | cons child children ih =>
    rw [Tree.childGaps, map_cons, ih]

/-- The gaps of a split part are those of its fields. -/
theorem Formed.gaps_of_split (formed : arena.Formed) {id} (start : String)
    (unusable : (arena.node id).composable = false) (hasChildren : (arena.node id).children ≠ [])
    {childOf : String × Shape → NodeId} (found : ∀ field ∈ (arena.node id).shape.fields,
      arena.child? id field.1 = some (childOf field)) :
    (arena.tree id).gaps start = (arena.node id).shape.fields.flatMap fun field =>
      (arena.tree (childOf field)).gaps (extendPath start field.1) := by
  rw [tree_eq (formed id).children, Tree.gaps, unusable, (formed id).split hasChildren,
    if_neg (by simp),
    if_neg (by simpa using hasChildren), childGaps_eq, map_map]
  refine flatMap_congr fun field isField => ?_
  rw [Function.comp_def, lookup_map fun name child =>
    (arena.tree child).gaps (extendPath start name)]
  have lookup_eq := found field isField
  rw [child?] at lookup_eq
  rw [lookup_eq]
  rfl

/-- The gaps of a part account for its leaves. -/
theorem Formed.exists_accounts {arena : Arena} (formed : arena.Formed)
    (complete : arena.Complete fun _ => False) (id : NodeId) (start : String) :
    ∃ reports : List Report, (arena.tree id).gaps start = reports.map (Report.gap start) ∧
      Accounts (arena.node id).shape (arena.leafState id) reports := by
  by_cases composable : (arena.node id).composable = true
  · refine ⟨[], ?_, accounts_nil ((formed.isComposable_iff complete id).mp composable)⟩
    rw [tree_eq (formed id).children, Tree.gaps, if_pos composable]
    rfl
  by_cases hasChildren : (arena.node id).children ≠ []
  · have exists_child : ∀ field, ∃ child, field ∈ (arena.node id).shape.fields →
        arena.child? id field.1 = some child ∧ (arena.node child).shape = field.2 := by
      intro field
      by_cases isField : field ∈ (arena.node id).shape.fields
      · obtain ⟨child, found⟩ := formed.exists_child hasChildren isField
        exact ⟨child, fun _ => found⟩
      · exact ⟨id, fun listed => absurd listed isField⟩
    choose childOf found using exists_child
    have exists_reports : ∀ field, ∃ reports, field ∈ (arena.node id).shape.fields →
        (arena.tree (childOf field)).gaps (extendPath start field.1) =
            reports.map (Report.gap (extendPath start field.1)) ∧
          Accounts field.2 (fun rest => arena.leafState id (field.1 :: rest)) reports := by
      intro field
      by_cases isField : field ∈ (arena.node id).shape.fields
      · obtain ⟨isChild, shape_eq⟩ := found field isField
        obtain ⟨reports, gaps_eq, accounts⟩ := Formed.exists_accounts formed complete
          (childOf field) (extendPath start field.1)
        refine ⟨reports, fun _ => ⟨gaps_eq, ?_⟩⟩
        rw [← shape_eq]
        simpa only [leafState_cons isChild] using accounts
      · exact ⟨[], fun listed => absurd listed isField⟩
    choose reports reported using exists_reports
    have hasFields : (arena.node id).shape.fields ≠ [] := fun isLeaf =>
      hasChildren (formed.uniform_of_isLeaf isLeaf)
    refine ⟨_, ?_, accounts_fields (formed id).distinct hasFields reports
      fun field isField => (reported field isField).2⟩
    rw [formed.gaps_of_split start (by simpa using composable) hasChildren
      (fun field isField => (found field isField).1), map_flatMap]
    refine flatMap_congr fun field isField => ?_
    rw [(reported field isField).1, map_map]
    refine map_congr_left fun report _ => ?_
    exact (report.gap_below start field.1).symm
  · have uniform := not_not.mp hasChildren
    have state_eq : ∀ leaf ∈ (arena.node id).shape.leaves,
        arena.leafState id leaf = (arena.node id).leafState := fun leaf _ =>
      leafState_of_uniform uniform
    rw [tree_eq (formed id).children, Tree.gaps, if_neg composable]
    cases consumed : (arena.node id).consumedAt with
    | some moved =>
      refine ⟨[.consumed [] moved], rfl, accounts_consumed (fun leaf mem => ?_) moved⟩
      rw [state_eq leaf mem, State.leafState, if_neg composable, consumed]
      rfl
    | none =>
      refine ⟨(arena.node id).shape.leaves.map .missing, ?_,
        accounts_missing (formed id).distinct fun leaf mem => ?_⟩
      · rw [uniform]
        show ((arena.node id).shape.leafPaths start).map Gap.missing = _
        rw [leafPaths_eq, map_map, map_map]
        rfl
      · rw [state_eq leaf mem, State.leafState, if_neg composable, consumed]
        rfl
termination_by arena.nodes.size - id
decreasing_by
  exact Nat.sub_lt_sub_left
    (Nat.lt_trans (formed.isChild isChild).after (formed.isChild isChild).inside)
    (formed.isChild isChild).after

end Arena
end Ownership
end StructWasm

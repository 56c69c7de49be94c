import StructWasm.Proofs.Lowering.Custody

/-!
# Slots of variables

A structure variable holds a slot from its declaration to the end of its block,
where the slots of all variables of the block are given back.
-/

namespace StructWasm.Lowering

open List

/-- The slots that a variable holds. -/
def Binding.slots : Binding → List Frame.Allocation
  | .struct entry => entry.slot?.toList
  | .scalar _ _ => []

/-- The slots that the variables of a scope hold, the latest first. -/
def slotsOf (scope : Scope) : List Frame.Allocation :=
  scope.flatMap fun entry => entry.2.slots

@[simp] theorem slotsOf_nil : slotsOf [] = [] :=
  rfl

@[simp] theorem slotsOf_cons (entry : String × Binding) (scope : Scope) :
    slotsOf (entry :: scope) = entry.2.slots ++ slotsOf scope :=
  rfl

@[simp] theorem slotsOf_append (first second : Scope) :
    slotsOf (first ++ second) = slotsOf first ++ slotsOf second :=
  flatMap_append

variable {related : Ownership.NodeId → Ownership.NodeId → Prop}

theorem SameBinding.slots_eq (same : SameBinding related first second) :
    second.slots = first.slots := by
  cases same with
  | scalar type place => rfl
  | struct entry node _ => rfl

theorem slotsOf_eq_of_same (same : List.Forall₂ (SameEntry related) first second) :
    slotsOf second = slotsOf first := by
  induction same with
  | nil => rfl
  | cons head _ ih =>
    rw [slotsOf_cons, slotsOf_cons, ih, head.2.slots_eq]

theorem names_eq_of_same (same : List.Forall₂ (SameEntry related) first second) :
    second.map Prod.fst = first.map Prod.fst := by
  induction same with
  | nil => rfl
  | cons head _ ih => rw [map_cons, map_cons, ih, head.1]

variable {ctx : Context} {origin work next : Workspace} {reason : Prop}
variable {slots : List Frame.Allocation}

/-- Since a moment some names were entered in the innermost scope, and the slots that
came are those of the names and some others. -/
structure Declares (origin work : Workspace) (entries : Scope) (slots : List Frame.Allocation) :
    Prop where
  custody : origin.frame.Custody work.frame (slotsOf entries ++ slots)
  leads : origin.arena.Leads work.arena
  scopes : ∃ scope outer, work.scopes = (entries ++ scope) :: outer ∧
    SameScopes (Lending origin.arena work.arena) origin.scopes (scope :: outer)

theorem SameScopes.ne_nil (same : SameScopes related first second)
    (nonempty : first ≠ []) : second ≠ [] := by
  rintro rfl
  cases same
  exact nonempty rfl

theorem Stands.declares (stands : Stands origin work slots) (nonempty : origin.scopes ≠ []) :
    Declares origin work [] slots := by
  refine ⟨stands.custody, stands.leads, ?_⟩
  cases scopes_eq : work.scopes with
  | nil => exact absurd scopes_eq (stands.scopes.ne_nil nonempty)
  | cons scope outer => exact ⟨scope, outer, rfl, scopes_eq ▸ stands.scopes⟩

/-- Names that were entered stay entered. -/
theorem Declares.trans (first : Declares origin mid entries [])
    (second : Declares mid work others slots) :
    ∃ kept, Declares origin work (others ++ kept) slots ∧ slotsOf kept = slotsOf entries ∧
      kept.map Prod.fst = entries.map Prod.fst := by
  obtain ⟨scope, outer, middle_eq, same⟩ := first.scopes
  obtain ⟨laterScope, laterOuter, work_eq, sameLater⟩ := second.scopes
  rw [middle_eq] at sameLater
  cases sameLater with
  | cons headSame outerSame =>
    obtain ⟨kept, rest, keptSame, restSame, rfl⟩ : ∃ kept rest,
        List.Forall₂ (SameEntry (Lending mid.arena work.arena)) entries kept ∧
          List.Forall₂ (SameEntry (Lending mid.arena work.arena)) scope rest ∧
          laterScope = kept ++ rest := by
      have taken := forall₂_take_append _ _ _ headSame.flip
      have dropped := forall₂_drop_append _ _ _ headSame.flip
      exact ⟨_, _, taken.flip, dropped.flip, (take_append_drop _ _).symm⟩
    refine ⟨kept, ⟨?_, first.leads.trans second.leads, rest, laterOuter, ?_, ?_⟩,
      slotsOf_eq_of_same keptSame, names_eq_of_same keptSame⟩
    · refine (first.custody.trans second.custody).perm ?_
      rw [slotsOf_append, slotsOf_eq_of_same keptSame, append_nil]
      refine (perm_append_comm_assoc _ _ _).trans ?_
      rw [append_assoc]
    · rw [work_eq, append_assoc]
    · exact same.trans (.cons restSame outerSame)

/-! ## Declarations -/

section

variable (stands : Stands origin work slots)
include stands

theorem meets_declare (nonempty : origin.scopes ≠ []) (name : String)
    (slots_eq : binding.slots = slots) : Meets ctx work (declare name binding)
      (fun _ next => Declares origin next [(name, binding)] []) reason where
  ends := fun _ next runs => by
    obtain rfl := runs_declare.mp runs
    refine ⟨?_, stands.leads, ?_⟩
    · rw [slotsOf_cons, slots_eq, slotsOf_nil, append_nil, append_nil]
      exact stands.custody
    · obtain ⟨-, -, scope, outer, scopes_eq, same⟩ := stands.declares nonempty
      exact ⟨scope, outer, by rw [scopes_eq]; rfl, same⟩
  stops := fun cause stops => by simp [declare] at stops

theorem meets_allocateLocal (type : Wasm.ValType) :
    Meets ctx work (allocateLocal type) (fun _ next => Stands origin next slots) reason where
  ends := fun place next runs => by
    obtain ⟨locals, -, rfl⟩ := runs_allocateLocal.mp runs
    exact ⟨stands.custody, stands.leads, stands.scopes⟩
  stops := fun cause stops => by
    exact ((failsPlainly_allocateLocal _ _).notOfFrame _ (stops_allocateLocal.mp stops)).elim

theorem meets_freeLocal (place : LocalRef) :
    Meets ctx work (freeLocal place) (fun _ next => Stands origin next slots) reason where
  ends := fun _ next runs => by
    obtain ⟨locals, -, rfl⟩ := runs_freeLocal.mp runs
    exact ⟨stands.custody, stands.leads, stands.scopes⟩
  stops := fun cause stops => by
    exact ((failsPlainly_freeLocal _ _).notOfFrame _ (stops_freeLocal.mp stops)).elim

end

theorem meets_declareEmpty (aligned : ctx.layouts.Aligned) (proper : work.frame.Proper)
    (nonempty : work.scopes ≠ []) (span : Span) (name : Ident) (type : Option TypeNote) :
    Meets ctx work (declareEmpty span name type)
      (fun _ next => ∃ entries, Declares work next entries [] ∧
        entries.map Prod.fst ⊆ [name.name]) reason := by
  unfold declareEmpty
  cases type with
  | none => exact .fail _ span
  | some note =>
    have stands := Stands.refl proper
    refine .bind ((onOwnership_resolveType note).meets stands) fun type _ _ stands => ?_
    split
    · refine .bind (meets_allocateStruct aligned stands type) fun place _ _ stands => ?_
      refine .bind ((onOwnership_newValue _ _).meets stands) fun node _ _ stands => ?_
      exact Meets.ensure (meets_declare stands nonempty name.name rfl)
        fun _ _ declares => ⟨_, declares, List.Subset.refl _⟩
    · exact .fail _ span

/-- A variable takes over the slot that its initial value holds. -/
theorem meets_declareValue (aligned : ctx.layouts.Aligned)
    (stands : Stands origin work value.slots) (nonempty : origin.scopes ≠ []) (span : Span)
    (name : Ident) (valueSpan : Span) : Meets ctx work (declareValue span name value valueSpan)
      (fun _ next => ∃ entries, Declares origin next entries [] ∧
        entries.map Prod.fst ⊆ [name.name]) reason := by
  unfold declareValue
  cases value with
  | never => exact .pure ⟨[], stands.declares nonempty, nil_subset _⟩
  | nothing => exact .fail _ valueSpan
  | scalar type =>
    refine .bind (meets_allocateLocal stands type.valType) fun place _ _ stands => ?_
    refine .bind (meets_declare stands nonempty name.name rfl) ?_
    exact fun _ _ _ declares => .pure ⟨_, declares, List.Subset.refl _⟩
  | struct held =>
    have held_eq : Stands origin work (held.slots ++ []) := by
      rw [append_nil]
      exact stands
    refine .bind (meets_materialize aligned held_eq valueSpan) fun made _ _ stands => ?_
    refine .bind ((onOwnership_newValue _ _).meets stands) fun node _ _ stands => ?_
    refine .bind ((onOwnership_define _ span).meets stands) fun _ _ _ stands => ?_
    refine .bind (meets_declare stands nonempty name.name rfl) ?_
    exact fun _ _ _ declares => .pure ⟨_, declares, List.Subset.refl _⟩

/-! ## Blocks -/

theorem meets_releaseBinding (stands : Stands origin work (binding.slots ++ slots)) :
    Meets ctx work (releaseBinding binding) (fun _ next => Stands origin next slots)
      reason := by
  unfold releaseBinding
  cases binding with
  | scalar type place =>
    dsimp only
    split
    · exact .pure stands
    · exact meets_freeLocal stands place
  | struct entry =>
    obtain ⟨type, address, node, slot?⟩ := entry
    cases slot? with
    | none => exact .pure stands
    | some slot => exact meets_release stands

theorem meets_forM_releaseBinding (scope : Scope)
    (stands : Stands origin work (slotsOf scope ++ slots)) :
    Meets ctx work (scope.forM fun (_, binding) => releaseBinding binding)
      (fun _ next => Stands origin next slots) reason := by
  induction scope generalizing work with
  | nil => exact .pure stands
  | cons entry scope ih =>
    rw [slotsOf_cons, append_assoc] at stands
    refine .bind (meets_releaseBinding stands) ?_
    exact fun _ mid _ stands => ih stands

theorem meets_popScope (custody : origin.frame.Custody work.frame (slotsOf scope ++ slots))
    (leads : origin.arena.Leads work.arena) (scopes_eq : work.scopes = scope :: outer)
    (same : SameScopes (Lending origin.arena work.arena) origin.scopes outer) :
    Meets ctx work popScope (fun _ next => Stands origin next slots) reason := by
  have popped : Stands origin { work with scopes := outer } (slotsOf scope ++ slots) :=
    ⟨custody, leads, same⟩
  have releases : Meets ctx { work with scopes := outer }
      (scope.forM fun (_, binding) => releaseBinding binding)
      (fun _ next => Stands origin next slots) reason :=
    meets_forM_releaseBinding scope popped
  constructor
  · intro value next runs
    simp only [popScope, runs_bind, runs_get, runs_set] at runs
    obtain ⟨_, _, ⟨rfl, rfl⟩, _, _, rfl, runs⟩ := runs
    rw [scopes_eq] at runs
    exact releases.ends runs
  · intro cause stops
    simp only [popScope, stops_bind, not_stops_get, runs_get, not_stops_set, runs_set,
      false_or] at stops
    obtain ⟨_, _, ⟨rfl, rfl⟩, _, _, rfl, stops⟩ := stops
    rw [scopes_eq] at stops
    exact releases.stops stops

end StructWasm.Lowering

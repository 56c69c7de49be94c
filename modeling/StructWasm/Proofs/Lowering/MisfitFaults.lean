import StructWasm.Proofs.Lowering.FrameFaults
import StructWasm.Proofs.Lowering.Passage

/-!
# Misfits stop lowering

A choice whose arms do not fit is always refused by the frame. So the frame stops
lowering a part exactly if lowering comes to such a choice.
-/

namespace StructWasm.Lowering

open List Meets

variable {ctx : Context} {work mid next : Workspace}

/-! ## States in which parts are lowered -/

/-- The frame is in order, and statements have a scope to declare variables in. -/
def Part.Ready (work : Workspace) : Part → Prop
  | .statements _ => work.frame.Proper ∧ work.scopes ≠ []
  | .statement _ => work.frame.Proper ∧ work.scopes ≠ []
  | _ => work.frame.Proper

variable {part : Part} {α : Type}

theorem Part.Ready.proper (ready : part.Ready work) : work.frame.Proper := by
  cases part
  case statements => exact ready.1
  case statement => exact ready.1
  all_goals exact ready

/-- Structure variables are still known, unless their names were declared in between. What
was lent still is, and variables hold the slots that they held and slots that came. -/
structure Sees (names : List String) (work next : Workspace) : Prop where
  leads : work.arena.Leads next.arena
  finds : ∀ ⦃name entry⦄, name ∉ names → lookup? work.scopes name = some (.struct entry) →
    ∃ node, lookup? next.scopes name = some (.struct { entry with node }) ∧
      Lending work.arena next.arena entry.node node
  holds : ∃ entries slots, entries.map Prod.fst ⊆ names ∧
    work.frame.Entrusts next.frame (slotsOf entries ++ slots) ∧
    slotsOf next.scopes.flatten = slotsOf entries ++ slotsOf work.scopes.flatten

theorem Sees.trans (first : Sees names work mid)
    (second : Sees others mid next) : Sees (others ++ names) work next := by
  refine ⟨first.leads.trans second.leads, ?_, ?_⟩
  · intro name entry fresh found
    rw [mem_append, not_or] at fresh
    obtain ⟨_, foundThere, lending⟩ := first.finds fresh.2 found
    obtain ⟨node, foundLast, lendingOn⟩ := second.finds fresh.1 foundThere
    exact ⟨node, foundLast, fun lent => lendingOn (lending lent)⟩
  · obtain ⟨entries, slots, named, entrusts, slots_eq⟩ := first.holds
    obtain ⟨later, more, laterNamed, entrustsMore, more_eq⟩ := second.holds
    refine ⟨later ++ entries, slots ++ more, ?_, (entrusts.trans entrustsMore).perm ?_, ?_⟩
    · rw [map_append]
      exact append_subset.mpr
        ⟨subset_append_of_subset_left _ laterNamed, subset_append_of_subset_right _ named⟩
    · rw [perm_iff_count]
      intro slot
      simp only [slotsOf_append, count_append]
      omega
    · rw [more_eq, slots_eq, slotsOf_append, append_assoc]

theorem Meets.stands {slots : α → List Frame.Allocation}
    (meets : Meets ctx work step (fun result next => Stands origin next (slots result)) True)
    (runs : Runs step ctx work value next) : Stands origin next (slots value) :=
  meets.ends runs

theorem Emit.OnOwnership.stands (onOwnership : Emit.OnOwnership step)
    (stands : Stands origin work slots) (runs : Runs step ctx work value next) :
    Stands origin next slots :=
  Meets.stands (onOwnership.meets stands) runs

theorem slotsOf_flatten (same : SameScopes related first second) :
    slotsOf second.flatten = slotsOf first.flatten :=
  slotsOf_eq_of_same (rel_flatten same)

theorem sees_of_same (entrusts : work.frame.Entrusts next.frame slots)
    (leads : work.arena.Leads next.arena)
    (same : SameScopes (Lending work.arena next.arena) work.scopes next.scopes) :
    Sees [] work next :=
  ⟨leads, fun _ _ _ found => same.lookup?_eq found,
    [], slots, nil_subset _, entrusts, slotsOf_flatten same⟩

theorem Stands.follows (stands : Stands work next slots) : next.frame.Proper ∧ Sees [] work next :=
  ⟨stands.proper, sees_of_same stands.custody.toEntrusts stands.leads stands.scopes⟩

theorem InBranch.follows {id arms outside inside}
    (inBranch : InBranch work next id arms outside inside) :
    next.frame.Proper ∧ Sees [] work next := by
  obtain ⟨outer, custody, branched⟩ := inBranch.branched
  exact ⟨branched.proper, sees_of_same (custody.toEntrusts.trans branched.toEntrusts)
    inBranch.leads inBranch.scopes⟩

theorem Declares.sees (declares : Declares work next entries [])
    (named : entries.map Prod.fst ⊆ names) : Sees names work next := by
  obtain ⟨scope, outer, scopes_eq, same⟩ := declares.scopes
  refine ⟨declares.leads, ?_, entries, [], named, declares.custody.toEntrusts, ?_⟩
  · intro name entry fresh found
    have missing : entries.lookup name = none := by
      rw [lookup_eq_none_iff]
      intro known mem
      rw [bne_iff_ne]
      rintro rfl
      exact fresh (named (mem_map_of_mem mem))
    obtain ⟨node, foundThere, lending⟩ := same.lookup?_eq found
    refine ⟨node, ?_, lending⟩
    rw [scopes_eq]
    unfold lookup? at foundThere ⊢
    rwa [findSome?_cons, lookup_append, missing, Option.none_or, ← findSome?_cons]
  · rw [scopes_eq, ← slotsOf_flatten same, flatten_cons, flatten_cons, append_assoc, slotsOf_append]

/-- The names that are declared between a part and a part inside it. -/
def Part.namesBefore : Part → Part → List String
  | .statements (first :: _), .statements _ => first.declared
  | .block source _, .tail _ _ => source.statements.flatMap Stmt.declared
  | _, _ => []

variable (aligned : ctx.layouts.Aligned)
include aligned

variable {choice : Choice}

theorem entered_of_runs (proper : work.frame.Proper)
    (enters : Runs (enterChoice choice want) ctx work entry entered) : Entered work entry entered :=
  (meets_enterChoice aligned (fits_lowerExpr aligned choice.condition proper) want).ends enters

theorem stands_of_lowerFirst (proper : entered.frame.Proper)
    (lowers : Runs (lowerFirst choice entry) ctx entered result lowered) :
    Stands entered lowered result.2.slots :=
  (meets_lowerFirst (fits_lowerBlock aligned choice.thenBlock proper)).ends lowers

theorem finishedFirst_of_runs (proper : work.frame.Proper)
    (enters : Runs (enterChoice choice want) ctx work entry entered)
    (finishes : Runs (finishFirst choice entry) ctx entered arm started) :
    FinishedFirst work entry arm started := by
  have isEntered := entered_of_runs aligned proper enters
  have lowers := (fits_lowerBlock aligned choice.thenBlock isEntered.inBranch.proper).weaken
    (Calls.firstArm enters).clash
  exact (meets_finishFirst aligned enters isEntered (meets_lowerFirst lowers)).ends finishes

/-- Parts are lowered in states that are ready for them, and see the variables outside. -/
theorem Calls.follows {inner} (calls : Calls ctx (part, work) (inner, mid))
    (ready : part.Ready work) : inner.Ready mid ∧ Sees (part.namesBefore inner) work mid := by
  have proper := ready.proper
  have here := Stands.refl proper
  cases calls with
  | literal finds allocates =>
    have found := (onOwnership_literalLayout _ _ _).stands here finds
    exact (stands (meets_allocateStruct aligned found _) allocates).follows
  | call asks allocates =>
    have asked := stands (meets_requestCallee here _ _) asks
    exact (stands (meets_resultSlot aligned asked _) allocates).follows
  | logicalRight logical decides checks forks =>
    have decided := (fits_lowerExpr aligned _ proper).ends decides
    obtain ⟨-, rfl⟩ := runs_expectScalar.mp checks
    have forked := (meets_fork decided none : Meets ctx _ _ _ True).ends forks
    exact forked.2.2.follows
  | operandLeft numeric hints =>
    exact ((onOwnership_operandHint _ _ _ _).stands here hints).follows
  | operandRight numeric hints computes checks =>
    have hinted := (onOwnership_operandHint _ _ _ _).stands here hints
    have computed := (fits_lowerExpr aligned _ hinted.proper).ends computes
    exact ((onOwnership_operandType _ _ _).stands (hinted.trans computed) checks).follows
  | negate notLiteral hints =>
    exact ((onOwnership_negationHint _ _).stands here hints).follows
  | @fieldRest _ _ _ _ _ _ _ _ value field known advances stores =>
    have lowers : Meets ctx work (lowerExpr value (some field.type))
        (fun result next => Stands work next (result.2.slots ++ [])) True :=
      here.continue (fits_lowerExpr aligned value proper) fun _ => trivial
    exact (stands (meets_storeInto lowers _ _) stores).follows
  | argumentRest computes passes =>
    have computed := (fits_lowerExpr aligned _ proper).ends computes
    exact ((onOwnership_passArgument _ _ _).stands computed passes).follows
  | firstArm enters => exact (entered_of_runs aligned proper enters).inBranch.follows
  | secondArm enters finishes =>
    obtain ⟨new, inBranch, -⟩ := (finishedFirst_of_runs aligned proper enters finishes).inBranch
    exact inBranch.follows
  | blockStatements opens =>
    obtain rfl := runs_pushScope.mp opens
    exact ⟨⟨proper, nofun⟩, here.leads, here.follows.2.finds, here.follows.2.holds⟩
  | @blockTail _ _ _ _ _ block opens lowers =>
    obtain rfl := runs_pushScope.mp opens
    have fits : FlowFits ctx { work with scopes := [] :: work.scopes }
        (.statements block.statements) (block.statements.flatMap Stmt.declared)
        (lowerStatements block.statements) :=
      fits_lowerStatements aligned block.statements proper nofun
    obtain ⟨entries, declares, named⟩ := fits.ends lowers
    have sees := declares.sees named
    exact ⟨declares.custody.proper, sees.leads, sees.finds, sees.holds⟩
  | statement => exact ⟨ready, here.follows.2⟩
  | statementRest lowers =>
    obtain ⟨entries, declares, named⟩ := (fits_lowerStatement aligned _ proper ready.2).ends lowers
    exact ⟨⟨declares.custody.proper, declares.scopes_ne_nil⟩, declares.sees named⟩
  | initial resolves =>
    exact ((onOwnership_mapM_resolveType _).stands here resolves).follows
  | assigned finds => exact ((onOwnership_assignmentTarget _ _).stands here finds).follows
  | guard enters =>
    exact ((meets_enterLoop proper : Meets ctx _ _ _ True).ends enters).inBranch.follows
  | round enters decides =>
    have inLoop := (meets_enterLoop proper : Meets ctx _ _ _ True).ends enters
    exact ((meets_lowerGuard inLoop
      (fits_lowerExpr aligned _ inLoop.inBranch.proper)).ends decides).inBranch.follows
  | _ => exact here.follows

theorem Reaches.ready {start inner} (reaches : Reaches ctx start inner)
    (ready : start.1.Ready start.2) : inner.1.Ready inner.2 := by
  induction reaches with
  | refl => exact ready
  | tail _ calls ih => exact (calls.follows aligned ih).1

/-! ## Misfits are refused -/

theorem stands_of_materialize {held span made moved} (stands : Stands origin lowered held.slots)
    (moves : Runs (materialize held span) ctx lowered made moved) :
    Stands origin moved [made.2.slot] := by
  rw [← append_nil held.slots] at stands
  exact (meets_materialize aligned stands span : Meets ctx lowered _ _ True).ends moves

/-- A fault of arms that do not fit. -/
def IsMisfit : Frame.Error → Prop
  | .aliasSizeMismatch _ _ _ _ => True
  | .unresolvedBranchSlot _ _ => True
  | _ => False

omit aligned in
theorem stops_shareSlot (stands : Stands origin work [temp.slot])
    (held : origin.frame.Held result.1) (differ : temp.slot.size ≠ result.1.size) :
    ∃ cause, IsMisfit cause ∧ Stops (shareSlot temp result) ctx work (.frame cause) := by
  have ne : result.1.id ≠ temp.slot.id := by
    have came := stands.custody.came temp.slot mem_cons_self
    exact Nat.ne_of_lt (Nat.lt_of_lt_of_le held.lt_size came)
  have refused := Frame.Allocator.makeAlias_of_held stands.proper.recorded.isOpen
    (stands.custody.held _ mem_cons_self) (stands.custody.stays held) ne
  rw [if_neg differ] at refused
  exact ⟨.aliasSizeMismatch _ _ _ _, trivial, Stops.first (stops_updateFrame.mpr ⟨_, refused, rfl⟩)⟩

/-- The frame refuses a choice whose arms do not fit. -/
theorem Misfit.stops (misfit : Misfit ctx choice want work) (proper : work.frame.Proper) :
    ∃ cause, IsMisfit cause ∧ Stops (lowerChoice choice want) ctx work (.frame cause) := by
  rw [lowerChoice_eq]
  cases misfit with
  | @first entry held _ result _ _ entered lowered _ enters lowers moves slot_eq differ =>
    have isEntered := entered_of_runs aligned proper enters
    have stands := stands_of_lowerFirst aligned isEntered.inBranch.proper lowers
    have resultHeld : entered.frame.Held result.1 :=
      isEntered.inBranch.held (by simp [resultSlots, slot_eq])
    obtain ⟨cause, isMisfit, refused⟩ := stops_shareSlot
      (stands_of_materialize aligned stands moves) resultHeld differ
    have settling : Stops (settleFirst (.struct held) entry.slot? choice.thenBlock.span) ctx
        lowered (.frame cause) := by
      rw [slot_eq]
      exact stops_after moves refused.first
    have finishing : Stops (finishFirst choice entry) ctx entered (.frame cause) :=
      stops_after lowers settling.first
    exact ⟨cause, isMisfit, stops_after enters finishing.first⟩
  | @second entry arm held _ result _ _ _ started lowered _ enters finishes lowers moves slot_eq
      differ =>
      have isFinished := finishedFirst_of_runs aligned proper enters finishes
      obtain ⟨new, inBranch, slots_eq⟩ := isFinished.inBranch
      have stands := (fits_lowerAlternative aligned choice.otherwise inBranch.proper).ends lowers
      have resultHeld : started.frame.Held result.1 :=
        inBranch.held (slots_eq ▸ by simp [resultSlots, slot_eq])
      obtain ⟨cause, isMisfit, refused⟩ := stops_shareSlot
        (stands_of_materialize aligned stands moves) resultHeld differ
      have settling : Stops (settleSecond (.struct held) arm.slot? choice.span) ctx lowered
          (.frame cause) := by
        rw [slot_eq]
        exact stops_after moves refused.first
      have finishing : Stops (finishSecond choice entry arm) ctx started (.frame cause) :=
        stops_after lowers settling.first
      exact ⟨cause, isMisfit, stops_after enters (stops_after finishes finishing.first)⟩
  | @leftover entry arm value _ _ _ slot _ started lowered settled enters finishes lowers settles
      left empty =>
      have isFinished := finishedFirst_of_runs aligned proper enters finishes
      obtain ⟨new, inBranch, slots_eq⟩ := isFinished.inBranch
      have stands := (fits_lowerAlternative aligned choice.otherwise inBranch.proper).ends lowers
      have slotHeld : ∀ slot ∈ resultSlots arm.slot?, started.frame.Held slot :=
        fun slot mem => inBranch.held (slots_eq ▸ mem)
      obtain ⟨settledStands, -⟩ := (meets_settleSecond aligned stands slotHeld
        fun _ _ _ _ _ _ _ _ => trivial).ends settles
      obtain ⟨outer, -, branched⟩ := (inBranch.extend settledStands).branched
      rcases branched.rewind_later with ⟨_, -, nothingLeft⟩ | ⟨slot, -, refused⟩
      · rw [nothingLeft] at left
        cases left
      · have rewinding : Stops (updateFrame fun frame => frame.rewind entry.checkpoint) ctx
            settled (.frame (.unresolvedBranchSlot entry.checkpoint slot)) :=
          stops_updateFrame.mpr ⟨_, refused, rfl⟩
        have finishing : Stops (finishSecond choice entry arm) ctx started
            (.frame (.unresolvedBranchSlot entry.checkpoint slot)) :=
          stops_after lowers (stops_after settles rewinding.first)
        exact ⟨.unresolvedBranchSlot entry.checkpoint slot, trivial,
          stops_after enters (stops_after finishes finishing.first)⟩

theorem Clash.stops (clash : Clash ctx part work) (ready : part.Ready work) :
    ∃ cause, IsMisfit cause ∧ Stops part.lower ctx work (.frame cause) := by
  obtain ⟨choice, want, reached, reaches, misfit⟩ := clash
  obtain ⟨cause, isMisfit, stops⟩ := misfit.stops aligned (reaches.ready aligned ready).proper
  exact ⟨cause, isMisfit, Reaches.stops reaches stops⟩

end StructWasm.Lowering

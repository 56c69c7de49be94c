import StructWasm.Proofs.Lowering.Misfit

/-!
# Slots across choices and loops

Each stage of a choice or of a loop leaves the frame in a known state: inside the
branch, after its first arm, and outside again. So the frame refuses a stage only
if the arms do not fit.
-/

namespace StructWasm.Lowering

open Meets

variable {ctx : Context} {work next : Workspace} {reason : Prop}

/-- An open branch that was entered from a state. -/
structure InBranch (work current : Workspace) (id : Frame.CheckpointId) (arms : Nat)
    (outside inside : List Frame.Allocation) : Prop where
  branched : ∃ outer, work.frame.Custody outer outside ∧
    outer.Branched current.frame id arms inside
  leads : work.arena.Leads current.arena
  scopes : SameScopes (Lending work.arena current.arena) work.scopes current.scopes

namespace InBranch

variable {current : Workspace} {id : Frame.CheckpointId} {arms : Nat}
variable {outside inside : List Frame.Allocation}

section

variable (inBranch : InBranch work current id arms outside inside)
include inBranch

theorem proper : current.frame.Proper := by
  obtain ⟨outer, -, branched⟩ := inBranch.branched
  exact branched.proper

theorem held (mem : slot ∈ outside ++ inside) : current.frame.Held slot := by
  obtain ⟨outer, custody, branched⟩ := inBranch.branched
  rcases List.mem_append.mp mem with before | within
  · exact branched.stays (custody.held slot before)
  · exact branched.held slot within

theorem extend (stands : Stands current next new) :
    InBranch work next id arms outside (inside ++ new) := by
  obtain ⟨outer, custody, branched⟩ := inBranch.branched
  exact ⟨⟨outer, custody, branched.extend stands.custody⟩, inBranch.leads.trans stands.leads,
    inBranch.scopes.trans stands.scopes⟩

end

theorem rewind_first (inBranch : InBranch work current id 0 outside inside) :
    Meets ctx current (updateFrame fun frame => frame.rewind id)
      (fun _ next => InBranch work next id 1 outside inside ∧ next.frame.active.locals = [] ∧
        next.arena = current.arena) reason := by
  obtain ⟨outer, custody, branched⟩ := inBranch.branched
  obtain ⟨frame, rewound, after, settled⟩ := branched.rewind_first
  exact meets_updateFrame rewound
    ⟨⟨⟨outer, custody, after⟩, inBranch.leads, inBranch.scopes⟩, settled, rfl⟩

section

variable (inBranch : InBranch work current id (arms + 1) outside inside)
include inBranch

theorem rewind_later (leftover : ∀ slot ∈ current.frame.leftovers, reason) :
    Meets ctx current (updateFrame fun frame => frame.rewind id)
      (fun _ next => InBranch work next id (arms + 2) outside inside ∧
        next.frame.active.locals = [] ∧ next.arena = current.arena) reason := by
  obtain ⟨outer, custody, branched⟩ := inBranch.branched
  rcases branched.rewind_later with ⟨frame, rewound, -⟩ | ⟨slot, left, refused⟩
  · obtain ⟨after, settled⟩ := branched.rewound rewound
    exact meets_updateFrame rewound
      ⟨⟨⟨outer, custody, after⟩, inBranch.leads, inBranch.scopes⟩, settled, rfl⟩
  · constructor
    · intro value next runs
      obtain ⟨frame, rewound, -⟩ := runs_updateFrame.mp runs
      cases refused.symm.trans rewound
    · exact fun _ _ => leftover slot left

theorem restore (settled : current.frame.active.locals = []) :
    Meets ctx current (updateFrame fun frame => frame.restore id)
      (fun _ next => Stands work next (outside ++ inside) ∧ next.arena = current.arena)
      reason := by
  obtain ⟨outer, custody, branched⟩ := inBranch.branched
  obtain ⟨frame, restored, after⟩ := branched.restore settled
  exact meets_updateFrame restored ⟨⟨custody.trans after, inBranch.leads, inBranch.scopes⟩, rfl⟩

end

end InBranch

theorem meets_checkpoint (stands : Stands origin work slots) :
    Meets ctx work (onFrame Frame.Allocator.checkpoint)
      (fun id next => InBranch origin next id 0 slots []) reason := by
  obtain ⟨frame, id, opened, branched⟩ := stands.proper.branched
  constructor
  · intro value next runs
    obtain ⟨other, openedToo, rfl⟩ := runs_onFrame.mp runs
    obtain ⟨rfl, rfl⟩ : frame = other ∧ id = value := by
      simpa using opened.symm.trans openedToo
    exact ⟨⟨work.frame, stands.custody, branched⟩, stands.leads, stands.scopes⟩
  · intro cause stops
    obtain ⟨cause, refused, -⟩ := stops_onFrame.mp stops
    cases opened.symm.trans refused

variable {choice : Choice} {current : Workspace} {id : Frame.CheckpointId} {entry : ChoiceEntry}

theorem InBranch.fork
    (inBranch : InBranch work current id arms outside inside) (loan : Option Ownership.Loan) :
    Meets ctx current (Lowering.fork loan)
      (fun saved next => InBranch work next id arms outside inside ∧
        next.frame = current.frame ∧ current.arena.Leads next.arena ∧
        SameScopes (Lending work.arena next.arena) work.scopes saved) reason := by
  refine ensure (meets_fork (.refl inBranch.proper) loan) ?_
  rintro saved next ⟨rfl, frame_eq, stands⟩
  obtain ⟨outer, custody, branched⟩ := inBranch.branched
  exact ⟨⟨⟨outer, custody, frame_eq ▸ branched⟩, inBranch.leads.trans stands.leads,
    inBranch.scopes.trans stands.scopes⟩, frame_eq, stands.leads,
    inBranch.scopes.later stands.leads⟩

theorem InBranch.restoreScopes (inBranch : InBranch work current id arms outside inside) {scopes}
    (same : SameScopes (Lending work.arena current.arena) work.scopes scopes) :
    Meets ctx current (Lowering.restoreScopes scopes)
      (fun _ next => InBranch work next id arms outside inside ∧
        next = { current with scopes }) reason where
  ends := fun _ next runs => by
    obtain rfl := runs_restoreScopes.mp runs
    exact ⟨⟨inBranch.branched, inBranch.leads, same⟩, rfl⟩
  stops := fun _ stops => absurd stops not_stops_modify

/-! ## Choices -/

/-- A choice was entered. -/
structure Entered (work : Workspace) (entry : ChoiceEntry) (entered : Workspace) : Prop where
  inBranch : InBranch work entered entry.checkpoint 0 (resultSlots entry.slot?) []
  saved : SameScopes (Lending work.arena entered.arena) work.scopes entry.saved

theorem meets_enterChoice (aligned : ctx.layouts.Aligned)
    (cond : Meets ctx work (lowerExpr choice.condition (some .bool))
      (fun result next => Stands work next result.2.slots) reason) (want : Option Ty) :
    Meets ctx work (enterChoice choice want) (Entered work) reason := by
  refine bind cond fun result _ _ stands => ?_
  refine .bind ((onOwnership_expectScalar _ _ _).meets stands) fun _ _ checks stands => ?_
  rw [(runs_expectScalar.mp checks).1.slots_eq] at stands
  refine .bind (onOwnership_typeEnv.meets stands) fun env _ _ stands => ?_
  refine .bind (meets_choiceSlot aligned stands _) fun slot? _ _ stands => ?_
  rw [List.append_nil] at stands
  refine .bind (meets_checkpoint stands) fun mark _ _ opened => ?_
  refine .bind (opened.fork none) fun saved _ _ forked => ?_
  exact .pure ⟨forked.1, forked.2.2.2⟩

/-- The first arm of a choice is finished. -/
structure FinishedFirst (work : Workspace) (entry : ChoiceEntry) (arm : FirstArm)
    (started : Workspace) : Prop where
  inBranch : ∃ new, InBranch work started entry.checkpoint 1 (resultSlots entry.slot?) new ∧
    resultSlots arm.slot? = resultSlots entry.slot? ++ new
  begun : started.frame.active.locals = []
  lies : arm.value.LiesIn arm.slot?
  scopes : SameScopes (Lending work.arena started.arena) work.scopes arm.scopes

theorem meets_finishFirst (aligned : ctx.layouts.Aligned)
    (enters : Runs (enterChoice choice want) ctx work entry entered)
    (isEntered : Entered work entry entered) (lowers : Meets ctx entered (lowerFirst choice entry)
      (fun result next => Stands entered next result.2.slots)
      (Clash ctx (.choice choice want) work)) :
    Meets ctx entered (finishFirst choice entry) (FinishedFirst work entry)
      (Clash ctx (.choice choice want) work) := by
  refine bind lowers fun result _ lowersFirst stands => ?_
  obtain ⟨code, kept⟩ := result
  refine .bind (meets_settleFirst aligned stands ?_ ?_) ?_
  · intro slot mem
    exact isEntered.inBranch.held (List.mem_append_left _ mem)
  · rintro actual result made moved rfl slot_eq moves differ
    exact (Misfit.first enters lowersFirst moves slot_eq differ).clash
  · rintro settled _ _ ⟨new, stands, slots_eq, lies⟩
    have inBranch := isEntered.inBranch.extend stands
    refine bind inBranch.rewind_first fun _ rewound _ finished => ?_
    obtain ⟨inBranch, begun, arena_eq⟩ := finished
    have saved := isEntered.saved.later stands.leads
    rw [← arena_eq] at saved
    refine .bindGet ?_
    refine .bind (inBranch.restoreScopes saved) fun _ _ _ restored => ?_
    obtain ⟨restoredBranch, rfl⟩ := restored
    refine .bind (restoredBranch.fork none) fun saved _ _ forked => ?_
    obtain ⟨started, forked_eq, leads, -⟩ := forked
    refine .pure ⟨⟨new, started, slots_eq⟩, ?_, lies, inBranch.scopes.later leads⟩
    rw [forked_eq]
    exact begun

theorem meets_finishSecond (aligned : ctx.layouts.Aligned)
    (enters : Runs (enterChoice choice want) ctx work entry entered)
    (finishes : Runs (finishFirst choice entry) ctx entered arm started)
    (isFinished : FinishedFirst work entry arm started)
    (lowers : Meets ctx started (lowerAlternative choice.otherwise entry.predicted)
      (fun result next => Stands started next result.2.slots)
      (Clash ctx (.choice choice want) work)) :
    Meets ctx started (finishSecond choice entry arm)
      (fun second next => Stands work next (resultSlots arm.slot?) ∧ second.2.LiesIn arm.slot?)
      (Clash ctx (.choice choice want) work) := by
  obtain ⟨new, inBranch, slots_eq⟩ := isFinished.inBranch
  refine bind lowers fun result _ lowersSecond stands => ?_
  obtain ⟨code, value⟩ := result
  refine .bind (meets_settleSecond aligned stands ?_ ?_) ?_
  · intro slot mem
    rw [slots_eq] at mem
    exact inBranch.held mem
  · rintro actual result made moved rfl slot_eq moves differ
    exact (Misfit.second enters finishes lowersSecond moves slot_eq differ).clash
  · rintro settled _ settles ⟨stands, lies⟩
    have settledBranch := inBranch.extend stands
    rw [List.append_nil] at settledBranch
    refine .bind (settledBranch.rewind_later ?_) fun _ _ _ rewound => ?_
    · intro slot left
      have empty := stands.custody.size_of_mem_leftovers isFinished.begun left
      exact (Misfit.leftover enters finishes lowersSecond settles left empty).clash
    · obtain ⟨rewoundBranch, begun, rewound_eq⟩ := rewound
      have firstScopes := isFinished.scopes.later stands.leads
      refine .bind (rewoundBranch.restore begun) fun _ _ _ restored => ?_
      obtain ⟨stands, restored_eq⟩ := restored
      rw [← rewound_eq, ← restored_eq] at firstScopes
      rw [← slots_eq] at stands
      refine .bindGet ?_
      refine .bind (meets_joinArms stands firstScopes stands.scopes _ _) ?_
      exact fun _ _ _ stands => .pure ⟨stands, lies⟩

theorem meets_releaseUnused {slot? : Option ResultSlot}
    (stands : Stands origin work (resultSlots slot?)) (lies : value.LiesIn slot?) :
    Meets ctx work (releaseUnused slot? value) (fun _ next => Stands origin next value.slots)
      reason := by
  cases value with
  | struct held =>
    obtain ⟨result, rfl, slots_eq⟩ := lies held rfl
    refine .pure ?_
    rw [Value.slots, slots_eq]
    exact stands
  | scalar _ | nothing | never =>
    cases slot? with
    | none => exact .pure stands
    | some result => exact meets_release stands

theorem meets_joinChoice (stands : Stands origin work (resultSlots arm.slot?))
    (firstLies : arm.value.LiesIn arm.slot?) (secondLies : second.2.LiesIn arm.slot?) :
    Meets ctx work (joinChoice choice entry arm second)
      (fun result next => Stands origin next result.2.slots) reason := by
  refine .bind ((onOwnership_joinValues _ _ _).meets stands) fun value _ joins stands => ?_
  have lies : value.LiesIn arm.slot? := by
    rcases (eq_of_joinValues joins).1 with rfl | rfl
    · exact firstLies
    · exact secondLies
  exact .bind (meets_releaseUnused stands lies) fun _ _ _ stands => .pure stands

/-! ## Loops -/

/-- The branch of a loop that was entered from a state, with the scopes of that state. -/
structure InLoop (work current : Workspace) (id : Frame.CheckpointId) (saved : List Scope) :
    Prop where
  inBranch : InBranch work current id 0 [] []
  saved : SameScopes (Lending work.arena current.arena) work.scopes saved

theorem InLoop.extend {saved} (inLoop : InLoop work current id saved)
    (stands : Stands current next []) : InLoop work next id saved :=
  ⟨inLoop.inBranch.extend stands, inLoop.saved.later stands.leads⟩

theorem meets_enterLoop (proper : work.frame.Proper) :
    Meets ctx work enterLoop (fun entry next => InLoop work next entry.1 entry.2) reason := by
  refine .bind (meets_checkpoint (.refl proper)) fun mark _ _ opened => ?_
  refine .bind (opened.fork (some .read)) fun saved _ _ forked => ?_
  exact .pure ⟨forked.1, forked.2.2.2⟩

theorem meets_lowerGuard {entry : Frame.CheckpointId × List Scope}
    (inLoop : InLoop work entered entry.1 entry.2) {cond}
    (lowers : Meets ctx entered (lowerExpr cond (some .bool))
      (fun result next => Stands entered next result.2.slots) reason) :
    Meets ctx entered (lowerGuard cond entry.2)
      (fun _ next => InLoop work next entry.1 entry.2) reason := by
  refine bind lowers fun result _ _ stands => ?_
  refine .bind ((onOwnership_expectScalar _ _ _).meets stands) fun _ _ checks stands => ?_
  rw [(runs_expectScalar.mp checks).1.slots_eq] at stands
  have decided := inLoop.extend stands
  refine .bind (decided.inBranch.restoreScopes decided.saved) fun _ _ _ restored => ?_
  obtain ⟨restoredBranch, rfl⟩ := restored
  refine .bind (restoredBranch.fork (some .write)) fun _ _ _ forked => ?_
  exact .pure ⟨forked.1, decided.saved.later forked.2.2.1⟩

theorem meets_leaveLoop (inLoop : InLoop work current id saved) :
    Meets ctx current (leaveLoop id saved) (fun _ next => Stands work next []) reason := by
  have joins : Meets ctx current (joinOptional saved)
      (fun _ next => InBranch work next id 0 [] []) reason := by
    constructor
    · intro _ next runs
      obtain rfl := runs_joinOptional.mp runs
      have leads := leads_infused (nodesOf saved) (nodesOf current.scopes) current.arena
      exact ⟨inLoop.inBranch.branched, inLoop.inBranch.leads.trans leads, inLoop.saved.later leads⟩
    · intro cause stops
      simp [joinOptional, infuseAll, Lowering.restoreScopes] at stops
  refine bind joins fun _ _ _ joined => ?_
  refine bind joined.rewind_first fun _ _ _ rewound => ?_
  exact ensure (rewound.1.restore rewound.2.1) fun _ _ restored => restored.1

end StructWasm.Lowering

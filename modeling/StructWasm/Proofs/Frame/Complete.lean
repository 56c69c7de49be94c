import StructWasm.Proofs.Frame.Owners
import StructWasm.Proofs.Frame.Placed

/-!
# Which slots the layout places

The layout gives an address to every slot that holds a value in bytes of its own. An
alias lies where the slot lies whose bytes it shares. Slots without bytes, and slots
that were lost with a branch, get no address.

A branch that is open keeps the records of the checkpoints around it as they were when
it was opened, since calls write to the active checkpoint only. So when it is
discarded, nothing is left of the slots that came since, but for those that it has
handed over.
-/

namespace StructWasm.Frame.Allocator

open List

variable {frame next laid : Allocator}

/-! ## Records of open branches -/

/-- The numbers of the open checkpoints and what was recorded in each, the active one
first. -/
def records (frame : Allocator) : List (CheckpointId × List Event) :=
  frame.opened.map fun checkpoint => (checkpoint.id, checkpoint.events)

theorem timeline_eq_flatten (frame : Allocator) :
    frame.timeline = (frame.records.map Prod.snd).reverse.flatten := by
  simp [timeline, records, opened, flatMap, Function.comp_def]

theorem records_retire (frame : Allocator) (id : SlotId) :
    (frame.retire id).records = frame.records := by
  simp [records, opened, retire, Function.comp_def, Checkpoint.events_without]

variable {id : SlotId}

/-- How a call changes the records: it adds to that of the active checkpoint, or closes
it and adds to that of the one around it, or opens a checkpoint with a new number. -/
theorem records_apply (ran : frame.apply step = .ok next) :
    next.checkpointCount = frame.checkpointCount ∧
        (∃ closed id events more outer, frame.records = closed ++ (id, events) :: outer ∧
          next.records = (id, events ++ more) :: outer) ∨
      next.checkpointCount = frame.checkpointCount + 1 ∧
        next.records = (frame.checkpointCount, []) :: frame.records := by
  have same : next.checkpointCount = frame.checkpointCount → next.records = frame.records →
      next.checkpointCount = frame.checkpointCount ∧
        ∃ closed id events more outer, frame.records = closed ++ (id, events) :: outer ∧
          next.records = (id, events ++ more) :: outer :=
    fun count_eq records_eq => ⟨count_eq, [], _, _, [], _, rfl, by
      rw [records_eq, append_nil]
      rfl⟩
  have nested : ∀ {parent outer}, frame.enclosing = parent :: outer →
      frame.records = [(frame.active.id, frame.active.events)] ++ (parent.id, parent.events) ::
        outer.map fun checkpoint => (checkpoint.id, checkpoint.events) := by
    intro parent outer enclosing_eq
    rw [records, opened, enclosing_eq]
    rfl
  cases step with
  | allocate size alignment =>
    obtain ⟨_, alloc⟩ := allocate_of_apply ran
    obtain ⟨-, -, -, rfl⟩ := allocate_ok alloc
    exact .inl ⟨rfl, [], _, _, _, _, rfl, rfl⟩
  | free id =>
    obtain ⟨-, ⟨-, -, rfl⟩ | ⟨-, -, rfl⟩⟩ := free_ok ran
    · exact .inl (same rfl (records_retire frame id))
    · exact .inl ⟨rfl, [], _, _, [.free id], _, (records_retire frame id).symm, rfl⟩
  | checkpoint =>
    obtain ⟨_, opened⟩ := checkpoint_of_apply ran
    obtain ⟨-, rfl, rfl⟩ := checkpoint_ok opened
    exact .inr ⟨rfl, rfl⟩
  | rewind checkpoint =>
    obtain ⟨-, parent, outer, -, enclosing_eq, ⟨-, rfl⟩ | ⟨-, -, rfl⟩⟩ := rewind_ok ran
    · refine .inl (same (by rw [foldl_modifySlot_eq]) ?_)
      simp [records, opened, enclosing_eq]
    · exact .inl (same rfl rfl)
  | restore checkpoint =>
    obtain ⟨-, parent, outer, -, enclosing_eq, -, -, rfl⟩ := restore_ok ran
    exact .inl ⟨rfl, _, _, _, _, _, nested enclosing_eq, rfl⟩
  | discard checkpoint =>
    obtain ⟨-, parent, outer, -, enclosing_eq, rfl⟩ := discard_ok ran
    refine .inl ⟨?_, _, _, _, _, _, nested enclosing_eq, rfl⟩
    rw [foldl_modifySlot_eq]
  | makeAlias id target =>
    obtain ⟨-, -, -, -, rfl⟩ := makeAlias_ok ran
    exact .inl (same rfl rfl)

/-- If a branch is open, the records around it are the given ones. -/
structure Surrounded (branch : CheckpointId) (around : List (List Event))
    (frame : Allocator) : Prop where
  old : branch < frame.checkpointCount
  around : ∀ inner events outer, frame.records = inner ++ (branch, events) :: outer →
    outer.map Prod.snd = around

namespace Surrounded

variable {around : List (List Event)}

/-- What is around a new branch is all that there was. -/
theorem checkpoint (numbered : ∀ share ∈ frame.shares, share.1 < frame.checkpointCount)
    (opened : frame.checkpoint = .ok (next, branch)) :
    Surrounded branch (frame.records.map Prod.snd) next := by
  obtain ⟨-, rfl, rfl⟩ := checkpoint_ok opened
  refine ⟨Nat.lt_succ_self _, ?_⟩
  rintro (- | ⟨first, inner⟩) events outer records_eq
  · exact congrArg (map Prod.snd) (cons.inj records_eq).2.symm
  · have inside : (frame.checkpointCount, events) ∈ frame.records := by
      rw [show frame.records = inner ++ (frame.checkpointCount, events) :: outer from
        (cons.inj records_eq).2]
      exact mem_append_right _ mem_cons_self
    obtain ⟨checkpoint, isOpen, same⟩ := mem_map.mp inside
    have := numbered checkpoint.share (mem_map_of_mem isOpen)
    exact absurd (Prod.mk.inj same).1 (Nat.ne_of_lt this)

theorem apply (surrounded : Surrounded branch around frame)
    (ran : frame.apply step = .ok next) : Surrounded branch around next := by
  rcases records_apply ran with
    ⟨count_eq, closed, id, before, more, rest, frame_eq, next_eq⟩ | ⟨count_eq, next_eq⟩
  · refine ⟨count_eq ▸ surrounded.old, ?_⟩
    rintro (- | ⟨first, inner⟩) events outer records_eq <;>
    obtain ⟨first_eq, rest_eq⟩ := cons.inj (next_eq.symm.trans records_eq)
    · obtain ⟨rfl, -⟩ := Prod.mk.inj first_eq
      exact rest_eq ▸ surrounded.around closed before rest frame_eq
    · exact surrounded.around (closed ++ (id, before) :: inner) events outer
        (by rw [frame_eq, rest_eq, append_assoc]; rfl)
  · refine ⟨count_eq ▸ Nat.lt_succ_of_lt surrounded.old, ?_⟩
    rintro (- | ⟨first, inner⟩) events outer records_eq <;>
    obtain ⟨first_eq, rest_eq⟩ := cons.inj (next_eq.symm.trans records_eq)
    · exact absurd (Prod.mk.inj first_eq).1.symm (Nat.ne_of_lt surrounded.old)
    · exact surrounded.around inner events outer rest_eq

theorem run (surrounded : Surrounded branch around frame) (script : List Step) :
    Surrounded branch around (frame.run script) :=
  run_induction (fun before ran => before.apply ran) script surrounded

theorem timeline_discard (surrounded : Surrounded branch around frame)
    (discarded : frame.discard branch = .ok next) :
    next.timeline = around.reverse.flatten ++ frame.active.promoted.map Event.allocate := by
  obtain ⟨-, parent, outer, rfl, enclosing_eq, rfl⟩ := discard_ok discarded
  rw [← surrounded.around [] _ _ rfl, enclosing_eq]
  simp [timeline, flatMap, Function.comp_def]

end Surrounded

/-! ## Slots that are lost with a branch -/

/-- A script loses a slot: the slot came while a branch was open, and the branch, which
may by then have taken over the records of branches inside it, was discarded without
having handed the slot to the checkpoint around it. -/
def Loses (start : Allocator) (script : List Step) (id : SlotId) : Prop :=
  ∃ (before inside after : List Step) (branch : CheckpointId) (opened next : Allocator),
    script = before ++ .checkpoint :: (inside ++ .discard branch :: after) ∧
      (start.run before).checkpoint = .ok (opened, branch) ∧
      (opened.run inside).discard branch = .ok next ∧
      opened.slots.size ≤ id ∧ id < (opened.run inside).slots.size ∧
      id ∉ (opened.run inside).active.promoted

theorem run_append (frame : Allocator) (first second : List Step) :
    frame.run (first ++ second) = (frame.run first).run second :=
  foldl_append

theorem attempt_of_ok (ran : frame.apply step = .ok next) : frame.attempt step = next := by
  rw [attempt, ran]

theorem Recorded.not_comes_of_run (recorded : frame.Recorded) (inside : id < frame.slots.size)
    (missing : .allocate id ∉ frame.timeline) (script : List Step) :
    .allocate id ∉ (frame.run script).timeline := by
  have kept := run_induction (fun {frame next step}
      (before : frame.Recorded ∧ id < frame.slots.size ∧ .allocate id ∉ frame.timeline)
      (ran : frame.apply step = .ok next) =>
      (⟨before.1.apply ran, (isAliased_apply ran before.2.1).1,
        fun comes => before.2.2 (before.1.comes_of_apply ran before.2.1 comes)⟩ :
        next.Recorded ∧ id < next.slots.size ∧ .allocate id ∉ next.timeline))
    script ⟨recorded, inside, missing⟩
  exact kept.2.2

/-- The coming of a slot that a script loses is not recorded in the end. -/
theorem Loses.not_comes {policy frameAlignment}
    (lost : (new policy frameAlignment).Loses script id) :
    .allocate id ∉ ((new policy frameAlignment).run script).timeline := by
  obtain ⟨before, inside, after, branch, opened, next, rfl, opens, discards, came, there, kept⟩ :=
    lost
  have recorded := (Recorded.new policy frameAlignment).run before
  have numbered := ((History.shared_new policy frameAlignment).run before).ids_lt
  rw [History.frame_run] at numbered
  have reached := (recorded.checkpoint opens).run inside
  have nextRecorded := reached.discard discards
  have timeline_eq := ((Surrounded.checkpoint numbered opens).run inside).timeline_discard discards
  have opened_size : opened.slots.size = ((new policy frameAlignment).run before).slots.size := by
    obtain ⟨-, -, rfl⟩ := checkpoint_ok opens
    rfl
  have missing : .allocate id ∉ next.timeline := by
    rw [timeline_eq, mem_append, ← timeline_eq_flatten]
    rintro (early | handed)
    · exact absurd (recorded.bounded id early) (Nat.not_lt.mpr (opened_size ▸ came))
    · exact kept (by simpa using handed)
  have opening : ((new policy frameAlignment).run before).apply .checkpoint = .ok opened := by
    simp only [apply, opens]
    rfl
  have closing : (opened.run inside).apply (.discard branch) = .ok next := discards
  rw [run_append, run_cons, attempt_of_ok opening, run_append, run_cons, attempt_of_ok closing]
  exact nextRecorded.not_comes_of_run (isAliased_apply closing there).1 missing after

/-! ## The layout -/

theorem run_of_resolved (isLaidOut : frame.resolved = true) (script : List Step) :
    frame.run script = frame := by
  have refused : ∀ {before after : Allocator} {step : Step}, before = frame →
      before.apply step = .ok after → after = frame := by
    rintro _ _ _ rfl ran
    rw [(apply_eq ran).1] at isLaidOut
    cases isLaidOut
  exact run_induction refused script rfl

theorem resolved_resolve (frame : Allocator) : frame.resolve.1.resolved = true := by
  unfold resolve
  split
  · assumption
  · split
    · rfl
    · split <;> rfl

/-- The layout of a frame after a script gives an address to every slot that is in use,
is no alias and has bytes. An alias shares the bytes of a slot that is none, and lies
where that slot lies. Slots without bytes have no address, nor have slots that the script
lost. Calls after the layout do not change it. -/
theorem layout_complete
    (policy : FreePolicy)
    (frameAlignment : Nat)
    (script : List Step)
    (named : (new policy frameAlignment).Named script)
    {last : Allocator}
    (last_eq : (new policy frameAlignment).run script = last)
    (resolved : last.resolve = (laid, .ok ())) :
    (∀ id, (last.slot id).inUse = true → last.isAliased id = false →
        0 < (last.slot id).size → (laid.offset? id).isSome) ∧
      (∀ id root, (last.slot id).aliasOf = some root →
        last.isAliased root = false ∧ laid.offset? id = laid.offset? root) ∧
      (∀ id, (last.slot id).size = 0 → laid.offset? id = none) ∧
      (∀ id, (new policy frameAlignment).Loses script id → last.isAliased id = false →
        laid.offset? id = none) ∧
      ∀ later, laid.run later = laid := by
  have recorded : last.Recorded := last_eq ▸ (Recorded.new policy frameAlignment).run script
  have rooted : last.Rooted := last_eq ▸ (Rooted.new policy frameAlignment).run named
  have alone : ∀ {id : SlotId}, last.isAliased id = false → (last.slot id).aliasOf = none := by
    intro id notAliased
    simpa [isAliased] using notAliased
  refine ⟨?_, ?_, ?_, ?_, ?_⟩
  · intro id inUse notAliased bytes
    have live := recorded.live id (by simp [ownsBytes, inUse, notAliased])
    exact (recorded.isSome_offset?_iff resolved (alone notAliased)).mpr ⟨bytes, live.1⟩
  · intro id root shared
    have rootAlone := (rooted id root shared).2.1
    exact ⟨by simp [isAliased, rootAlone], recorded.offset?_eq_of_shared resolved shared rootAlone⟩
  · -- An alias has the size of the slot whose bytes it shares.
    intro id empty
    have unplaced : ∀ {id : SlotId}, (last.slot id).aliasOf = none → (last.slot id).size = 0 →
        laid.offset? id = none := by
      intro id alone empty
      rw [← Option.not_isSome_iff_eq_none, recorded.isSome_offset?_iff resolved alone, empty]
      exact fun placed => Nat.lt_irrefl 0 placed.1
    cases shared : (last.slot id).aliasOf with
    | none => exact unplaced shared empty
    | some root =>
        obtain ⟨-, rootAlone, sameSize⟩ := rooted id root shared
        rw [recorded.offset?_eq_of_shared resolved shared rootAlone]
        exact unplaced rootAlone (sameSize.trans empty)
  · intro id lost notAliased
    rw [← Option.not_isSome_iff_eq_none, recorded.isSome_offset?_iff resolved (alone notAliased)]
    rintro ⟨-, comes⟩
    exact lost.not_comes (last_eq ▸ comes)
  · exact run_of_resolved (by simpa [resolved] using last.resolved_resolve)

/-- Slot 1 is handed out of branch 2 and then out of branch 1 around it, which is
discarded with slots 2 and 3. Later slot 5 comes to share the bytes of slot 4, and slot
6 has none. -/
theorem layout_complete_nested :
    let inside : List Step :=
      [.checkpoint, .allocate 4 4, .rewind 2, .allocate 12 4, .free 2, .rewind 2, .restore 2,
        .rewind 1, .allocate 20 4]
    let after : List Step := [.allocate 16 8, .allocate 16 4, .makeAlias 5 4, .allocate 0 1]
    let script := [.allocate 8 8] ++ .checkpoint :: (inside ++ .discard 1 :: after)
    let last := (new .lenient 16).run script
    let laid := last.resolve.1
    ((new .lenient 16).Named script ∧ last.resolve = (laid, .ok ()) ∧
        (new .lenient 16).Loses script 2) ∧
      (laid.offset? 1).isSome ∧ laid.offset? 5 = laid.offset? 4 ∧ laid.offset? 6 = none ∧
        laid.offset? 2 = none ∧ laid.run [.free 0] = laid := by
  intro inside after script last laid
  have named : (new .lenient 16).Named script := by decide +kernel
  have resolved : last.resolve = (laid, .ok ()) := by decide +kernel
  have lost : (new .lenient 16).Loses script 2 :=
    ⟨[.allocate 8 8], inside, after, 1, ((new .lenient 16).run [.allocate 8 8, .checkpoint]),
      ((new .lenient 16).run ([.allocate 8 8, .checkpoint] ++ inside ++ [.discard 1])), rfl,
      by decide +kernel, by decide +kernel, by decide +kernel, by decide +kernel,
      by decide +kernel⟩
  obtain ⟨placed, shares, empty, gone, stays⟩ := layout_complete .lenient 16 script named rfl
    resolved
  exact ⟨⟨named, resolved, lost⟩,
    placed 1 (by decide +kernel) (by decide +kernel) (by decide +kernel),
    (shares 5 4 (by decide +kernel)).2, empty 6 (by decide +kernel),
    gone 2 lost (by decide +kernel), stays [.free 0]⟩

end StructWasm.Frame.Allocator

import StructWasm.Proofs.Frame.Complete
import StructWasm.Proofs.Frame.Forest

/-!
# Calls that fail

A call of the allocator gives a new frame or is refused. The same calls can be carried
out in place, one write after the other, so that whatever was written before a call is
refused remains. Some calls do write before they know that they are accepted: the slots
of a branch are taken away before it is rewound, and links are shortened before sizes
are compared. Nothing remains of that but shorter links, which end where they did.

The layout is different. It is attempted once, and a frame whose layout has failed has
no size, but the next attempt reports nothing.
-/

namespace StructWasm.Frame

open Allocator

/-! ## Writing in place -/

/-- A call that writes to the frame. What is written before it is refused remains. -/
abbrev InPlace (α : Type) := EStateM Error Allocator α

namespace InPlace

/-- Give up unless the frame has an answer. -/
def check {α : Type} (ask : Allocator → Except Error α) : InPlace α := do
  match ask (← get) with
  | .ok answer => return answer
  | .error fault => throw fault

def setLocals (locals : List SlotId) : InPlace Unit :=
  modify fun frame => { frame with active := { frame.active with locals } }

def allocate (size alignment : Nat) : InPlace Unit := do
  check Allocator.ensureOpen
  if !alignment.isPowerOfTwo then
    throw (.invalidAlignment alignment)
  let frame ← get
  let id := frame.slots.size
  set { frame with
    slots := frame.slots.push
      { size, alignment, offset := none, inUse := true, aliasOf := none,
        owner := frame.active.id } }
  modify fun frame => frame.record (.allocate id)
  setLocals (frame.active.locals ++ [id])

/-- Take a slot out of use, and away from the checkpoint that it belongs to. -/
def retire (id : SlotId) : InPlace Unit := do
  let owner := ((← get).slot id).owner
  modify fun frame => frame.modifySlot id Slot.retire
  modify fun frame => { frame with
    active := frame.active.without owner id
    enclosing := frame.enclosing.map fun checkpoint => checkpoint.without owner id }

def free (id : SlotId) : InPlace Unit := do
  check Allocator.ensureOpen
  let frame ← get
  match frame.noBytes? id with
  | some reason =>
    if frame.policy = .strict then
      throw (.strictFree id reason)
    retire id
  | none =>
    if !(frame.slot id).inUse then
      throw (.doubleFree id)
    retire id
    modify fun frame => frame.record (.free id)

def checkpoint : InPlace Unit := do
  check Allocator.ensureOpen
  let id := (← get).checkpointCount
  modify fun frame => { frame with checkpointCount := id + 1 }
  modify fun frame => { frame with
    active := .fresh id
    enclosing := frame.active :: frame.enclosing }

/-- Hand the slots that hold values to a checkpoint. -/
def handOver (owner : CheckpointId) : List SlotId → InPlace (List SlotId)
  | [] => return []
  | id :: ids => do
    if (← get).ownsBytes id then
      modify fun frame => frame.modifySlot id fun slot => { slot with owner }
      return id :: (← handOver owner ids)
    else
      handOver owner ids

/-- The slots of the branch are taken away first. A later arm that leaves one of them puts
them back. -/
def rewind (id : CheckpointId) : InPlace Unit := do
  check Allocator.ensureOpen
  let (parent, outer) ← check fun frame => frame.parentOf id
  let locals := (← get).active.locals
  setLocals []
  if (← get).active.rewinds = 0 then
    let promoted ← handOver parent.id locals
    modify fun frame => { frame with
      enclosing := { parent with locals := parent.locals ++ promoted } :: outer }
    modify fun frame => { frame with active := { frame.active with promoted } }
  else
    let frame ← get
    if let some slot := locals.find? frame.ownsBytes then
      setLocals locals
      throw (.unresolvedBranchSlot id slot)
  modify fun frame => { frame with
    active := { frame.active with rewinds := frame.active.rewinds + 1 } }

def restore (id : CheckpointId) : InPlace Unit := do
  check Allocator.ensureOpen
  let (parent, outer) ← check fun frame => frame.parentOf id
  let branch := (← get).active
  if branch.rewinds = 0 || !branch.locals.isEmpty then
    throw (.restoreWithoutRewind id)
  modify fun frame => { frame with
    active := { parent with events := parent.events ++ branch.events }
    enclosing := outer }

def discard (id : CheckpointId) : InPlace Unit := do
  check Allocator.ensureOpen
  let (parent, outer) ← check fun frame => frame.parentOf id
  let branch := (← get).active
  setLocals []
  branch.locals.forM fun slot => modify fun frame => frame.modifySlot slot Slot.retire
  modify fun frame => { frame with
    active := { parent with events := parent.events ++ branch.promoted.map Event.allocate }
    enclosing := outer }

/-! ## Writing in place and new frames -/

/-- What a call leaves in place: the new frame, or the old one if it is refused. -/
def settled (frame : Allocator) : Except Error Allocator → EStateM.Result Error Allocator Unit
  | .ok next => .ok () next
  | .error fault => .error fault frame

variable {frame : Allocator} {α : Type}

theorem check_bind {ask : Allocator → Except Error α} {rest : α → InPlace Unit}
    {accept : α → Except Error Allocator}
    (same : ∀ answer, ask frame = .ok answer → rest answer frame = settled frame (accept answer)) :
    (check ask >>= rest) frame = settled frame (ask frame >>= accept) := by
  cases asked : ask frame with
  | ok answer =>
    refine Eq.trans ?_ (same answer asked)
    simp only [check, bind, EStateM.bind, get, getThe, MonadStateOf.get, EStateM.get, asked]
    rfl
  | error fault =>
    simp only [check, bind, EStateM.bind, get, getThe, MonadStateOf.get, EStateM.get, asked]
    rfl

theorem bind_of_ok {β : Type} {rest : α → InPlace β}
    (ran : program frame = .ok answer next) : (program >>= rest) frame = rest answer next := by
  simp only [bind, EStateM.bind, ran]

theorem allocate_eq (frame : Allocator) (size alignment : Nat) :
    allocate size alignment frame = settled frame (frame.apply (.allocate size alignment)) := by
  rw [Allocator.apply, Allocator.allocate, bind_assoc]
  refine check_bind fun _ _ => ?_
  by_cases power : alignment.isPowerOfTwo
  · simp only [power, decide_true, Bool.not_true, if_true]
    rfl
  · simp only [power, decide_false, Bool.not_false, if_true, if_false]
    rfl

theorem free_eq (frame : Allocator) (id : SlotId) :
    free id frame = settled frame (frame.free id) := by
  refine check_bind fun _ _ => ?_
  dsimp only [bind, EStateM.bind, get, getThe, MonadStateOf.get, EStateM.get]
  cases bytes : frame.noBytes? id with
  | some reason =>
    cases policy : frame.policy with
    | strict => rfl
    | lenient => rfl
  | none =>
    dsimp only
    cases used : (frame.slot id).inUse with
    | true => rfl
    | false => rfl

theorem checkpoint_eq (frame : Allocator) :
    checkpoint frame = settled frame (frame.apply .checkpoint) := by
  rw [Allocator.apply, Allocator.checkpoint, bind_assoc]
  exact check_bind fun _ _ => rfl

theorem foldl_modifySlot_active (change : Slot → Slot) (ids : List SlotId) (frame : Allocator)
    (active : Checkpoint) :
    ids.foldl (fun frame id => frame.modifySlot id change) { frame with active } =
      { ids.foldl (fun frame id => frame.modifySlot id change) frame with active } := by
  induction ids generalizing frame with
  | nil => rfl
  | cons id ids ih => exact ih (frame.modifySlot id change)

theorem handOver_eq (owner : CheckpointId) (ids : List SlotId) (frame : Allocator) :
    handOver owner ids frame = .ok (ids.filter frame.ownsBytes) ((ids.filter frame.ownsBytes).foldl
        (fun frame id => frame.modifySlot id fun slot => { slot with owner }) frame) := by
  induction ids generalizing frame with
  | nil => rfl
  | cons id ids ih =>
    have kept : (frame.modifySlot id fun slot => { slot with owner }).ownsBytes = frame.ownsBytes :=
      funext (slot_modifySlot_of_kept (fun slot => { slot with owner })
        (fun slot => !slot.aliasOf.isSome && slot.inUse) (fun _ => rfl) frame id)
    rw [List.filter_cons]
    change (if frame.ownsBytes id then _ else _ : InPlace (List SlotId)) frame = _
    split
    · have handed := ih (frame.modifySlot id fun slot => { slot with owner })
      rw [kept] at handed
      exact bind_of_ok handed
    · exact ih frame

theorem rewind_eq (frame : Allocator) (id : CheckpointId) :
    rewind id frame = settled frame (frame.rewind id) := by
  refine check_bind fun _ _ => check_bind fun around found => ?_
  change (if frame.active.rewinds = 0 then _ else _ : InPlace Unit) _ = _
  dsimp only
  split
  · refine (bind_of_ok (handOver_eq around.1.id frame.active.locals _)).trans ?_
    rw [foldl_modifySlot_active]
    rfl
  · have kept : ownsBytes { frame with active := { frame.active with locals := [] } } =
        frame.ownsBytes := rfl
    dsimp only [bind, EStateM.bind, get, getThe, MonadStateOf.get, EStateM.get]
    rw [kept, ← List.head?_filter]
    cases frame.active.locals.filter frame.ownsBytes with
    | nil => rfl
    | cons slot rest => rfl

theorem restore_eq (frame : Allocator) (id : CheckpointId) :
    restore id frame = settled frame (frame.restore id) := by
  refine check_bind fun _ _ => check_bind fun around found => ?_
  change (if frame.active.rewinds = 0 || !frame.active.locals.isEmpty then _ else _ :
    InPlace Unit) frame = _
  dsimp only
  split <;> rfl

theorem forM_retire (ids : List SlotId) (frame : Allocator) :
    (ids.forM fun id => modify fun frame => frame.modifySlot id Slot.retire : InPlace Unit) frame =
      .ok () (ids.foldl (fun frame id => frame.modifySlot id Slot.retire) frame) := by
  induction ids generalizing frame with
  | nil => rfl
  | cons id ids ih => exact ih (frame.modifySlot id Slot.retire)

theorem discard_eq (frame : Allocator) (id : CheckpointId) :
    discard id frame = settled frame (frame.discard id) := by
  refine check_bind fun _ _ => check_bind fun around found => ?_
  refine (bind_of_ok (forM_retire frame.active.locals
    { frame with active := { frame.active with locals := [] } })).trans ?_
  rw [foldl_modifySlot_active]
  rfl

/-! ## Frames and their links -/

/-- A result for the frame, next to links. -/
def beside (links : Forest) :
    EStateM.Result Error Allocator Unit → EStateM.Result Error (Allocator × Forest) Unit
  | .ok _ next => .ok () (next, links)
  | .error fault left => .error fault (left, links)

/-- Carry a call out in place. Only when a slot becomes an alias the links are written to,
before the frame. -/
noncomputable def step (frame : Allocator) (links : Forest) :
    Step → Option (EStateM.Result Error (Allocator × Forest) Unit)
  | .allocate size alignment => some (beside links (allocate size alignment frame))
  | .free id => some (beside links (free id frame))
  | .checkpoint => some (beside links (checkpoint frame))
  | .rewind id => some (beside links (rewind id frame))
  | .restore id => some (beside links (restore id frame))
  | .discard id => some (beside links (discard id frame))
  | .makeAlias id target =>
    (links.makeAlias frame id target).map fun made =>
      match made.2 with
      | .ok _ => .ok () (frame.joined id (frame.root target), made.1)
      | .error fault => .error fault (frame, made.1)

/-- The frame and its links after a call, whether or not it is refused. -/
noncomputable def perform (state : Allocator × Forest) : Call → Option (Allocator × Forest)
  | .record call =>
    (step state.1 state.2 call).map fun
      | .ok _ next => next
      | .error _ left => left
  | .resolve => (state.2.perform state.1 .resolve).map fun linked => (state.1.resolve.1, linked)

variable {links : Forest}

theorem step_of_not_makeAlias (frame : Allocator) (links : Forest)
    (other : ∀ id target, call ≠ .makeAlias id target) :
    step frame links call = some (beside links (settled frame (frame.apply call))) := by
  cases call with
  | allocate size alignment => rw [step, allocate_eq]
  | free id => rw [step, free_eq, apply]
  | checkpoint => rw [step, checkpoint_eq]
  | rewind id => rw [step, rewind_eq, apply]
  | restore id => rw [step, restore_eq, apply]
  | discard id => rw [step, discard_eq, apply]
  | makeAlias id target => exact absurd rfl (other id target)

/-- A call in place does what the allocator does. If it is refused, the frame is as it was,
and the links still end where they did. -/
theorem step_eq (mirrors : links.Mirrors frame) (known : call.Known frame) :
    ∃ linked, step frame links call = some (beside linked (settled frame (frame.apply call))) ∧
      linked.Mirrors (frame.attempt call) ∧
      ((∀ id target, call ≠ .makeAlias id target) → linked = links) := by
  obtain ⟨after, done, mirrorsAfter⟩ :=
    mirrors.perform (show Call.Known frame (.record call) from known)
  cases call with
  | makeAlias id target =>
    obtain ⟨linked, made, mirrors⟩ := mirrors.makeAlias known.1 known.2
    refine ⟨linked, ?_, mirrors, fun other => absurd rfl (other id target)⟩
    rw [step, made, Allocator.apply]
    cases aliased : frame.makeAlias id target with
    | error fault => rfl
    | ok next =>
      obtain ⟨-, -, -, -, rfl⟩ := Allocator.makeAlias_ok aliased
      rfl
  | _ =>
    obtain rfl := Option.some.inj done
    exact ⟨links, step_of_not_makeAlias frame links (by simp), mirrorsAfter, fun _ => rfl⟩

theorem perform_eq (mirrors : links.Mirrors frame) (known : call.Known frame) :
    ∃ linked, perform (frame, links) call = some (frame.perform call, linked) ∧
      linked.Mirrors (frame.perform call) := by
  cases call with
  | record call =>
    obtain ⟨linked, stepped, mirrors, -⟩ := step_eq mirrors known
    refine ⟨linked, ?_, mirrors⟩
    rw [perform, stepped, Allocator.perform, Allocator.attempt]
    cases frame.apply call <;> rfl
  | resolve =>
    obtain ⟨linked, done, mirrors⟩ := mirrors.perform known
    exact ⟨linked, by rw [perform, done]; rfl, mirrors⟩

theorem run_eq (mirrors : links.Mirrors frame) (addressed : frame.Addresses script) :
    ∃ linked, script.foldlM perform (frame, links) =
        some (script.foldl Allocator.perform frame, linked) ∧
      linked.Mirrors (script.foldl Allocator.perform frame) := by
  induction script generalizing frame links with
  | nil => exact ⟨links, rfl, mirrors⟩
  | cons call script ih =>
    obtain ⟨next, done, mirrors⟩ := perform_eq mirrors addressed.1
    obtain ⟨linked, rest, mirrors⟩ := ih mirrors addressed.2
    exact ⟨linked, by simpa [List.foldlM_cons, done] using rest, mirrors⟩

/-- Whatever was called before, calls that are carried out in place return, and are
accepted or refused as the allocator does. One that is refused leaves the frame as it was.
It may have shortened links, but all of them end where they did, and only a call that lets
a slot share bytes touches them. -/
theorem refused_in_place
    (policy : FreePolicy)
    (frameAlignment : Nat)
    (script : List Call)
    (addressed : (Allocator.new policy frameAlignment).Addresses script) :
    ∃ frame links, script.foldlM perform (.new policy frameAlignment, .empty) =
        some (frame, links) ∧
      frame = script.foldl Allocator.perform (.new policy frameAlignment) ∧
      ∀ call : Step, call.Known frame →
        ∃ result, step frame links call = some result ∧
          (∀ next, result = .ok () next → frame.apply call = .ok next.1) ∧
          ∀ fault left, result = .error fault left →
            frame.apply call = .error fault ∧ left.1 = frame ∧
            (∀ id, ∃ root before after,
              links.Climbs before id root ∧ left.2.Climbs after id root) ∧
            ((∀ id target, call ≠ .makeAlias id target) → left.2 = links) := by
  obtain ⟨links, ran, mirrors⟩ := run_eq (.new policy frameAlignment) addressed
  refine ⟨_, links, ran, rfl, fun call known => ?_⟩
  generalize script.foldl Allocator.perform _ = frame at mirrors known
  obtain ⟨linked, stepped, after, untouched⟩ := step_eq mirrors known
  refine ⟨_, stepped, ?_⟩
  cases applied : frame.apply call with
  | ok accepted =>
    constructor
    · rintro next ⟨⟩
      rfl
    · rintro fault left ⟨⟩
  | error refusal =>
    constructor
    · rintro next ⟨⟩
    · rintro fault left ⟨⟩
      rw [Allocator.attempt, applied] at after
      refine ⟨rfl, rfl, fun id => ?_, untouched⟩
      obtain ⟨before, climbs⟩ := mirrors.climbs id
      obtain ⟨count, climbsStill⟩ := after.climbs id
      exact ⟨_, _, _, climbs, climbsStill⟩

/-- Slot 2 links to slot 1 and slot 1 to slot 0. The second arm of branch 1 leaves slot 5,
and slot 3 is too small for the bytes of slot 0. -/
theorem refused_in_place_after_branch :
    let script : List Call := [.allocate 8 8, .allocate 8 4, .allocate 8 4, .makeAlias 2 1,
      .makeAlias 1 0, .allocate 4 4, .checkpoint, .allocate 8 8, .rewind 1,
      .allocate 8 8].map Call.record
    (Allocator.new .strict 16).Addresses script ∧
      ∃ frame links, script.foldlM perform (.new .strict 16, .empty) = some (frame, links) ∧
        step frame links (.rewind 1) =
          some (.error (.unresolvedBranchSlot 1 5) (frame, links)) ∧
        ∃ linked, step frame links (.makeAlias 3 2) =
          some (.error (.aliasSizeMismatch 3 4 0 8) (frame, linked)) := by
  intro script
  have addressed : (Allocator.new .strict 16).Addresses script := by decide +kernel
  obtain ⟨frame, links, ran, frame_eq, calls⟩ := refused_in_place .strict 16 script addressed
  have unresolved : frame.apply (.rewind 1) = .error (.unresolvedBranchSlot 1 5) := by
    rw [frame_eq]
    decide +kernel
  have mismatch : frame.apply (.makeAlias 3 2) = .error (.aliasSizeMismatch 3 4 0 8) := by
    rw [frame_eq]
    decide +kernel
  have left : ∀ {call fault}, call.Known frame → frame.apply call = .error fault →
      ∃ linked, step frame links call = some (.error fault (frame, linked)) ∧
        ((∀ id target, call ≠ .makeAlias id target) → linked = links) := by
    intro call fault known refused
    obtain ⟨result, stepped, accepted, rejected⟩ := calls call known
    cases result with
    | ok _ next =>
      rw [accepted next rfl] at refused
      cases refused
    | error cause left =>
      obtain ⟨applied, same, -, untouched⟩ := rejected cause left rfl
      obtain rfl := Except.error.inj (applied.symm.trans refused)
      exact ⟨left.2, by rw [stepped, ← same], untouched⟩
  obtain ⟨linked, rewinds, untouched⟩ := left (by rw [frame_eq]; decide +kernel) unresolved
  obtain ⟨shortened, joins, -⟩ := left (by rw [frame_eq]; decide +kernel) mismatch
  rw [untouched (fun _ _ => by simp)] at rewinds
  exact ⟨addressed, frame, links, ran, rewinds, shortened, joins⟩

end InPlace

/-! ## Layouts that fail -/

namespace Allocator

variable {frame laid : Allocator}

/-- How the layouts of a script come out. -/
def layouts (frame : Allocator) : List Call → List (Except Error Unit)
  | [] => []
  | .record step :: script => (frame.attempt step).layouts script
  | .resolve :: script => frame.resolve.2 :: frame.resolve.1.layouts script

/-- The frame has a size, and every slot that holds a value in bytes of its own has an
address. -/
structure Laid (frame : Allocator) : Prop where
  sized : frame.frameSize.isSome = true
  placed : ∀ id, (frame.slot id).inUse = true → frame.isAliased id = false →
    0 < (frame.slot id).size → (frame.offset? id).isSome = true

theorem resolve_of_resolved (isLaidOut : frame.resolved = true) :
    frame.resolve = (frame, .ok ()) := by
  rw [resolve, if_pos isLaidOut]

theorem foldl_perform_of_resolved (isLaidOut : frame.resolved = true) (script : List Call) :
    script.foldl perform frame = frame := by
  induction script with
  | nil => rfl
  | cons call script ih =>
    have same : frame.perform call = frame := by
      cases call with
      | record step => exact run_of_resolved isLaidOut [step]
      | resolve => rw [perform, resolve_of_resolved isLaidOut]
    rw [List.foldl_cons, same, ih]

theorem layouts_of_resolved (isLaidOut : frame.resolved = true) (script : List Call) :
    ∀ out ∈ frame.layouts script, out = .ok () := by
  induction script with
  | nil => exact List.forall_mem_nil _
  | cons call script ih =>
    cases call with
    | record step =>
      have same : frame.attempt step = frame := run_of_resolved isLaidOut [step]
      rw [layouts, same]
      exact ih
    | resolve =>
      rw [layouts, resolve_of_resolved isLaidOut]
      exact List.forall_mem_cons.mpr ⟨rfl, ih⟩

theorem frameSize_of_failed (failed : frame.resolve.2 = .error fault) :
    frame.resolve.1.frameSize = frame.frameSize := by
  revert failed
  unfold resolve
  split
  · exact fun _ => rfl
  · split
    · exact fun _ => rfl
    · split
      · exact fun _ => rfl
      · intro impossible
        cases impossible

theorem Recorded.laid_of_resolve (recorded : frame.Recorded) (resolved : frame.resolve =
    (laid, .ok ())) :
    laid.Laid := by
  obtain ⟨size, size_eq, -⟩ := exists_frameSize_of_resolve recorded.isOpen resolved
  refine ⟨by rw [size_eq]; rfl, fun id inUse notAliased bytes => ?_⟩
  have kept : ∀ {α : Type} (field : Slot → α),
      (∀ slot offset, field { slot with offset } = field slot) →
        field (laid.slot id) = field (frame.slot id) := by
    intro α field same
    have kept := resolve_of_kept field same frame id
    rwa [resolved] at kept
  rw [kept Slot.inUse fun _ _ => rfl] at inUse
  rw [kept Slot.size fun _ _ => rfl] at bytes
  rw [isAliased, kept Slot.aliasOf fun _ _ => rfl] at notAliased
  have live := recorded.live id (by simp [ownsBytes, isAliased, inUse, notAliased])
  exact (recorded.isSome_offset?_iff resolved (by simpa using notAliased)).mpr ⟨bytes, live.1⟩

/-- The first layout decides: it fails and leaves no size, or it lays the frame out. -/
theorem Recorded.laid_or_failed (recorded : frame.Recorded) (unsized : frame.frameSize = none)
    (resolved : (script.foldl perform frame).resolve = (laid, .ok ())) :
    laid.Laid ∧ (∀ out ∈ frame.layouts script, out = .ok ()) ∨
      laid.frameSize = none ∧ ∃ fault, .error fault ∈ frame.layouts script := by
  induction script generalizing frame with
  | nil => exact .inl ⟨recorded.laid_of_resolve resolved, List.forall_mem_nil _⟩
  | cons call script ih =>
    cases call with
    | record step =>
      refine ih (recorded.run [step]) ?_ resolved
      refine @run_induction (fun frame => frame.frameSize = none) ?_ [step] frame unsized
      intro _ _ _ before ran
      obtain ⟨-, _, _, _, _, rfl⟩ := apply_eq ran
      exact before
    | resolve =>
      have isLaidOut := frame.resolved_resolve
      rw [List.foldl_cons, perform, foldl_perform_of_resolved isLaidOut,
        resolve_of_resolved isLaidOut] at resolved
      obtain ⟨rfl, -⟩ := Prod.mk.inj resolved
      rw [layouts]
      cases out : frame.resolve.2 with
      | ok _ =>
        exact .inl ⟨recorded.laid_of_resolve (Prod.ext rfl out),
          List.forall_mem_cons.mpr ⟨rfl, layouts_of_resolved isLaidOut script⟩⟩
      | error fault =>
        exact .inr ⟨(frameSize_of_failed out).trans unsized, fault, List.mem_cons_self⟩

theorem size_fst (frame : Allocator) : frame.size.1 = frame.resolve.1 := by
  unfold size
  split
  · rename_i failed
    rw [failed]
  · rename_i resolved
    rw [resolved]
    split <;> rfl

/-- A layout that succeeds leaves a frame that is laid out, if no layout before it failed.
After one that failed, every later one succeeds, but the frame has no size. Asking for the
size is a layout too. -/
theorem layout_succeeds
    (policy : FreePolicy)
    (frameAlignment : Nat)
    (script : List Call)
    (resolved : (script.foldl perform (new policy frameAlignment)).resolve = (laid, .ok ())) :
    (laid.Laid ∧ (∀ outcome ∈ (new policy frameAlignment).layouts script, outcome = .ok ()) ∨
        laid.frameSize = none ∧
          ∃ fault, .error fault ∈ (new policy frameAlignment).layouts script) ∧
      ∀ frame : Allocator, frame.size.1 = frame.resolve.1 :=
  ⟨(Recorded.new policy frameAlignment).laid_or_failed rfl resolved, size_fst⟩

theorem layout_succeeds_twice :
    let script : List Call :=
      [.record (.allocate 8 8), .resolve, .record (.allocate 8 8), .resolve]
    let last := script.foldl perform (new .strict 16)
    last.resolve = (last, .ok ()) ∧ last.Laid := by
  intro script last
  have resolved : last.resolve = (last, .ok ()) := by decide +kernel
  have succeeds : ∀ outcome ∈ (new .strict 16).layouts script, outcome = .ok () := by
    decide +kernel
  refine ⟨resolved, ?_⟩
  obtain ⟨⟨laidOut, -⟩ | ⟨-, fault, failed⟩, -⟩ := layout_succeeds .strict 16 script resolved
  · exact laidOut
  · cases succeeds _ failed

/-- The second slot has no room in the frame. The first layout says so, the second does
not. -/
theorem layout_succeeds_after_failure :
    let script : List Call :=
      [.record (.allocate 0xffffffff 1), .record (.allocate 0xffffffff 1), .resolve]
    let last := script.foldl perform (new .strict 16)
    (new .strict 16).layouts script = [.error .frameTooLarge] ∧ last.resolve = (last, .ok ()) ∧
      last.frameSize = none ∧ (last.slot 1).inUse = true ∧ last.isAliased 1 = false ∧
      0 < (last.slot 1).size ∧ last.offset? 1 = none := by
  decide +kernel

end Allocator
end StructWasm.Frame

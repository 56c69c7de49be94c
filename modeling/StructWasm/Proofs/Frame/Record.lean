import Mathlib
import StructWasm.Frame.Slot

/-!
# Records of slots that come and go

A record is valid if a slot comes at most once, and goes only while it is there.
Two slots coexist if they are there together at some point of the record. The
second part says what a stack of open checkpoints keeps of the slots that hold
values.
-/

namespace StructWasm.Frame

open List Checkpoint Event

/-! ## Valid records -/

/-- A slot has come and not gone. -/
def Live (events : List Event) (id : SlotId) : Prop :=
  .allocate id ∈ events ∧ .free id ∉ events

/-- Two slots are there together at some point of a record. -/
def Coexist (events : List Event) (first second : SlotId) : Prop :=
  ∃ past, past <+: events ∧ Live past first ∧ Live past second

/-- A slot comes at most once, and goes only while it is there. -/
inductive Valid : List Event → Prop where
  | nil : Valid []
  | allocate {events : List Event} {id : SlotId} :
      Valid events → .allocate id ∉ events → Valid (events ++ [.allocate id])
  | free {events : List Event} {id : SlotId} :
      Valid events → Live events id → Valid (events ++ [.free id])

namespace Valid

variable {events : List Event} {id : SlotId}

theorem of_concat (valid : Valid (events ++ [event])) :
    Valid events ∧ (∀ id, event = .allocate id → .allocate id ∉ events) ∧
      ∀ id, event = .free id → Live events id := by
  generalize whole : events ++ [event] = all at valid
  cases valid with
  | nil => simp at whole
  | allocate before absent =>
    obtain ⟨rfl, last⟩ := append_inj' whole rfl
    obtain rfl := singleton_inj.mp last
    refine ⟨before, ?_, ?_⟩ <;> rintro _ ⟨⟩
    exact absent
  | free before live =>
    obtain ⟨rfl, last⟩ := append_inj' whole rfl
    obtain rfl := singleton_inj.mp last
    refine ⟨before, ?_, ?_⟩ <;> rintro _ ⟨⟩
    exact live

theorem of_append (valid : Valid (earlier ++ later)) : Valid earlier := by
  induction later using List.reverseRecOn with
  | nil => simpa using valid
  | append_singleton later event ih =>
    rw [← append_assoc] at valid
    exact ih valid.of_concat.1

theorem not_mem_of_mem_append (valid : Valid (earlier ++ later)) (mem : .allocate id ∈ later) :
    .allocate id ∉ earlier := by
  induction later using List.reverseRecOn with
  | nil => simp at mem
  | append_singleton later event ih =>
    rw [← append_assoc] at valid
    rcases mem_append.mp mem with inLater | atEnd
    · exact ih valid.of_concat.1 inLater
    · rw [mem_singleton] at atEnd
      subst atEnd
      exact fun inEarlier => valid.of_concat.2.1 _ rfl (mem_append_left _ inEarlier)

theorem comes_of_goes (valid : Valid events) (goes : .free id ∈ events) :
    .allocate id ∈ events := by
  induction valid with
  | nil => simp at goes
  | allocate _ _ ih =>
    simp only [mem_append, mem_singleton, reduceCtorEq, or_false] at goes
    exact mem_append_left _ (ih goes)
  | free _ live ih =>
    simp only [mem_append, mem_singleton, free.injEq] at goes
    rcases goes with goes | rfl
    · exact mem_append_left _ (ih goes)
    · exact mem_append_left _ live.1

theorem append_allocates (valid : Valid events) {ids : List SlotId} (distinct : ids.Nodup)
    (absent : ∀ id ∈ ids, .allocate id ∉ events) : Valid (events ++ ids.map .allocate) := by
  induction ids using List.reverseRecOn with
  | nil => simpa using valid
  | append_singleton ids id ih =>
    rw [nodup_append] at distinct
    rw [map_append, ← append_assoc]
    refine .allocate (ih distinct.1 fun other mem =>
      absent other (mem_append_left _ mem)) ?_
    rw [mem_append, not_or]
    refine ⟨absent id (by simp), ?_⟩
    intro again
    obtain ⟨other, mem, equal⟩ := mem_map.mp again
    injection equal with equal
    exact distinct.2.2 other mem id (by simp) equal

end Valid

variable {owns' : SlotId → Prop}
variable {inner outer : Checkpoint}

theorem Coexist.append {events} (together : Coexist events first second) (more : List Event) :
    Coexist (events ++ more) first second := by
  obtain ⟨past, before, live⟩ := together
  exact ⟨past, before.trans (prefix_append _ _), live⟩

/-- Where the end of a record is replaced by slots that come, those that were
there together and still come are there together again. -/
theorem Coexist.replaceEnd {ids : List SlotId} (together : Coexist (kept ++ dropped) first second)
    (firstComes : .allocate first ∈ kept ++ ids.map .allocate)
    (secondComes : .allocate second ∈ kept ++ ids.map .allocate) :
    Coexist (kept ++ ids.map .allocate) first second := by
  obtain ⟨past, before, firstLive, secondLive⟩ := together
  rcases prefix_or_prefix_of_prefix before (prefix_append kept dropped) with
    inKept | beyond
  · exact ⟨past, inKept.trans (prefix_append _ _), firstLive, secondLive⟩
  · have notFreed : ∀ id, .free id ∉ past → .free id ∉ kept ++ ids.map .allocate := by
      intro id absent mem
      rcases mem_append.mp mem with inKept | inIds
      · exact absent (beyond.subset inKept)
      · simp at inIds
    exact ⟨_, prefix_rfl, ⟨firstComes, notFreed first firstLive.2⟩,
      secondComes, notFreed second secondLive.2⟩

/-! ## What open checkpoints keep -/

/-- What an open checkpoint keeps of the slots that hold values, where some slots
were handed to it by the branch inside it. -/
structure Checkpoint.Keeps
    (checkpoint : Checkpoint)
    (owns : SlotId → Prop)
    (handed : List SlotId) : Prop where
  /-- Its slots came in it or were handed over. -/
  locals_recorded : ∀ id ∈ checkpoint.locals,
    .allocate id ∈ checkpoint.events ∨ id ∈ handed
  /-- What was handed to it belongs to it as long as it holds a value. -/
  handed_held : ∀ id ∈ handed, owns id → id ∈ checkpoint.locals
  /-- A slot that came in it and holds a value belongs to it or was handed on. -/
  held : ∀ id, owns id → .allocate id ∈ checkpoint.events →
    id ∈ checkpoint.locals ∨ id ∈ checkpoint.promoted
  /-- What it handed on came in it. -/
  promoted_recorded : ∀ id ∈ checkpoint.promoted, .allocate id ∈ checkpoint.events
  /-- It has each of its slots once. -/
  locals_nodup : checkpoint.locals.Nodup
  /-- It handed each slot on once. -/
  promoted_nodup : checkpoint.promoted.Nodup
  /-- It hands nothing on before its first arm is finished. -/
  promoted_empty : checkpoint.rewinds = 0 → checkpoint.promoted = []

/-- All of a stack of checkpoints, the innermost first, keep their slots. The outermost
hands nothing on. -/
def AllKeep (owns : SlotId → Prop) : List SlotId → List Checkpoint → Prop
  | handed, [] => handed = []
  | handed, checkpoint :: outer =>
    checkpoint.Keeps owns handed ∧ AllKeep owns checkpoint.promoted outer

variable {checkpoint : Checkpoint} {handed : List SlotId} {owns : SlotId → Prop} {id : SlotId}

theorem Checkpoint.Keeps.mono {owns : SlotId → Prop} (keeps : checkpoint.Keeps owns handed)
    (fewer : ∀ id, .allocate id ∈ checkpoint.events ∨ id ∈ handed → owns' id → owns id) :
    checkpoint.Keeps owns' handed :=
  { keeps with
    handed_held := fun id mem owned =>
      keeps.handed_held id mem (fewer id (.inr mem) owned)
    held := fun id owned comes => keeps.held id (fewer id (.inl comes) owned) comes }

theorem AllKeep.mono {owns : SlotId → Prop} (keep : AllKeep owns handed checkpoints)
    (fewer : ∀ id, owns' id → owns id ∨
      id ∉ handed ∧ ∀ checkpoint ∈ checkpoints, .allocate id ∉ checkpoint.events) :
    AllKeep owns' handed checkpoints := by
  induction checkpoints generalizing handed with
  | nil => exact keep
  | cons checkpoint outer ih =>
    refine ⟨keep.1.mono ?_, ih keep.2 ?_⟩
    · intro id known owned
      rcases fewer id owned with owned | ⟨notHanded, absent⟩
      · exact owned
      · rcases known with comes | inHanded
        · exact absurd comes (absent checkpoint mem_cons_self)
        · exact absurd inHanded notHanded
    · intro id owned
      rcases fewer id owned with owned | ⟨-, absent⟩
      · exact .inl owned
      · refine .inr ⟨?_, fun other mem => absent other (mem_cons_of_mem _ mem)⟩
        intro promoted
        exact absent checkpoint mem_cons_self (keep.1.promoted_recorded id promoted)

theorem AllKeep.locals_nodup (keep : AllKeep owns handed checkpoints) :
    ∀ checkpoint ∈ checkpoints, checkpoint.locals.Nodup := by
  induction checkpoints generalizing handed with
  | nil => exact forall_mem_nil _
  | cons checkpoint outer ih => exact forall_mem_cons.mpr ⟨keep.1.locals_nodup, ih keep.2⟩

/-- A slot that holds a value belongs to the checkpoint in which it came, or to the one that
it was handed to. -/
theorem AllKeep.exists_holder (keep : AllKeep owns handed checkpoints)
    (mem : checkpoint ∈ checkpoints) (comes : .allocate id ∈ checkpoint.events)
    (owned : owns id) : ∃ holder ∈ checkpoints, id ∈ holder.locals := by
  induction checkpoints generalizing handed with
  | nil => cases mem
  | cons first outer ih =>
    rcases mem_cons.mp mem with rfl | mem
    · rcases keep.1.held id owned comes with isLocal | promoted
      · exact ⟨_, mem_cons_self, isLocal⟩
      · cases outer with
        | nil =>
          rw [keep.2] at promoted
          cases promoted
        | cons next outer =>
          exact ⟨next, by simp, keep.2.1.handed_held id promoted owned⟩
    · obtain ⟨holder, isHolder, holds⟩ := ih keep.2 mem
      exact ⟨holder, mem_cons_of_mem _ isHolder, holds⟩

/-- A slot that holds no value can be taken from a checkpoint. -/
theorem Checkpoint.Keeps.without (keeps : checkpoint.Keeps owns handed) (owner : CheckpointId)
    (retired : ¬owns id) : (checkpoint.without owner id).Keeps owns handed := by
  unfold Checkpoint.without
  split
  · refine { keeps with
      locals_recorded := fun other mem =>
        keeps.locals_recorded other (mem_of_mem_erase mem)
      handed_held := ?_
      held := ?_
      locals_nodup := keeps.locals_nodup.erase id }
    · intro other mem owned
      have ne : other ≠ id := fun equal => retired (equal ▸ owned)
      exact (mem_erase_of_ne ne).mpr (keeps.handed_held other mem owned)
    · intro other owned comes
      have ne : other ≠ id := fun equal => retired (equal ▸ owned)
      rw [mem_erase_of_ne ne]
      exact keeps.held other owned comes
  · exact keeps

theorem Checkpoint.promoted_without (checkpoint : Checkpoint) (owner : CheckpointId) (id : SlotId) :
    (checkpoint.without owner id).promoted = checkpoint.promoted := by
  unfold without
  split <;> rfl

theorem Checkpoint.events_without (checkpoint : Checkpoint) (owner : CheckpointId) (id : SlotId) :
    (checkpoint.without owner id).events = checkpoint.events := by
  unfold without
  split <;> rfl

theorem AllKeep.without (keep : AllKeep owns handed checkpoints) (owner : CheckpointId)
    (retired : ¬owns id) :
    AllKeep owns handed (checkpoints.map fun checkpoint => checkpoint.without owner id) := by
  induction checkpoints generalizing handed with
  | nil => exact keep
  | cons checkpoint outer ih =>
    refine ⟨keep.1.without owner retired, ?_⟩
    rw [promoted_without]
    exact ih keep.2

/-- A slot that has not come in the innermost checkpoint can come. -/
theorem Checkpoint.Keeps.adopt (keeps : checkpoint.Keeps owns [])
    (absent : .allocate id ∉ checkpoint.events) : { checkpoint with
      events := checkpoint.events ++ [allocate id]
      locals := checkpoint.locals ++ [id] }.Keeps (fun other => owns other ∨ other = id) [] := by
  have localsRecorded : ∀ other ∈ checkpoint.locals, .allocate other ∈ checkpoint.events := by
    simpa using keeps.locals_recorded
  refine ⟨?_, by simp, ?_, ?_, ?_, keeps.promoted_nodup, keeps.promoted_empty⟩
  · intro other mem
    rcases mem_append.mp mem with old | isNew
    · exact .inl (mem_append_left _ (localsRecorded other old))
    · rw [mem_singleton] at isNew
      exact .inl (by simp [isNew])
  · intro other owned comes
    simp only [mem_append, mem_singleton, allocate.injEq] at comes ⊢
    by_cases isNew : other = id
    · exact .inl (.inr isNew)
    · have := keeps.held other (owned.resolve_right isNew) (comes.resolve_right isNew)
      tauto
  · intro other promoted
    exact mem_append_left _ (keeps.promoted_recorded other promoted)
  · rw [nodup_append]
    refine ⟨keeps.locals_nodup, by simp, ?_⟩
    intro other mem new isNew equal
    rw [mem_singleton] at isNew
    subst equal isNew
    exact absent (localsRecorded _ mem)

theorem Checkpoint.Keeps.recordFree (keeps : checkpoint.Keeps owns handed) (id : SlotId) :
    { checkpoint with events := checkpoint.events ++ [free id] }.Keeps owns handed := by
  refine { keeps with
    locals_recorded := fun other mem =>
      (keeps.locals_recorded other mem).imp (mem_append_left _) fun inHanded => inHanded
    held := ?_
    promoted_recorded := fun other promoted =>
      mem_append_left _ (keeps.promoted_recorded other promoted) }
  intro other owned comes
  exact keeps.held other owned (by simpa using comes)

theorem Checkpoint.Keeps.finishFirst {owns : SlotId → Bool}
    (keeps : checkpoint.Keeps (fun id => owns id = true) [])
    (notHanded : checkpoint.promoted = []) : { checkpoint with
      locals := []
      rewinds := checkpoint.rewinds + 1
      promoted := checkpoint.locals.filter owns }.Keeps (fun id => owns id = true) [] := by
  refine ⟨by simp, by simp, ?_, ?_, nodup_nil, keeps.locals_nodup.filter _, by simp⟩
  · intro id owned comes
    have isLocal : id ∈ checkpoint.locals := by
      simpa [notHanded] using keeps.held id owned comes
    exact .inr (mem_filter.mpr ⟨isLocal, owned⟩)
  · intro id mem
    simpa using keeps.locals_recorded id (mem_filter.mp mem).1

/-- A checkpoint takes over what the branch inside it hands to it. -/
theorem Checkpoint.Keeps.adoptAll {owns : SlotId → Bool}
    (outerKeeps : outer.Keeps (fun id => owns id = true) [])
    (innerKeeps : inner.Keeps (fun id => owns id = true) [])
    (apart : ∀ id, .allocate id ∈ inner.events → .allocate id ∉ outer.events) :
    { outer with locals := outer.locals ++ inner.locals.filter owns }.Keeps
      (fun id => owns id = true) (inner.locals.filter owns) := by
  refine { outerKeeps with
    locals_recorded := ?_
    handed_held := fun id mem _ => mem_append_right _ mem
    held := ?_
    locals_nodup := ?_ }
  · intro id mem
    rcases mem_append.mp mem with old | handed
    · exact .inl (by simpa using outerKeeps.locals_recorded id old)
    · exact .inr handed
  · intro id owned comes
    exact (outerKeeps.held id owned comes).imp (mem_append_left _) fun promoted => promoted
  · rw [nodup_append]
    refine ⟨outerKeeps.locals_nodup, innerKeeps.locals_nodup.filter _, ?_⟩
    rintro id inOuter other inInner rfl
    have comesInside : .allocate id ∈ inner.events := by
      simpa using innerKeeps.locals_recorded id (mem_filter.mp inInner).1
    exact apart id comesInside (by simpa using outerKeeps.locals_recorded id inOuter)

/-- When a branch is left, what came in it counts for the checkpoint around it. -/
theorem Checkpoint.Keeps.absorb (outerKeeps : outer.Keeps owns inner.promoted) {events}
    (handedOver : ∀ id ∈ inner.promoted, .allocate id ∈ events)
    (onlyHanded : ∀ id, owns id → .allocate id ∈ events → id ∈ inner.promoted) :
    { outer with events := outer.events ++ events }.Keeps owns [] := by
  refine { outerKeeps with
    locals_recorded := ?_
    handed_held := by simp
    held := ?_
    promoted_recorded := fun id promoted =>
      mem_append_left _ (outerKeeps.promoted_recorded id promoted) }
  · intro id mem
    rcases outerKeeps.locals_recorded id mem with comes | inHanded
    · exact .inl (mem_append_left _ comes)
    · exact .inl (mem_append_right _ (handedOver id inHanded))
  · intro id owned comes
    rcases mem_append.mp comes with comes | comes
    · exact outerKeeps.held id owned comes
    · exact .inl (outerKeeps.handed_held id (onlyHanded id owned comes) owned)

end StructWasm.Frame

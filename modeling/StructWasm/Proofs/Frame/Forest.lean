import StructWasm.Proofs.Frame.Placed

/-!
# Links between slots

The allocator lets every alias name the slot that owns its bytes, and renames the
whole class of a slot when that slot becomes an alias. A class can also be kept as a
tree of links: an alias links to some slot of its class, a slot that becomes an alias
gets one link, and whoever looks for the owner of the bytes follows the links to their
end and then shortens those on the way.

Both loops are written without a bound, so that `none` stands for a loop that does not
end. Along every script of calls the links end, at the slots that the allocator names.
-/

namespace StructWasm.Frame

open Allocator

/-! ## Loops -/

section Loops

variable {σ α : Type}

/-- Some rounds of a loop, which ends when a round gives its result. -/
def within (round : σ → α ⊕ σ) : Nat → σ → Option α
  | 0, _ => none
  | rounds + 1, state =>
    match round state with
    | .inl result => some result
    | .inr next => within round rounds next

open Classical in
/-- A loop without a bound. There is no result if it does not end. -/
noncomputable def loop (round : σ → α ⊕ σ) (state : σ) : Option α :=
  if ends : ∃ result rounds, within round rounds state = some result then
    some ends.choose
  else
    none

variable {round : σ → α ⊕ σ} {next : σ}

theorem within_unique (ends : within round rounds state = some result)
    (otherEnds : within round others state = some other) : result = other := by
  induction rounds generalizing others state with
  | zero => cases ends
  | succ rounds ih =>
    cases others with
    | zero => cases otherEnds
    | succ others =>
      rw [within] at ends otherEnds
      cases taken : round state with
      | inl value =>
        rw [taken] at ends otherEnds
        exact Option.some.inj (ends.symm.trans otherEnds)
      | inr next =>
        rw [taken] at ends otherEnds
        exact ih ends otherEnds

theorem loop_eq_some_iff :
    loop round state = some result ↔ ∃ rounds, within round rounds state = some result := by
  unfold loop
  split
  · rename_i ends
    obtain ⟨rounds, chosen⟩ := ends.choose_spec
    refine ⟨fun same => ⟨rounds, chosen.trans same⟩, ?_⟩
    rintro ⟨others, otherEnds⟩
    rw [within_unique chosen otherEnds]
  · rename_i endless
    constructor
    · intro impossible
      cases impossible
    · rintro ⟨rounds, ends⟩
      exact absurd ⟨result, rounds, ends⟩ endless

theorem loop_of_inl (taken : round state = .inl result) : loop round state = some result :=
  loop_eq_some_iff.mpr ⟨1, by rw [within, taken]⟩

theorem loop_of_inr (taken : round state = .inr next) : loop round state = loop round next := by
  refine Option.ext fun result => ?_
  rw [loop_eq_some_iff, loop_eq_some_iff]
  constructor
  · rintro ⟨rounds, ends⟩
    cases rounds with
    | zero => cases ends
    | succ rounds =>
      rw [within, taken] at ends
      exact ⟨rounds, ends⟩
  · rintro ⟨rounds, ends⟩
    exact ⟨rounds + 1, by rw [within, taken]; exact ends⟩

end Loops

/-! ## Links -/

/-- Links from aliases to slots of their classes. -/
structure Forest where
  /-- The slot that a slot links to, if it is an alias. -/
  parent? : SlotId → Option SlotId

namespace Forest

def empty : Forest := ⟨fun _ => none⟩

/-- Let a slot link to another one. -/
def link (forest : Forest) (id target : SlotId) : Forest :=
  ⟨Function.update forest.parent? id (some target)⟩

theorem parent?_link (forest : Forest) (id target other : SlotId) :
    (forest.link id target).parent? other =
      if other = id then some target else forest.parent? other :=
  Function.update_apply forest.parent? id (some target) other

/-- Follow one link. -/
def climbRound (forest : Forest) (id : SlotId) : SlotId ⊕ SlotId :=
  match forest.parent? id with
  | none => .inl id
  | some next => .inr next

/-- The end of the links from a slot. -/
noncomputable def climb (forest : Forest) (id : SlotId) : Option SlotId :=
  loop forest.climbRound id

/-- Follow one link, after it was turned to the end of the links. -/
def compressRound (root : SlotId) (state : Forest × SlotId) : Forest ⊕ Forest × SlotId :=
  match state.1.parent? state.2 with
  | none => .inl state.1
  | some next => .inr (if next = root then state.1 else state.1.link state.2 root, next)

/-- Let all slots on the way from a slot to the end of its links link to that end. -/
noncomputable def compress (root : SlotId) (forest : Forest) (id : SlotId) : Option Forest :=
  loop (compressRound root) (forest, id)

section

variable {forest : Forest} {id next root : SlotId}

theorem climb_of_none (owns : forest.parent? id = none) : forest.climb id = some id :=
  loop_of_inl (by rw [climbRound, owns])

theorem climb_of_some (linked : forest.parent? id = some next) :
    forest.climb id = forest.climb next :=
  loop_of_inr (by rw [climbRound, linked])

theorem compress_of_none (owns : forest.parent? id = none) :
    compress root forest id = some forest :=
  loop_of_inl (by rw [compressRound, owns])

theorem compress_of_some (linked : forest.parent? id = some next) : compress root forest id =
      compress root (if next = root then forest else forest.link id root) next :=
  loop_of_inr (by rw [compressRound, linked])

end

/-- The slot that owns the bytes of a slot, with the links that were shortened. -/
noncomputable def find (forest : Forest) (id : SlotId) : Option (SlotId × Forest) := do
  let root ← forest.climb id
  let shortened ← compress root forest id
  return (root, shortened)

/-- Look for the owners of several slots in turn. -/
noncomputable def findAll (forest : Forest) (ids : List SlotId) : Option Forest :=
  ids.foldlM (fun forest id => do return (← forest.find id).2) forest

/-- Let a slot share the bytes of another. Links that were shortened on the way remain
so when the call is refused. -/
noncomputable def makeAlias (forest : Forest) (frame : Allocator) (id target : SlotId) :
    Option (Forest × Except Error Unit) :=
  if frame.resolved then
    some (forest, .error .alreadyResolved)
  else if (forest.parent? id).isSome then
    some (forest, .error (.alreadyAliased id))
  else do
    let (root, shortened) ← forest.find target
    let size := (frame.slot id).size
    let rootSize := (frame.slot root).size
    if root = id then
      return (shortened, .error (.aliasCycle id))
    else if size ≠ rootSize then
      return (shortened, .error (.aliasSizeMismatch id size root rootSize))
    else
      return (shortened.link id root, .ok ())

end Forest

/-- A call of the allocator. -/
inductive Call where
  /-- A call that is recorded. -/
  | record (step : Step)
  /-- The layout of the frame. -/
  | resolve
  deriving DecidableEq, Repr

/-- The slots that a call names are there. -/
def Call.Known (frame : Allocator) : Call → Prop
  | .record step => step.Known frame
  | .resolve => True

instance decidableCallKnown (frame : Allocator) (call : Call) : Decidable (call.Known frame) :=
  match call with
  | .record step => inferInstanceAs (Decidable (step.Known frame))
  | .resolve => isTrue trivial

/-- The allocator after a call, whether or not it is refused. -/
def Allocator.perform (frame : Allocator) : Call → Allocator
  | .record step => frame.attempt step
  | .resolve => frame.resolve.1

/-- Every call of a script names slots that are there when it is made. -/
def Allocator.Addresses (frame : Allocator) : List Call → Prop
  | [] => True
  | call :: script => call.Known frame ∧ (frame.perform call).Addresses script

instance decidableAddresses (frame : Allocator) (script : List Call) :
    Decidable (frame.Addresses script) :=
  match script with
  | [] => isTrue trivial
  | call :: script =>
    have := decidableAddresses (frame.perform call) script
    inferInstanceAs (Decidable (call.Known frame ∧ (frame.perform call).Addresses script))

namespace Forest

variable {forest : Forest} {frame : Allocator}

/-- The links after a call. The layout looks for the owner of every alias once the
record is replayed. -/
noncomputable def perform (forest : Forest) (frame : Allocator) : Call → Option Forest
  | .record (.makeAlias id target) => do return (← forest.makeAlias frame id target).1
  | .record _ => some forest
  | .resolve =>
    match frame.resolved, (Allocator.replay frame.slots .empty frame.timeline).2 with
    | false, .ok _ =>
      forest.findAll ((List.range frame.slots.size).filter fun id => (forest.parent? id).isSome)
    | _, _ => some forest

/-- The allocator and its links after a script. -/
noncomputable def run (frame : Allocator) (forest : Forest) :
    List Call → Option (Allocator × Forest)
  | [] => some (frame, forest)
  | call :: script => do
      let next ← forest.perform frame call
      run (frame.perform call) next script

/-! ## Following links -/

/-- A number of links lead from a slot to one that has no link. -/
inductive Climbs (forest : Forest) : Nat → SlotId → SlotId → Prop where
  | top {id : SlotId} (owns : forest.parent? id = none) :
      Climbs forest 0 id id
  | up {count : Nat} {id next root : SlotId} (linked : forest.parent? id = some next)
      (rest : Climbs forest count next root) :
      Climbs forest (count + 1) id root

namespace Climbs

variable {count : Nat} {id root : SlotId}

theorem owns (climbs : forest.Climbs count id root) : forest.parent? root = none := by
  induction climbs with
  | top owns => exact owns
  | up _ _ ih => exact ih

section

variable (climbs : forest.Climbs count id root)
include climbs

theorem unique (other : forest.Climbs otherCount id otherRoot) :
    count = otherCount ∧ root = otherRoot := by
  induction climbs generalizing otherCount with
  | top owns =>
    cases other with
    | top _ => exact ⟨rfl, rfl⟩
    | up linked _ => simp [owns] at linked
  | up linked _ ih =>
    cases other with
    | top owns => simp [owns] at linked
    | up otherLinked rest =>
      obtain rfl := Option.some.inj (linked.symm.trans otherLinked)
      obtain ⟨rfl, rfl⟩ := ih rest
      exact ⟨rfl, rfl⟩

theorem parent?_eq_none_iff : forest.parent? id = none ↔ root = id := by
  constructor
  · intro owns
    exact (climbs.unique (.top owns)).2
  · rintro rfl
    exact climbs.owns

theorem climb_eq : forest.climb id = some root := by
  induction climbs with
  | top owns => exact climb_of_none owns
  | up linked _ ih => rw [climb_of_some linked, ih]

end

theorem link_of_le (own : forest.Climbs (count + 1) id root)
    (climbs : forest.Climbs otherCount other peak) (le : otherCount ≤ count) :
    (forest.link id root).Climbs otherCount other peak := by
  have away : ∀ {slot : SlotId} {steps : Nat}, forest.Climbs steps slot peak → steps ≤ count →
      (forest.link id root).parent? slot = forest.parent? slot := by
    intro slot steps climbs le
    rw [parent?_link, if_neg]
    rintro rfl
    have := (own.unique climbs).1
    omega
  induction climbs with
  | top owns => exact .top ((away (.top owns) le).trans owns)
  | up linked rest ih =>
    exact .up ((away (.up linked rest) le).trans linked) (ih (by omega) away)

theorem link_own (own : forest.Climbs (count + 1) id root)
    (climbs : forest.Climbs otherCount other peak) :
    ∃ newCount, (forest.link id root).Climbs newCount other peak := by
  induction climbs with
  | top owns => exact ⟨0, own.link_of_le (.top owns) (Nat.zero_le count)⟩
  | @up steps slot next peak linked rest ih =>
    by_cases same : slot = id
    · subst same
      obtain ⟨-, rfl⟩ := own.unique (.up linked rest)
      have linked : (forest.link slot root).parent? slot = some root := by
        rw [parent?_link, if_pos rfl]
      exact ⟨1, .up linked (own.link_of_le (.top own.owns) (Nat.zero_le count))⟩
    · obtain ⟨newCount, climbs⟩ := ih
      exact ⟨newCount + 1, .up (by rw [parent?_link, if_neg same]; exact linked) climbs⟩

/-- A slot that gets a first link takes all that end at it along. -/
theorem link_root (owns : forest.parent? id = none) (apart : root ≠ id)
    (rootOwns : forest.parent? root = none) (climbs : forest.Climbs count target peak) :
    ∃ newCount, (forest.link id root).Climbs newCount target
      (if peak = id then root else peak) := by
  have rootClimbs : (forest.link id root).Climbs 0 root root :=
    .top (by rw [parent?_link, if_neg apart]; exact rootOwns)
  induction climbs with
  | @top slot slotOwns =>
    by_cases same : slot = id
    · rw [if_pos same]
      exact ⟨1, .up (by rw [parent?_link, if_pos same]) rootClimbs⟩
    · rw [if_neg same]
      exact ⟨0, .top (by rw [parent?_link, if_neg same]; exact slotOwns)⟩
  | @up steps slot next peak linked _ ih =>
    obtain ⟨newCount, climbs⟩ := ih
    refine ⟨newCount + 1, .up ?_ climbs⟩
    rw [parent?_link, if_neg, linked]
    rintro rfl
    simp [owns] at linked

/-- Shortening links ends and changes no end of links. -/
theorem compress_spec (climbs : forest.Climbs count id root) :
    ∃ shortened, compress root forest id = some shortened ∧
      ∀ {steps : Nat} {other peak : SlotId}, forest.Climbs steps other peak →
        ∃ newSteps, shortened.Climbs newSteps other peak := by
  induction count generalizing forest id with
  | zero =>
    cases climbs with
    | top owns => exact ⟨forest, compress_of_none owns, fun climbs => ⟨_, climbs⟩⟩
  | succ count ih =>
    rcases climbs with _ | @⟨_, _, next, _, linked, rest⟩
    rw [compress_of_some linked]
    by_cases last : next = root
    · obtain ⟨shortened, compressed, keeps⟩ := ih rest
      exact ⟨shortened, by simpa [last] using compressed, keeps⟩
    · have own : forest.Climbs (count + 1) id root := .up linked rest
      obtain ⟨shortened, compressed, keeps⟩ :=
        ih (own.link_of_le rest (Nat.le_refl count))
      refine ⟨shortened, by simpa [last] using compressed, ?_⟩
      intro steps other peak climbs
      obtain ⟨_, climbs⟩ := own.link_own climbs
      exact keeps climbs

end Climbs

/-! ## Links and the allocator -/

/-- The links of every slot end at the slot that the allocator names. -/
structure Mirrors (forest : Forest) (frame : Allocator) : Prop where
  /-- An alias names a slot that is none. -/
  rooted : frame.Rooted
  /-- The links end at the root of the slot. -/
  climbs : ∀ id, ∃ count, forest.Climbs count id (frame.root id)

end Forest

namespace Allocator

variable {next : Allocator} {α : Type}

theorem root_eq_of_aliasOf {frame : Allocator} {id}
    (same : (next.slot id).aliasOf = (frame.slot id).aliasOf) : next.root id = frame.root id := by
  rw [root, root, same]

theorem Rooted.isAliased_eq_false_iff {frame : Allocator} (rooted : frame.Rooted) (id : SlotId) :
    frame.isAliased id = false ↔ frame.root id = id := by
  unfold isAliased root
  cases shared : (frame.slot id).aliasOf with
  | none => simp
  | some root =>
    have := (rooted id root shared).2.1
    simp only [Option.isSome_some, Bool.true_eq_false, Option.getD_some, false_iff]
    rintro rfl
    simp [shared] at this

theorem root_joined {frame : Allocator} {id} (inside : id < frame.slots.size)
    (owns : frame.isAliased id = false) (root other : SlotId) : (frame.joined id root).root other =
      if frame.root other = id then root else frame.root other := by
  have alone : (frame.slot id).aliasOf = none := by simpa [isAliased] using owns
  unfold Allocator.root
  rw [aliasOf_joined frame inside]
  by_cases same : other = id
  · simp [same, alone]
  · cases shared : (frame.slot other).aliasOf with
    | none => simp [same]
    | some named => by_cases isNamed : named = id <;> simp [same, isNamed]

/-- The layout changes nothing but addresses. -/
theorem resolve_of_kept (field : Slot → α)
    (kept : ∀ slot offset, field { slot with offset } = field slot) (frame : Allocator)
    (id : SlotId) : field (frame.resolve.1.slot id) = field (frame.slot id) := by
  have settled : ∀ slots : Array Slot, field ((slots.map (settleAlias slots)).getD id .absent) =
        field (slots.getD id .absent) := by
    intro slots
    simp only [Array.getD_eq_getD_getElem?, Array.getElem?_map]
    cases slots[id]? with
    | none => rfl
    | some slot =>
      simp only [Option.map_some, Option.getD_some, settleAlias]
      split
      · rfl
      · exact kept _ _
  unfold resolve
  split
  · rfl
  · have moved : ∀ slot offset, 0 < slot.size → field { slot with offset } = field slot :=
      fun slot offset _ => kept slot offset
    split
    · rename_i slots fault replayed
      exact replay_of_kept field moved replayed id
    · rename_i slots free replayed
      have same := (settled slots).trans (replay_of_kept field moved replayed id)
      split <;> exact same

theorem size_replay (slots : Array Slot) (free : FreeList) (events : List Event) :
    (replay slots free events).1.size = slots.size := by
  fun_induction replay slots free events <;> simp_all

theorem size_resolve (frame : Allocator) : frame.resolve.1.slots.size = frame.slots.size := by
  have replayed := size_replay frame.slots .empty frame.timeline
  unfold resolve
  split
  · rfl
  · split
    · rename_i result
      rw [result] at replayed
      exact replayed
    · rename_i result
      rw [result] at replayed
      split <;> simpa using replayed

end Allocator

namespace Forest

variable {forest : Forest} {frame : Allocator}

namespace Mirrors

theorem new (policy : FreePolicy) (frameAlignment : Nat) :
    empty.Mirrors (.new policy frameAlignment) where
  rooted := .new policy frameAlignment
  climbs := by
    intro id
    exact ⟨0, .top rfl⟩

section

variable (mirrors : forest.Mirrors frame)
include mirrors

theorem parent?_eq_none_iff (id : SlotId) :
    forest.parent? id = none ↔ frame.isAliased id = false := by
  obtain ⟨_, climbs⟩ := mirrors.climbs id
  rw [climbs.parent?_eq_none_iff, mirrors.rooted.isAliased_eq_false_iff]

theorem find (id : SlotId) :
    ∃ shortened, forest.find id = some (frame.root id, shortened) ∧ shortened.Mirrors frame := by
  obtain ⟨_, climbs⟩ := mirrors.climbs id
  obtain ⟨shortened, compressed, keeps⟩ := climbs.compress_spec
  refine ⟨shortened, by simp [Forest.find, climbs.climb_eq, compressed], mirrors.rooted, ?_⟩
  intro other
  obtain ⟨_, otherClimbs⟩ := mirrors.climbs other
  exact keeps otherClimbs

theorem findAll (ids : List SlotId) :
    ∃ shortened, forest.findAll ids = some shortened ∧ shortened.Mirrors frame := by
  induction ids generalizing forest with
  | nil => exact ⟨forest, rfl, mirrors⟩
  | cons id ids ih =>
    obtain ⟨shortened, found, mirrors⟩ := mirrors.find id
    obtain ⟨last, rest, mirrors⟩ := ih mirrors
    refine ⟨last, ?_, mirrors⟩
    simpa [Forest.findAll, List.foldlM_cons, found] using rest

theorem of_same_aliases {next : Allocator} (rooted : next.Rooted)
    (same : ∀ id, (next.slot id).aliasOf = (frame.slot id).aliasOf) : forest.Mirrors next where
  rooted := rooted
  climbs := by
    intro id
    rw [root_eq_of_aliasOf (same id)]
    exact mirrors.climbs id

/-- A slot becomes an alias by its links if and only if it does so for the allocator, and
a call that is refused is refused for the same cause. -/
theorem makeAlias {id target} (inside : id < frame.slots.size)
    (targetInside : target < frame.slots.size) : ∃ linked, forest.makeAlias frame id target =
        some (linked, (frame.makeAlias id target).map fun _ => ()) ∧
      linked.Mirrors (frame.attempt (.makeAlias id target)) := by
  obtain ⟨shortened, found, kept⟩ := mirrors.find target
  rw [attempt, apply, Forest.makeAlias, makeAlias_eq]
  by_cases isLaidOut : frame.resolved
  · simpa [isLaidOut, Except.map] using mirrors
  by_cases already : frame.isAliased id
  · have : (forest.parent? id).isSome := by
      rw [Option.isSome_iff_ne_none, Ne, mirrors.parent?_eq_none_iff, already]
      simp
    simpa [isLaidOut, already, this, Except.map] using mirrors
  have owns : frame.isAliased id = false := by simpa using already
  have unlinked : forest.parent? id = none := (mirrors.parent?_eq_none_iff id).mpr owns
  by_cases cycle : frame.root target = id
  · simpa [isLaidOut, owns, unlinked, found, cycle, Except.map] using kept
  by_cases sameSize : (frame.slot id).size = (frame.slot (frame.root target)).size
  · refine ⟨shortened.link id (frame.root target),
      by simp [isLaidOut, owns, unlinked, found, cycle, sameSize, Except.map], ?_⟩
    have aliased : frame.makeAlias id target = .ok (frame.joined id (frame.root target)) := by
      simp [makeAlias_eq, isLaidOut, owns, cycle, sameSize]
    simp only [isLaidOut, owns, cycle, sameSize, if_false, Bool.false_eq_true, ne_eq,
      not_true_eq_false]
    refine ⟨mirrors.rooted.makeAlias inside targetInside aliased, ?_⟩
    intro other
    rw [root_joined inside owns]
    obtain ⟨_, climbs⟩ := kept.climbs other
    obtain ⟨_, targetClimbs⟩ := kept.climbs target
    exact climbs.link_root ((kept.parent?_eq_none_iff id).mpr owns) cycle targetClimbs.owns
  · simpa [isLaidOut, owns, unlinked, found, cycle, sameSize, Except.map] using kept

/-- The links follow every call, and looking for owners always ends. -/
theorem perform (known : call.Known frame) :
    ∃ next, forest.perform frame call = some next ∧ next.Mirrors (frame.perform call) := by
  cases call with
  | record step =>
    by_cases joins : ∃ id target, step = .makeAlias id target
    · obtain ⟨id, target, rfl⟩ := joins
      obtain ⟨linked, made, mirrors⟩ := mirrors.makeAlias known.1 known.2
      exact ⟨linked, by simp [Forest.perform, made], mirrors⟩
    · have other : ∀ id target, step ≠ .makeAlias id target := by
        intro id target same
        exact joins ⟨id, target, same⟩
      have unchanged : forest.perform frame (.record step) = some forest := by
        cases step with
        | makeAlias id target => exact absurd rfl (other id target)
        | _ => rfl
      refine ⟨forest, unchanged, ?_⟩
      simp only [Allocator.perform, Allocator.attempt]
      split
      · rename_i next ran
        exact mirrors.of_same_aliases (mirrors.rooted.apply known ran)
          (Allocator.aliasOf_apply ran other)
      · exact mirrors
  | resolve =>
    have laidOut : ∀ {links : Forest}, links.Mirrors frame → links.Mirrors frame.resolve.1 := by
      intro links mirrors
      have same : frame.SameSlots frame.resolve.1 := ⟨frame.size_resolve,
        Allocator.resolve_of_kept Slot.form (fun _ _ => rfl) frame⟩
      exact mirrors.of_same_aliases (mirrors.rooted.of_same_slots same) same.alias_eq
    simp only [Forest.perform]
    split
    · obtain ⟨shortened, found, mirrors⟩ := mirrors.findAll
        ((List.range frame.slots.size).filter fun id => (forest.parent? id).isSome)
      exact ⟨shortened, found, laidOut mirrors⟩
    · exact ⟨forest, rfl, laidOut mirrors⟩

theorem run (addressed : frame.Addresses script) :
    ∃ last, Forest.run frame forest script = some (script.foldl Allocator.perform frame, last) ∧
      last.Mirrors (script.foldl Allocator.perform frame) := by
  induction script generalizing forest frame with
  | nil => exact ⟨forest, rfl, mirrors⟩
  | cons call script ih =>
    obtain ⟨next, done, mirrors⟩ := mirrors.perform addressed.1
    obtain ⟨last, rest, mirrors⟩ := ih mirrors addressed.2
    exact ⟨last, by simpa [Forest.run, done] using rest, mirrors⟩

end

end Mirrors

/-- After every script the links of every slot end, at a slot without a link, which is
the one that the allocator names. Looking for it ends there and changes the end of no
slot. A slot that becomes an alias changes the ends of its class alone, which become
the end of the target; a call that is refused changes none. -/
theorem links_end_after_run
    (policy : FreePolicy)
    (frameAlignment : Nat)
    (script : List Call)
    (addressed : (Allocator.new policy frameAlignment).Addresses script) :
    ∃ frame forest, Forest.run (.new policy frameAlignment) empty script = some (frame, forest) ∧
      frame = script.foldl Allocator.perform (.new policy frameAlignment) ∧
      (∀ id, frame.isAliased (frame.root id) = false ∧
        ∃ count, forest.Climbs count id (frame.root id)) ∧
      (∀ id, ∃ shortened, forest.find id = some (frame.root id, shortened) ∧
        ∀ other, ∃ count, shortened.Climbs count other (frame.root other)) ∧
      ∀ id target, id < frame.slots.size → target < frame.slots.size →
        ∃ linked outcome, forest.makeAlias frame id target = some (linked, outcome) ∧
          (frame.makeAlias id target).map (fun _ => ()) = outcome ∧
          (outcome = .ok () → ∀ other, ∃ count, linked.Climbs count other
            (if frame.root other = frame.root id then frame.root target else frame.root other)) ∧
          ∀ fault, outcome = .error fault →
            ∀ other, ∃ count, linked.Climbs count other (frame.root other) := by
  obtain ⟨forest, ran, mirrors⟩ := (Mirrors.new policy frameAlignment).run addressed
  generalize last : script.foldl Allocator.perform _ = frame at ran mirrors
  refine ⟨frame, forest, ran, rfl, ?_, ?_, ?_⟩
  · intro id
    obtain ⟨count, climbs⟩ := mirrors.climbs id
    exact ⟨(mirrors.parent?_eq_none_iff _).mp climbs.owns, count, climbs⟩
  · intro id
    obtain ⟨shortened, found, kept⟩ := mirrors.find id
    exact ⟨shortened, found, kept.climbs⟩
  · intro id target inside targetInside
    obtain ⟨linked, made, kept⟩ := mirrors.makeAlias inside targetInside
    refine ⟨linked, _, made, rfl, ?_, ?_⟩
    · intro accepted other
      cases aliased : frame.makeAlias id target with
      | error fault => simp [aliased, Except.map] at accepted
      | ok next =>
          obtain ⟨-, owns, -, -, rfl⟩ := Allocator.makeAlias_ok aliased
          have climbs := kept.climbs other
          rw [Allocator.attempt, Allocator.apply, aliased] at climbs
          rw [(mirrors.rooted.isAliased_eq_false_iff id).mp owns]
          simpa [Allocator.root_joined inside owns] using climbs
    · intro fault refused other
      cases aliased : frame.makeAlias id target with
      | error _ =>
          have climbs := kept.climbs other
          rwa [Allocator.attempt, Allocator.apply, aliased] at climbs
      | ok next => simp [aliased, Except.map] at refused

/-- Slot 2 links to slot 1 and slot 1 to slot 0, then the frame is laid out. -/
theorem links_end_after_chain :
    let script : List Call :=
      [.record (.allocate 8 8), .record (.allocate 8 4), .record (.allocate 8 4),
        .record (.makeAlias 2 1), .record (.makeAlias 1 0), .record (.makeAlias 0 2), .resolve]
    (Allocator.new .strict 16).Addresses script ∧
      ∃ frame forest, Forest.run (.new .strict 16) empty script = some (frame, forest) ∧
        frame.root 2 = 0 ∧ ∃ shortened, forest.find 2 = some (0, shortened) := by
  intro script
  have addressed : (Allocator.new .strict 16).Addresses script := by decide +kernel
  obtain ⟨frame, forest, ran, frame_eq, -, finds, -⟩ :=
    links_end_after_run .strict 16 script addressed
  have root_eq : frame.root 2 = 0 := by
    rw [frame_eq]
    decide +kernel
  obtain ⟨shortened, found, -⟩ := finds 2
  exact ⟨addressed, frame, forest, ran, root_eq, shortened, root_eq ▸ found⟩

end Forest
end StructWasm.Frame

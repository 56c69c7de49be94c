import StructWasm.Proofs.Lowering.Emitted

/-!
# Steps around arms and statements

What the arms of a choice give comes to lie in the slot of the choice. A declaration gives
a variable its place, and the end of a scope takes the places of its variables back.
-/

namespace StructWasm.Lowering

open Wasm List

variable {ctx : Context} {passed : List Ty} {work mid next : Workspace}
variable {code : Code} {value : Value}

/-! ## Arms -/

/-- The slot that a choice may have, with its address. -/
def SlotStall (ctx : Context) (frame : Frame.Allocator) (slot? : Option ResultSlot) : Prop :=
  ∀ result ∈ slot?, Stall ctx frame result.1 result.2

theorem SlotStall.mono {frame after} {slot? : Option ResultSlot}
    (stall : SlotStall ctx frame slot?) (onward : frame.Onward after) : SlotStall ctx after slot? :=
  fun result mem => (stall result mem).mono onward

theorem slotStall_of_choiceSlot {slot? : Option ResultSlot}
    (runs : Runs (choiceSlot predicted) ctx work slot? next) : SlotStall ctx next.frame slot? := by
  unfold choiceSlot at runs
  split at runs
  · split at runs
    · obtain ⟨⟨slot, address⟩, allocates, rfl⟩ := runs_map.mp runs
      rintro _ ⟨⟩
      exact (stall_of_allocateStruct allocates).1
    · obtain ⟨rfl, -⟩ := runs.pure
      rintro _ ⟨⟩
  · obtain ⟨rfl, -⟩ := runs.pure
    rintro _ ⟨⟩

theorem Stall.within (stall : Stall ctx work.frame slot address)
    (supported : Supported ctx work scopes) : address.Within work := by
  obtain rfl := stall.address_eq
  refine ⟨supported.framePointer.1, supported.framePointer.2, ?_⟩
  intro number named
  unfold addressOf at named
  dsimp only at named
  split at named
  · cases named
  · rename_i hasBytes
    injection named with named
    subst named
    change 0 < (work.frame.slot slot.id).size
    rw [stall.size_eq]
    exact Nat.pos_of_ne_zero hasBytes

namespace Emission

/-- A temporary that comes to share the slot of the result finds its size and alignment
there. -/
theorem shareSlot (emit : Emission ctx passed work mid code
    temp.value)
    (owned : mid.frame.ownsBytes temp.slot.id = true)
    (stall : Stall ctx mid.frame result.1 result.2)
    (runs : Runs (shareSlot temp result) ctx mid shared next) :
    Emission ctx passed work next code shared ∧ Stall ctx next.frame result.1 result.2 := by
  obtain ⟨_, updates, rfl⟩ := runs.bindPure
  obtain ⟨frame, aliased, rfl⟩ := runs_updateFrame.mp updates
  have seat : Seat ctx mid.frame temp.slot temp.address temp.type := emit.valueSited
  have proper := emit.sited.proper
  have onward := proper.onward_makeAlias owned stall.inside aliased
  have calm : Calm mid { mid with frame } := ⟨rfl, rfl, rfl, onward.toExtends, fun _ => onward⟩
  have kept := emit.toTyping.calm calm
  have grows := calm.grows
  obtain ⟨size_eq, level_le⟩ := proper.level_makeAlias owned stall.inside aliased
  have joined := stall.mono onward
  have resultSeat : Seat ctx frame result.1 result.2 temp.type :=
    { joined with
      known := seat.known
      type_size := by rw [← stall.size_eq, size_eq, seat.size_eq, seat.type_size]
      level_le := Nat.le_trans seat.level_le level_le }
  refine ⟨{ kept with
    within := (stall.within emit.supported).mono grows
    leaves := kept.leaves
    onward := emit.onward.trans onward
    sited := emit.sited.withFrame onward
    valueSited := resultSeat
    emitted := emit.emitted.mono ⟨grows, onward⟩ }, joined⟩

variable (built : ctx.layouts.Built)
include built

variable {span : Span}

theorem settleFirst {slot? kept? : Option ResultSlot}
    (emit : Emission ctx passed work mid code value)
    (stands : Stands origin mid value.slots) (stall : SlotStall ctx mid.frame slot?)
    (runs : Runs (settleFirst value slot? span) ctx mid (more, settled, kept?) next) :
    Emission ctx passed work next (code ++ more) settled ∧ SlotStall ctx next.frame kept? := by
  unfold Lowering.settleFirst at runs
  split at runs
  · rename_i held
    obtain ⟨⟨moved, temp⟩, last, makes, runs⟩ := runs.bind
    have made := emit.materialize built makes
    cases slot? with
    | some result =>
      obtain ⟨shared, shares, rfl, rest⟩ := runs.bindPair
      obtain ⟨rfl, rfl⟩ := Prod.mk.inj rest
      have making := ((slotwise_materialize _ _).isCalm makes).later emit.sited.proper
      have madeStands := stands_of_materialize built.aligned stands makes
      have owned := (madeStands.custody.held _ mem_cons_self).owns
      obtain ⟨sharing, kept⟩ := made.shareSlot owned ((stall result rfl).mono making.onward) shares
      refine ⟨sharing, ?_⟩
      rintro _ ⟨⟩
      exact kept
    | none =>
      obtain ⟨⟨rfl, rest⟩, rfl⟩ := runs.pair
      obtain ⟨rfl, rfl⟩ := Prod.mk.inj rest
      refine ⟨made, ?_⟩
      rintro _ ⟨⟩
      have seat : Seat ctx last.frame temp.slot temp.address temp.type :=
        made.valueSited
      exact seat.toStall
  · obtain ⟨⟨rfl, rest⟩, rfl⟩ := runs.pair
    obtain ⟨rfl, rfl⟩ := Prod.mk.inj rest
    rw [append_nil]
    exact ⟨emit, stall⟩

theorem settleSecond {slot? : Option ResultSlot} (emit : Emission ctx passed work mid code value)
    (stands : Stands origin mid value.slots) (stall : SlotStall ctx mid.frame slot?)
    (runs : Runs (settleSecond value slot? span) ctx mid (more, settled) next) :
    Emission ctx passed work next (code ++ more) settled := by
  unfold Lowering.settleSecond at runs
  split at runs
  · rename_i held
    obtain ⟨⟨moved, temp⟩, last, makes, runs⟩ := runs.bind
    have made := emit.materialize built makes
    cases slot? with
    | some result =>
      obtain ⟨shared, shares, rfl, rfl⟩ := runs.bindPair
      have making := ((slotwise_materialize _ _).isCalm makes).later emit.sited.proper
      have madeStands := stands_of_materialize built.aligned stands makes
      have owned := (madeStands.custody.held _ mem_cons_self).owns
      exact (made.shareSlot owned ((stall result rfl).mono making.onward) shares).1
    | none => exact runs.fail
  · obtain ⟨⟨rfl, rfl⟩, rfl⟩ := runs.pair
    rw [append_nil]
    exact emit

omit built in
theorem dropArm (emit : Emission ctx passed work mid code value)
    (runs : Runs (dropArm value) ctx mid (more, kept) next) :
    Emission ctx passed work next (code ++ more) kept := by
  unfold Lowering.dropArm at runs
  split at runs
  · obtain ⟨⟨rfl, rfl⟩, rfl⟩ := runs.pair
    rw [append_nil]
    exact emit
  · rename_i reached
    obtain ⟨_, discards, rfl, rfl⟩ := runs.bindPair
    have dropped := emit.discard discards
    rw [Bool.not_eq_true] at reached
    rw [reached] at dropped
    exact dropped

end Emission

/-! ## Statements -/

namespace Emission

variable {span : Span} {name : String} {result : Unit}

theorem declare (emit : Emission ctx passed work mid code value)
    (runs : Runs (declare name binding) ctx mid result next)
    (within : binding.Within mid) (bindingSited : binding.Sited ctx passed mid.frame) :
    Emission ctx passed work next code value := by
  obtain rfl := runs_declare.mp runs
  have grows : Grows mid { mid with scopes := enter mid.scopes name binding } :=
    ⟨.refl _, fun _ mem => mem, .refl _⟩
  exact { emit.toTyping.grow grows (emit.supported.mono grows
      (ScopesWithin.mono grows (emit.supported.scopes.enter within name))) with
    onward := emit.onward
    sited := emit.sited.withScopes (emit.sited.scopes.enter bindingSited name) _
    valueSited := emit.valueSited
    emitted := emit.emitted.mono ⟨grows, .refl emit.sited.proper⟩ }

theorem allocateLocal (emit : Emission ctx passed work mid code value)
    (runs : Runs (allocateLocal type) ctx mid place next) :
    Emission ctx passed work next code value ∧ next.locals.Has place ∧ place.type = type ∧
      place ≠ ctx.framePointer := by
  obtain ⟨locals, alloc, rfl⟩ := runs_allocateLocal.mp runs
  obtain ⟨extends_, has, typed⟩ := LocalPool.allocate_spec alloc
  obtain ⟨ordered, -, others⟩ := emit.sited.ordered.allocate alloc
  obtain ⟨held, ne⟩ := others _ emit.sited.held
  have grows : Grows mid { mid with locals } := ⟨extends_, fun _ mem => mem, .refl _⟩
  refine ⟨{ emit.toTyping.grow grows
      (emit.supported.mono grows (emit.supported.scopes.mono grows)) with
    onward := emit.onward
    sited := ⟨emit.sited.proper, ordered, held, emit.sited.scopes⟩
    valueSited := emit.valueSited
    emitted := emit.emitted.mono ⟨grows, .refl emit.sited.proper⟩ }, has, typed,
    ne.symm⟩

theorem declareEmpty {name} {note? : Option TypeNote}
    (supported : Supported ctx work work.scopes) (sited : Sited ctx passed work)
    (runs : Runs (declareEmpty span name note?) ctx work result next) :
    Emission ctx passed work next [] .nothing := by
  unfold Lowering.declareEmpty at runs
  split at runs
  · exact runs.fail
  · obtain ⟨type, _, resolves, runs⟩ := runs.bind
    obtain ⟨resolved, rfl⟩ := runs_resolveType.mp resolves
    split at runs
    · obtain ⟨⟨slot, address⟩, mid, allocates, runs⟩ := runs.bind
      obtain ⟨node, last, creates, declares⟩ := runs.bind
      have allocating := isCalm_allocateStruct _ allocates
      have creating := (onOwnership_newValue _ _).isCalm creates
      have started := ((nil supported sited).calm allocating).calm creating
      have seat := seat_of_allocateStruct allocates (Layouts.known_of_resolve resolved)
      have later := creating.later (allocating.later sited.proper).onward.proper
      have kept := seat.mono later.onward
      exact started.declare declares (kept.toStall.within started.supported) kept
    · exact runs.fail

theorem declareValue (built : ctx.layouts.Built) {diverges name valueSpan}
    (emit : Emission ctx passed work mid code value)
    (runs : Runs (declareValue span name value valueSpan) ctx mid (more, diverges) next) :
    Emission ctx passed work next (code ++ more) (flow diverges) := by
  cases value with
  | never =>
    obtain ⟨⟨rfl, rfl⟩, rfl⟩ := runs.pair
    rw [append_nil]
    exact emit
  | nothing => exact runs.fail
  | scalar type =>
    obtain ⟨place, _, allocates, runs⟩ := runs.bind
    obtain ⟨_, declares, rfl, rfl⟩ := runs.bindPair
    obtain ⟨alloc, has, typed, ne⟩ := emit.allocateLocal allocates
    have declared := alloc.declare declares ⟨has, typed⟩ ne
    have kept : next.locals.Has place := by
      obtain rfl := runs_declare.mp declares
      exact has
    refine { declared with
      within := trivial
      leaves := ?_
      valueSited := trivial
      emitted := declared.emitted.append (.localSet kept ne) }
    rintro around covers labels stack _ rfl
    refine (declared.leaves covers labels _ _ rfl).append (.singleton (.localSet ?_))
    rw [← typed]
    exact covers.locals place kept
  | struct held =>
    obtain ⟨⟨moved, temp⟩, made, makes, runs⟩ := runs.bind
    obtain ⟨node, next, creates, runs⟩ := runs.bind
    obtain ⟨_, final, defines, runs⟩ := runs.bind
    obtain ⟨_, declares, rfl, rfl⟩ := runs.bindPair
    have defined := ((emit.materialize built makes).calm
      ((onOwnership_newValue _ _).isCalm creates)).calm ((onOwnership_define _ _).isCalm defines)
    exact (defined.declare declares defined.within defined.valueSited).forget

theorem lowerVariable (supported : Supported ctx work work.scopes) (sited : Sited ctx passed work)
    (runs : Runs (lowerVariable name span) ctx work (code, value) next) :
    Emission ctx passed work next code value := by
  unfold Lowering.lowerVariable at runs
  replace runs := runs_get_bind.mp runs
  split at runs
  · rename_i type place found
    obtain ⟨⟨rfl, rfl⟩, rfl⟩ := runs.pair
    obtain ⟨has, typed⟩ := supported.scopes.lookup found
    refine { nil supported sited with
      within := trivial, leaves := ?_, valueSited := trivial, emitted := .single rfl }
    rintro around covers labels stack _ rfl
    rw [← typed]
    exact .singleton (covers.localGet has labels stack)
  · rename_i entry found
    obtain ⟨⟨rfl, rfl⟩, rfl⟩ := runs.pair
    have nothing := nil supported sited
    exact { nothing with
      within := supported.scopes.lookup found
      leaves := nothing.leaves
      valueSited := Binding.Sited.spans (sited.scopes.lookup found) }
  · exact runs.fail

theorem leave (emit : Emission ctx passed work next code ctx.result.left) :
    Emission ctx passed work next (code ++ epilogue ctx.framePointer ++ [.leave]) .never := by
  refine { emit with within := trivial, leaves := ?_, valueSited := trivial, emitted := ?_ }
  · intro around covers labels before after _
    have leaves := emit.leaves covers labels before _ (ctx.result.leaves_left before)
    have restores := covers.epilogue emit.supported.framePointer.1
      emit.supported.framePointer.2 labels (ctx.result.valTypes.reverse ++ before)
    rw [← covers.results] at leaves restores
    exact (leaves.append restores).append (.singleton .leave)
  · rw [append_assoc]
    exact emit.emitted.append .leave

end Emission

/-! ## Scopes -/

variable {result : Unit}

theorem sited_of_releaseBinding (runs : Runs (releaseBinding binding) ctx work result next)
    (sited : Sited ctx passed work) (within : binding.Within work)
    (bindingSited : binding.Sited ctx passed work.frame) :
    Later work next ∧ Sited ctx passed next := by
  have grows := (grows_of_releaseBinding runs).1
  unfold releaseBinding at runs
  split at runs
  · split at runs
    · obtain ⟨-, rfl⟩ := runs.pure
      exact ⟨.refl sited.proper, sited⟩
    · obtain ⟨locals, freed, rfl⟩ := runs_freeLocal.mp runs
      obtain ⟨ordered, others⟩ :=
        sited.ordered.free (LocalPool.holds_of_free within.1 freed) freed
      exact ⟨⟨grows, .refl sited.proper⟩,
        ⟨sited.proper, ordered, others _ sited.held (Ne.symm bindingSited), sited.scopes⟩⟩
  · split at runs
    · obtain ⟨-, rfl⟩ := runs.pure
      exact ⟨.refl sited.proper, sited⟩
    · have calm := isCalm_release _ runs
      exact ⟨calm.later sited.proper, sited.calm calm⟩

theorem sited_of_forM_releaseBinding {scope : Scope}
    (runs : Runs (scope.forM fun entry => releaseBinding entry.2) ctx work result next)
    (sited : Sited ctx passed work) (within : ∀ entry ∈ scope, entry.2.Within work)
    (scopeSited : ∀ entry ∈ scope, entry.2.Sited ctx passed work.frame) :
    Later work next ∧ Sited ctx passed next := by
  induction scope generalizing work with
  | nil =>
    obtain ⟨-, rfl⟩ := runs.pure
    exact ⟨.refl sited.proper, sited⟩
  | cons entry rest ih =>
    unfold List.forM at runs
    obtain ⟨_, last, releases, runs⟩ := runs.bind
    obtain ⟨later, lastSited⟩ := sited_of_releaseBinding releases sited
      (within entry mem_cons_self) (scopeSited entry mem_cons_self)
    obtain ⟨laterStill, nextSited⟩ := ih runs lastSited
      (fun other mem => (within other (mem_cons_of_mem _ mem)).mono later.grows)
      (fun other mem => (scopeSited other (mem_cons_of_mem _ mem)).mono later.onward)
    exact ⟨later.trans laterStill, nextSited⟩

namespace Emission

theorem popScope {result : Unit} (emit : Emission ctx passed work mid code value)
    (runs : Runs popScope ctx mid result next) : Emission ctx passed work next code value := by
  obtain ⟨grows, scopes_eq⟩ := grows_of_popScope runs
  have typing := emit.toTyping.grow grows (emit.supported.mono grows (by
    rw [scopes_eq]
    exact fun scope inScopes =>
      emit.supported.scopes.mono grows scope (mem_of_mem_tail inScopes)))
  unfold Lowering.popScope at runs
  replace runs := runs_get_bind.mp runs
  obtain ⟨_, _, sets, runs⟩ := runs.bind
  obtain rfl := runs_set.mp sets
  have inScopes {entry : String × Binding} (mem : entry ∈ mid.scopes.headD []) :
      ∃ scope ∈ mid.scopes, entry ∈ scope := by
    cases scopes_eq : mid.scopes with
    | nil => simp [scopes_eq] at mem
    | cons scope outer => exact ⟨scope, mem_cons_self, by simpa [scopes_eq] using mem⟩
  have dropped : Grows mid { mid with scopes := mid.scopes.tail } :=
    ⟨.refl _, fun _ mem => mem, .refl _⟩
  have outerSited := emit.sited.withScopes
    (fun scope inTail => emit.sited.scopes scope (mem_of_mem_tail inTail)) mid.arena
  obtain ⟨later, sited⟩ := sited_of_forM_releaseBinding runs outerSited (fun entry mem => by
      obtain ⟨scope, inScopes, inScope⟩ := inScopes mem
      exact (emit.supported.scopes scope inScopes entry inScope).mono dropped)
    (fun entry mem => by
      obtain ⟨scope, inScopes, inScope⟩ := inScopes mem
      exact emit.sited.scopes scope inScopes entry inScope)
  have onward : mid.frame.Onward next.frame := later.onward
  exact { typing with
    onward := emit.onward.trans onward
    sited
    valueSited := emit.valueSited.mono onward
    emitted := emit.emitted.mono ⟨grows, onward⟩ }

end Emission

end StructWasm.Lowering

import StructWasm.Lowering.Body
import StructWasm.Proofs.Lowering.Run

/-!
# What single steps of lowering do

For every step of lowering that does not lower an expression: when it ends, and
what it changes then.
-/

namespace StructWasm.Lowering

variable {ctx : Context} {work next : Workspace}

/-! ## Locals and frame -/

@[simp] theorem runs_resolveType : Runs (resolveType note) ctx work type next ↔
      ctx.layouts.resolve note.type = .ok type ∧ work = next := by
  unfold resolveType
  cases resolved : ctx.layouts.resolve note.type with
  | ok known => simp [resolved]
  | error mistake => simp [resolved]

@[simp] theorem runs_allocateLocal : Runs (allocateLocal type) ctx work place next ↔
      ∃ locals, work.locals.allocate type = .ok (locals, place) ∧
        { work with locals } = next := by
  unfold allocateLocal
  constructor
  · intro runs
    simp only [runs_bind, runs_get, runs_check, runs_set, runs_pure] at runs
    obtain ⟨_, _, ⟨rfl, rfl⟩, ⟨locals, _⟩, _, ⟨alloc, rfl⟩, _, _, rfl, rfl, rfl⟩ := runs
    exact ⟨locals, alloc, rfl⟩
  · rintro ⟨locals, alloc, rfl⟩
    simp [alloc]

@[simp] theorem runs_freeLocal : Runs (freeLocal place) ctx work result next ↔
      ∃ locals, work.locals.free place = .ok locals ∧ { work with locals } = next := by
  unfold freeLocal
  simp

theorem stops_allocateLocal :
    Stops (allocateLocal type) ctx work fault ↔ work.locals.allocate type = .error fault := by
  simp [allocateLocal]

theorem stops_freeLocal :
    Stops (freeLocal place) ctx work fault ↔ work.locals.free place = .error fault := by
  simp [freeLocal]

@[simp] theorem runs_onFrame {α : Type} {value}
    {step : Frame.Allocator → Except Frame.Error (Frame.Allocator × α)} :
    Runs (onFrame step) ctx work value next ↔
      ∃ frame, step work.frame = .ok (frame, value) ∧ { work with frame } = next := by
  unfold onFrame
  cases out : step work.frame with
  | ok result =>
    obtain ⟨frame, given⟩ := result
    simp [out, and_comm]
  | error cause => simp [out]

@[simp] theorem runs_updateFrame {result}
    {step : Frame.Allocator → Except Frame.Error Frame.Allocator} :
    Runs (updateFrame step) ctx work result next ↔
      ∃ frame, step work.frame = .ok frame ∧ { work with frame } = next := by
  unfold updateFrame
  cases out : step work.frame with
  | ok frame => simp [out]
  | error cause => simp [out]

@[simp] theorem runs_slotAddress : Runs (slotAddress slot) ctx work address next ↔
      { base := ctx.framePointer
        offset := if slot.size = 0 then .fixed 0 else .ofBase (.slot slot.id) } = address ∧
        work = next := by
  unfold slotAddress
  simp [and_comm]

/-- The address of a slot in a frame whose pointer is in a local. -/
def addressOf (framePointer : LocalRef) (slot : Frame.Allocation) : Address :=
  { base := framePointer
    offset := if slot.size = 0 then .fixed 0 else .ofBase (.slot slot.id) }

@[simp] theorem runs_allocateStruct {type slot address} :
    Runs (allocateStruct type) ctx work (slot, address) next ↔ ∃ frame,
        work.frame.allocate (ctx.layouts.size type) (ctx.layouts.alignment type) =
          .ok (frame, slot) ∧
        addressOf ctx.framePointer slot = address ∧ { work with frame } = next := by
  unfold allocateStruct
  simp [addressOf]

theorem runs_release : Runs (release slot) ctx work result next ↔
      (0 < slot.size ∧ ∃ frame, work.frame.free slot.id = .ok frame ∧
        { work with frame } = next) ∨
      (slot.size = 0 ∧ work = next) := by
  unfold release
  split
  · rename_i positive
    simp [positive, Nat.ne_of_gt positive]
  · rename_i zero
    simp [Nat.eq_zero_of_not_pos zero]

/-! ## Scopes -/

/-- Scopes with a name entered in the innermost one. -/
def enter (scopes : List Scope) (name : String) (binding : Binding) : List Scope :=
  match scopes with
  | [] => []
  | scope :: outer => ((name, binding) :: scope) :: outer

@[simp] theorem runs_declare : Runs (declare name binding) ctx work result next ↔
      { work with scopes := enter work.scopes name binding } = next := by
  unfold declare
  rw [runs_modify]
  rfl

@[simp] theorem runs_pushScope : Runs pushScope ctx work result next ↔
      { work with scopes := [] :: work.scopes } = next := by
  unfold pushScope
  rw [runs_modify]

@[simp] theorem runs_restoreScopes :
    Runs (restoreScopes scopes) ctx work result next ↔ { work with scopes } = next := by
  unfold restoreScopes
  rw [runs_modify]

@[simp] theorem runs_typeEnv : Runs typeEnv ctx work env next ↔
      { layouts := ctx.layouts
        variableType? := fun name => (lookup? work.scopes name).map Binding.type
        resultType? := fun name =>
          (ctx.signature? name).join.bind Signature.result } = env ∧
        work = next := by
  unfold typeEnv
  simp [and_comm]

/-! ## Ownership -/

@[simp] theorem runs_newValue : Runs (newValue name type) ctx work node next ↔
      (work.arena.newValue name (ctx.layouts.shape type)).2 = node ∧
        { work with
          arena := (work.arena.newValue name (ctx.layouts.shape type)).1 } = next := by
  unfold newValue
  simp [and_comm]

theorem runs_fieldNode : Runs (fieldNode node type field) ctx work child next ↔
      (work.arena.get? node field).2 = some child ∧
        { work with arena := (work.arena.get? node field).1 } = next := by
  unfold fieldNode
  rcases found : work.arena.get? node field with ⟨arena, _ | other⟩
  · simp [found]
  · simp [found, and_comm]

theorem runs_checkComplete : Runs (checkComplete node span) ctx work result next ↔
      work.arena.isComposable node = true ∧ work = next := by
  unfold checkComplete
  by_cases complete : work.arena.isComposable node = true
  · simp [complete]
  · simp [complete]

theorem runs_onArena {step : Ownership.Arena → Except Ownership.Error Ownership.Arena} :
    Runs (onArena span step) ctx work result next ↔
      ∃ arena, step work.arena = .ok arena ∧ { work with arena } = next := by
  unfold onArena
  cases out : step work.arena with
  | ok arena => simp [out]
  | error refusal => simp [out]

/-- The scopes with copies of the ownership of all variables, and the copies. -/
def forkedScopes (loan : Option Ownership.Loan) (scopes : List Scope)
    (arena : Ownership.Arena) : List Scope × Ownership.Arena :=
  StateT.run (scopes.mapM fun scope => List.mapM (forkBinding loan) scope) arena

/-- The state with copies of the ownership of all variables. -/
def forked (loan : Option Ownership.Loan) (work : Workspace) : Workspace :=
  { work with
    scopes := (forkedScopes loan work.scopes work.arena).1
    arena := (forkedScopes loan work.scopes work.arena).2 }

@[simp] theorem runs_fork :
    Runs (fork loan) ctx work saved next ↔ work.scopes = saved ∧ forked loan work = next := by
  exact runs_iff_of_ok rfl

/-- Ownership after the second nodes were merged into the first ones. -/
def infused (targets branches : List Ownership.NodeId) (arena : Ownership.Arena) :
    Ownership.Arena :=
  (targets.zip branches).foldl (fun arena (target, branch) => arena.infuse target branch) arena

@[simp] theorem runs_infuseAll : Runs (infuseAll targets branches) ctx work result next ↔
      { work with arena := infused targets branches work.arena } = next := by
  unfold infuseAll
  rw [runs_modify]
  rfl

/-- State after code that may or may not have run. -/
def joinedOptional (saved : List Scope) (work : Workspace) : Workspace :=
  { work with
    scopes := saved
    arena := infused (nodesOf saved) (nodesOf work.scopes) work.arena }

@[simp] theorem runs_joinOptional :
    Runs (joinOptional saved) ctx work result next ↔ joinedOptional saved work = next := by
  unfold joinOptional joinedOptional
  simp

/-- State after two arms of which one has run. -/
def joinedArms (first second : List Scope) (firstNever secondNever : Bool)
    (work : Workspace) : Workspace :=
  if firstNever && !secondNever then
    { work with scopes := second }
  else if !firstNever && !secondNever then
    { work with scopes := first, arena := infused (nodesOf first) (nodesOf second) work.arena }
  else
    { work with scopes := first }

@[simp] theorem runs_joinArms :
    Runs (joinArms first second firstNever secondNever) ctx work result next ↔
      joinedArms first second firstNever secondNever work = next := by
  unfold joinArms joinedArms
  cases firstNever <;> cases secondNever <;> simp

/-! ## Checks -/

/-- A value that serves as a primitive of a type. -/
def Value.IsScalar (value : Value) (type : Ty) : Prop :=
  value = .never ∨ value = .scalar type

@[simp] theorem runs_expectScalar : Runs (expectScalar value type span) ctx work result next ↔
      value.IsScalar type ∧ work = next := by
  unfold expectScalar Value.IsScalar
  cases value with
  | scalar actual =>
    by_cases same : actual = type
    · simp [same]
    · simp [same]
  | struct held => simp
  | nothing => simp
  | never => simp

theorem runs_expectScalar_bind {α : Type} {value type span} {rest : Unit → Emit α} {result} :
    Runs (expectScalar value type span >>= rest) ctx work result next ↔
      value.IsScalar type ∧ Runs (rest ()) ctx work result next := by
  rw [runs_bind]
  constructor
  · rintro ⟨_, _, expects, runs⟩
    obtain ⟨isScalar, rfl⟩ := runs_expectScalar.mp expects
    exact ⟨isScalar, runs⟩
  · rintro ⟨isScalar, runs⟩
    exact ⟨(), work, runs_expectScalar.mpr ⟨isScalar, rfl⟩, runs⟩

theorem runs_expectStruct (runs : Runs (expectStruct value type span) ctx work held next) :
    value = .struct held ∧ held.type = type ∧ work = next := by
  unfold expectStruct at runs
  split at runs
  · split at runs
    · rename_i same
      obtain ⟨rfl, rfl⟩ := runs.pure
      exact ⟨rfl, same, rfl⟩
    · exact runs.fail
  · exact runs.fail

theorem eq_of_joinValues (runs : Runs (joinValues first second span) ctx work value next) :
    (value = first ∨ value = second) ∧ work = next := by
  unfold joinValues at runs
  split at runs
  · obtain ⟨rfl, same⟩ := runs.pure
    exact ⟨.inr rfl, same⟩
  · obtain ⟨rfl, same⟩ := runs.pure
    exact ⟨.inl rfl, same⟩
  iterate 2
    · split at runs
      · obtain ⟨rfl, same⟩ := runs.pure
        exact ⟨.inl rfl, same⟩
      · exact runs.fail
  · obtain ⟨rfl, same⟩ := runs.pure
    exact ⟨.inl rfl, same⟩
  · exact runs.fail

@[simp] theorem runs_operandType :
    Runs (operandType op value span) ctx work type next ↔ value = .scalar type ∧ work = next := by
  unfold operandType
  cases value <;> simp

@[simp] theorem runs_operatorFor :
    Runs (operatorFor op operand span) ctx work (instr, result) next ↔
      binaryOp? op operand = some (instr, result) ∧ work = next := by
  unfold operatorFor
  cases binaryOp? op operand <;> simp

/-! ## Calls -/

theorem runs_requestCallee (runs : Runs (requestCallee name argumentCount) ctx work sig next) :
    ctx.signature? name.name = some (some sig) ∧ argumentCount = sig.params.length ∧
      next = { work with requests := work.requests ++ [name.name] } := by
  replace runs := runs_read_bind.mp runs
  split at runs
  · exact runs.fail
  · exact absurd runs not_runs_throw
  · rename_i found
    obtain ⟨_, _, asks, runs⟩ := runs.bind
    obtain rfl := runs_modify.mp asks
    split at runs
    · obtain ⟨rfl, rfl⟩ := runs.pure
      exact ⟨found, by assumption, rfl⟩
    · exact runs.fail

/-! ## Reading fields -/

/-- Reading a field that ends: the object is a structure with such a field. -/
theorem runs_readField
    (runs : Runs (readField object objectSpan field span) ctx work (code, part) next) :
    ∃ held layout address, object = .struct held ∧
      ctx.layouts.field? held.type field.name = some layout ∧
      held.address.advance layout.offset = .ok address ∧ match held.source with
      | .variable node =>
        ∃ child mid, Runs (fieldNode node held.type field.name) ctx work child mid ∧
          if layout.type.isStruct then
            code = [] ∧ mid = next ∧
              part = .struct { type := layout.type, address, source := .variable child }
          else
            Runs (checkComplete child span) ctx mid () next ∧
              code = address.load layout.type.valType ∧ part = .scalar layout.type
      | .temporary slot =>
        if layout.type.isStruct then
          ∃ copySlot copyAddress mid last,
            Runs (allocateStruct layout.type) ctx work (copySlot, copyAddress) mid ∧
            Runs (copyStruct layout.type address copyAddress) ctx mid code last ∧
            Runs (release slot) ctx last () next ∧ part = .struct
              { type := layout.type, address := copyAddress, source := .temporary copySlot }
        else
          Runs (release slot) ctx work () next ∧
            code = address.load layout.type.valType ∧ part = .scalar layout.type := by
  replace runs := runs_read_bind.mp runs
  dsimp only at runs
  split at runs
  · rename_i held
    split at runs
    · exact runs.fail
    · rename_i layout found
      obtain ⟨address, _, checks, runs⟩ := runs.bind
      obtain ⟨advanced, rfl⟩ := runs_check.mp checks
      refine ⟨held, layout, address, rfl, found, advanced, ?_⟩
      cases source : held.source with
      | «variable» node =>
        simp only [source] at runs
        obtain ⟨child, mid, finds, runs⟩ := runs.bind
        refine ⟨child, mid, finds, ?_⟩
        split at runs
        · rename_i isStruct
          obtain ⟨⟨rfl, rfl⟩, rfl⟩ := runs.pair
          rw [if_pos isStruct]
          exact ⟨rfl, rfl, rfl⟩
        · rename_i notStruct
          obtain ⟨_, complete, rfl, rfl⟩ := runs.bindPair
          rw [if_neg notStruct]
          exact ⟨complete, rfl, rfl⟩
      | temporary slot =>
        simp only [source] at runs
        dsimp only
        split at runs
        · rename_i isStruct
          obtain ⟨⟨copySlot, copyAddress⟩, mid, allocates, runs⟩ := runs.bind
          obtain ⟨copied, last, copies, runs⟩ := runs.bind
          obtain ⟨_, releases, rfl, rfl⟩ := runs.bindPair
          rw [if_pos isStruct]
          exact ⟨copySlot, copyAddress, mid, last, allocates, copies, releases, rfl⟩
        · rename_i notStruct
          obtain ⟨_, releases, rfl, rfl⟩ := runs.bindPair
          rw [if_neg notStruct]
          exact ⟨releases, rfl, rfl⟩
  · exact runs.fail

end StructWasm.Lowering

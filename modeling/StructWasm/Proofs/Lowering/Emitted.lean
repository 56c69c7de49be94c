import StructWasm.Proofs.Lowering.MisfitFaults
import StructWasm.Proofs.Lowering.Sites
import StructWasm.Proofs.Lowering.ExpressionTyping

/-!
# What emitted code does to memory and locals

Code that is emitted accesses memory from a local, at a place inside an area. It never
sets the frame pointer, and it gives the stack pointer its value back whenever it leaves
the function. The steps of lowering are gone through once more to see that all their code
is of this kind.
-/

namespace StructWasm.Lowering

open Wasm List

/-! ## Emitted code -/

/-- Whether an instruction neither accesses memory nor sets anything, and neither goes
anywhere nor has code inside it. -/
def isPlain : Instr codeRefs → Bool
  | .unreachable | .drop | .numeric _ | .localGet _ | .const _ | .offsetConst _ | .call _ => true
  | _ => false

/-- Code that puts one more value of a type on the stack. -/
def Puts (ctx : Context) (work : Workspace) (type : ValType) (code : Code) : Prop :=
  ∀ ⦃around : Surroundings codeRefs⦄, Covers around ctx work →
    ∀ labels stack, CodeTyped around labels code stack (type :: stack)

/-- Code as it is emitted up to a state. The base of an access to memory is the local that
is read for its address: right before a load, and before the code for the value that is
stored. Branches are those of loops only. -/
inductive Emitted (ctx : Context) (passed : List Ty) (work : Workspace) : Code → Prop where
  | plain {code : Code} (plain : ∀ instr ∈ code, isPlain instr = true) :
      Emitted ctx passed work code
  | append {first second : Code} (firstEmitted : Emitted ctx passed work first)
      (secondEmitted : Emitted ctx passed work second) :
      Emitted ctx passed work (first ++ second)
  | localSet {place : LocalRef} (has : work.locals.Has place)
      (other : place ≠ ctx.framePointer) :
      Emitted ctx passed work [.localSet place]
  | load {base : LocalRef} {type : ValType} {offset : Offset FrameNumber}
      (permits : Permits ctx passed work.frame base type offset) :
      Emitted ctx passed work [.localGet base, .load type (.natural type offset)]
  | store {base : LocalRef} {type : ValType} {offset : Offset FrameNumber} {code : Code}
      (permits : Permits ctx passed work.frame base type offset)
      (puts : Puts ctx work type code) (emitted : Emitted ctx passed work code) :
      Emitted ctx passed work
        (.localGet base :: code ++ [.store type (.natural type offset)])
  | leave :
      Emitted ctx passed work (epilogue ctx.framePointer ++ [.leave])
  | repeats {condition body : Code} (conditionEmitted : Emitted ctx passed work condition)
      (bodyEmitted : Emitted ctx passed work body) :
      Emitted ctx passed work
        [.block .empty [.loop .empty
          (condition ++ [.numeric .i32Eqz, .branchIf 1] ++ body ++ [.branch 0])]]
  | ifElse {type : BlockType} {thenBody elseBody : Code}
      (thenEmitted : Emitted ctx passed work thenBody)
      (elseEmitted : Emitted ctx passed work elseBody) :
      Emitted ctx passed work [.ifElse type thenBody elseBody]

variable {ctx : Context} {passed : List Ty} {work mid next : Workspace}
variable {code more : Code} {value : Value}

theorem Puts.mono (puts : Puts ctx work type code) (grows : Grows work next) :
    Puts ctx next type code :=
  fun _ covers => puts (covers.of_grows grows)

namespace Emitted

theorem nil : Emitted ctx passed work [] :=
  .plain (by simp)

theorem single (plain : isPlain instr = true) : Emitted ctx passed work [instr] :=
  .plain (by simpa using plain)

theorem mono (emitted : Emitted ctx passed work code) (later : Later work next) :
    Emitted ctx passed next code := by
  induction emitted with
  | plain plain => exact .plain plain
  | append _ _ firstHypothesis secondHypothesis => exact .append firstHypothesis secondHypothesis
  | localSet has other => exact .localSet (has.mono later.grows.locals) other
  | load permits => exact .load (permits.mono later.onward)
  | store permits puts _ valueHypothesis =>
    exact .store (permits.mono later.onward) (puts.mono later.grows) valueHypothesis
  | leave => exact .leave
  | repeats _ _ conditionHypothesis bodyHypothesis =>
    exact .repeats conditionHypothesis bodyHypothesis
  | ifElse _ _ thenHypothesis elseHypothesis => exact .ifElse thenHypothesis elseHypothesis

theorem flatten {codes : List Code} (emitted : ∀ code ∈ codes, Emitted ctx passed work code) :
    Emitted ctx passed work codes.flatten := by
  induction codes with
  | nil => exact .nil
  | cons code codes ih =>
    rw [flatten_cons]
    exact .append (emitted code mem_cons_self)
      (ih fun other mem => emitted other (mem_cons_of_mem _ mem))

theorem push (address : Address) : Emitted ctx passed work address.push :=
  .plain (by simp [Address.push, isPlain])

variable {type : Ty}

theorem loadFrom {address : Address} (spans : address.Spans ctx passed work.frame type)
    (primitive : ¬type.isStruct = true) : Emitted ctx passed work (address.load type.valType) :=
  .load (spans.permits primitive)

theorem copyLeaf (built : ctx.layouts.Built) (sourceSpans : source.Spans ctx passed work.frame type)
    (targetSpans : target.Spans ctx passed work.frame type)
    (sourceWithin : source.Within work) (mem : leaf ∈ ctx.layouts.leaves type)
    (copied : copyLeaf source target leaf = .ok code) : Emitted ctx passed work code := by
  obtain ⟨taken, takes, copied⟩ := bind_eq_ok.mp copied
  obtain ⟨put, puts, copied⟩ := bind_eq_ok.mp copied
  obtain rfl := pure_eq_ok.mp copied
  have advanced : source.advance leaf.1 = .ok { source with offset := taken } :=
    bind_eq_ok.mpr ⟨taken, takes, rfl⟩
  have loaded : Puts ctx work leaf.2
      [.localGet source.base, .load leaf.2 (.natural leaf.2 taken)] :=
    fun _ covers => covers.load (sourceWithin.advance advanced) leaf.2
  exact .store (targetSpans.leaf built mem puts) loaded (.load (sourceSpans.leaf built mem takes))

end Emitted

/-! ## Moving values -/

/-- Code that moves values about: it stays in its areas, and leaves the stack as it is. -/
structure Moves (ctx : Context) (passed : List Ty) (work : Workspace) (code : Code) : Prop where
  emitted : Emitted ctx passed work code
  neutral : ∀ ⦃around : Surroundings codeRefs⦄, Covers around ctx work → Neutral around code

theorem Moves.mono (moves : Moves ctx passed work code) (later : Later work next) :
    Moves ctx passed next code :=
  ⟨moves.emitted.mono later, fun _ covers => moves.neutral (covers.of_grows later.grows)⟩

variable {held : StructValue} {span : Span}

section

variable (built : ctx.layouts.Built)
include built

theorem moves_of_copyStruct {source : Address}
    (runs : Runs (copyStruct type source target) ctx work code next)
    (sourceSpans : source.Spans ctx passed work.frame type)
    (targetSpans : target.Spans ctx passed work.frame type)
    (sourceWithin : source.Within work) (targetWithin : target.Within work) :
    Moves ctx passed next code := by
  unfold copyStruct at runs
  simp only [runs_bind, runs_read, runs_check, runs_pure] at runs
  obtain ⟨_, _, ⟨rfl, rfl⟩, codes, _, ⟨copied, rfl⟩, rfl, rfl⟩ := runs
  refine ⟨Emitted.flatten fun part mem => ?_, fun _ covers =>
    neutral_flatten fun part mem => ?_⟩ <;>
  obtain ⟨leaf, inLeaves, copiedLeaf⟩ := exists_of_mapM_ok copied mem
  · exact .copyLeaf built sourceSpans targetSpans sourceWithin inLeaves copiedLeaf
  · exact covers.copyLeaf sourceWithin targetWithin copiedLeaf

theorem moves_of_moveInto (runs : Runs (moveInto held target span) ctx work code next)
    (proper : work.frame.Proper) (sited : held.Sited ctx passed work.frame)
    (within : held.address.Within work) (targetWithin : target.Within work)
    (targetSpans : target.Spans ctx passed work.frame held.type) : Moves ctx passed next code := by
  unfold moveInto at runs
  obtain ⟨slot?, mid, taken, runs⟩ := runs.bind
  obtain ⟨copied, last, copies, runs⟩ := runs.bind
  have takes := ((onOwnership_take _ _).isCalm taken).later proper
  have copying := ((onOwnership_copyStruct _ _ _).isCalm copies).later takes.onward.proper
  have moves := moves_of_copyStruct built copies (sited.spans.mono takes.onward)
    (targetSpans.mono takes.onward) (within.mono takes.grows) (targetWithin.mono takes.grows)
  cases slot? with
  | none =>
    obtain ⟨rfl, rfl⟩ := runs.pure
    exact moves
  | some slot =>
    obtain ⟨_, release, rfl⟩ := runs.bindPure
    exact moves.mono ((isCalm_release slot release).later copying.onward.proper)

theorem seat_of_materialize (runs : Runs (materialize held span) ctx work
    (code, temp) next)
    (supported : Supported ctx work work.scopes) (proper : work.frame.Proper)
    (sited : held.Sited ctx passed work.frame) (within : held.address.Within work) :
    Seat ctx next.frame temp.slot temp.address temp.type ∧
      temp.address.Within next ∧ Moves ctx passed next code := by
  unfold materialize at runs
  split at runs
  · rename_i slot source
    obtain ⟨⟨rfl, rfl⟩, rfl⟩ := runs.pair
    unfold StructValue.Sited at sited
    rw [source] at sited
    exact ⟨sited, within, .nil, fun around _ => neutral_nil around⟩
  · obtain ⟨⟨slot, address⟩, mid, alloc, runs⟩ := runs.bind
    obtain ⟨moved, moves, rfl, rfl⟩ := runs.bindPair
    have allocates := (isCalm_allocateStruct _ alloc).later proper
    have seat := seat_of_allocateStruct alloc sited.spans.known
    have seatWithin := within_of_allocateStruct alloc supported
    have moving := ((slotwise_moveInto _ _ _).isCalm moves).later allocates.onward.proper
    exact ⟨seat.mono moving.onward, seatWithin.mono moving.grows,
      moves_of_moveInto built moves allocates.onward.proper (sited.mono allocates.onward)
        (within.mono allocates.grows) seatWithin seat.spans⟩

end

/-! ## Steps -/

/-- What lowering came to: valid code that stays in its areas, and a state in which
values have their places. -/
structure Emission (ctx : Context) (passed : List Ty) (work next : Workspace) (code : Code)
    (value : Value) : Prop extends Typing ctx work next code value where
  onward : work.frame.Onward next.frame
  sited : Sited ctx passed next
  valueSited : value.Sited ctx passed next.frame
  emitted : Emitted ctx passed next code

theorem Value.sited_flow (diverges : Bool) (frame : Frame.Allocator) :
    (flow diverges).Sited ctx passed frame := by
  cases diverges <;> trivial

namespace Emission

theorem later (emit : Emission ctx passed work next code value) : Later work next :=
  ⟨emit.grows, emit.onward⟩

theorem nil (supported : Supported ctx work work.scopes) (sited : Sited ctx passed work) :
    Emission ctx passed work work [] .nothing :=
  { Typing.nil supported with
    onward := .refl sited.proper
    sited
    valueSited := trivial
    emitted := .nil }

variable {span : Span} {type : Ty} {held : StructValue}

/-- One more step leaves what it says on the stack, given what the code before it left. -/
theorem step (emit : Emission ctx passed work mid code value) (calm : Calm mid next)
    (within : result.Within next)
    (leaves : ∀ ⦃around : Surroundings codeRefs⦄, Covers around ctx next →
      CodeLeaves around code value → CodeLeaves around (code ++ more) result)
    (valueSited : result.Sited ctx passed next.frame) (emitted : Emitted ctx passed next more) :
    Emission ctx passed work next (code ++ more) result :=
  have later := calm.later emit.sited.proper
  { supported := emit.supported.of_calm calm
    grows := emit.grows.trans later.grows
    within
    leaves := fun _ covers => leaves covers (emit.leaves (covers.of_grows later.grows))
    onward := emit.onward.trans later.onward
    sited := emit.sited.calm calm
    valueSited
    emitted := (emit.emitted.mono later).append emitted }

theorem calm (emit : Emission ctx passed work mid code value) (calm : Calm mid next) :
    Emission ctx passed work next code value :=
  have later := calm.later emit.sited.proper
  { emit.toTyping.calm calm with
    onward := emit.onward.trans later.onward
    sited := emit.sited.calm calm
    valueSited := emit.valueSited.mono later.onward
    emitted := emit.emitted.mono later }

theorem forget (emit : Emission ctx passed work next code (.struct held)) :
    Emission ctx passed work next code .nothing :=
  { emit with within := trivial, leaves := emit.leaves, valueSited := trivial }

theorem never (emit : Emission ctx passed work next code .never)
    (within : value.Within next) (valueSited : value.Sited ctx passed next.frame) :
    Emission ctx passed work next code value :=
  { emit.toTyping.never within with
    onward := emit.onward
    sited := emit.sited
    valueSited
    emitted := emit.emitted }

theorem isScalar (emit : Emission ctx passed work next code value)
    (scalar : value.IsScalar type) : Emission ctx passed work next code (.scalar type) := by
  rcases scalar with rfl | rfl
  · exact emit.never trivial trivial
  · exact emit

theorem andThen (emit : Emission ctx passed work mid code .nothing)
    (second : Emission ctx passed mid next more result) :
    Emission ctx passed work next (code ++ more) result :=
  { emit.toTyping.andThen second.toTyping with
    onward := emit.onward.trans second.onward
    sited := second.sited
    valueSited := second.valueSited
    emitted := (emit.emitted.mono second.later).append second.emitted }

theorem flowThen (emit : Emission ctx passed work mid code (flow diverges))
    (second : Emission ctx passed mid next more (flow othersDiverge)) :
    Emission ctx passed work next (code ++ more) (flow (diverges || othersDiverge)) :=
  { emit.toTyping.flowThen second.toTyping with
    onward := emit.onward.trans second.onward
    sited := second.sited
    valueSited := Value.sited_flow _ _
    emitted := (emit.emitted.mono second.later).append second.emitted }

variable (built : ctx.layouts.Built)

/-! ### Moving values -/

include built in
theorem materialize (emit : Emission ctx passed work mid code (.struct held))
    (runs : Runs (materialize held span) ctx mid (more, temp) next) :
    Emission ctx passed work next (code ++ more) temp.value := by
  obtain ⟨seat, within, moves⟩ := seat_of_materialize built runs emit.supported
    emit.sited.proper emit.valueSited emit.within
  exact emit.step ((slotwise_materialize _ _).isCalm runs) within
    (fun _ covers leaves => leaves.append (moves.neutral covers)) seat moves.emitted

include built in
theorem moveInto (emit : Emission ctx passed work mid code (.struct held))
    (runs : Runs (moveInto held target span) ctx mid more next) (targetWithin : target.Within mid)
    (targetSpans : target.Spans ctx passed mid.frame held.type) :
    Emission ctx passed work next (code ++ more) .nothing :=
  have moves := moves_of_moveInto built runs emit.sited.proper emit.valueSited
    emit.within targetWithin targetSpans
  emit.step ((slotwise_moveInto _ _ _).isCalm runs) trivial
    (fun _ covers leaves => leaves.append (moves.neutral covers)) trivial moves.emitted

theorem discard (emit : Emission ctx passed work mid code value)
    (runs : Runs (discard value) ctx mid more next) :
    Emission ctx passed work next (code ++ more) (flow value.isNever) := by
  have calm := (slotwise_discard _).isCalm runs
  unfold Lowering.discard at runs
  split at runs
  · obtain ⟨rfl, -⟩ := runs.pure
    refine emit.step calm trivial ?_ trivial (.single rfl)
    rintro around covers leaves labels stack _ rfl
    exact (leaves labels _ _ rfl).append (.singleton .drop)
  · obtain ⟨_, -, rfl⟩ := runs.bindPure
    rw [append_nil]
    exact (emit.calm calm).forget
  · rename_i notScalar _
    obtain ⟨rfl, -⟩ := runs.pure
    rw [append_nil]
    have kept := emit.calm calm
    cases value with
    | scalar type => exact absurd rfl (notScalar type)
    | struct held => exact kept.forget
    | nothing => exact kept
    | never => exact kept

/-! ### Expressions -/

theorem passArgument (emit : Emission ctx passed work mid code value)
    (runs : Runs (passArgument value type span) ctx mid (more, slots) next) :
    Emission ctx passed work next (code ++ more) (.scalar type) := by
  have calm := (onOwnership_passArgument _ _ _).isCalm runs
  unfold Lowering.passArgument at runs
  split at runs
  · split at runs
    · rename_i isNever
      obtain ⟨⟨rfl, -⟩, rfl⟩ := runs.pair
      cases value <;> simp only [Value.isNever, Bool.false_eq_true] at isNever
      rw [append_nil]
      exact emit.never trivial trivial
    · obtain ⟨held, _, expects, runs⟩ := runs.bind
      obtain ⟨slot?, -, rfl, -⟩ := runs.bindPair
      obtain ⟨rfl, rfl, rfl⟩ := runs_expectStruct expects
      have width : held.type.valType = .i32 := by
        cases held_type : held.type <;> simp_all [Ty.isStruct, Ty.valType]
      refine emit.step calm trivial ?_ trivial (.push _)
      rintro around covers leaves labels before _ rfl
      rw [width]
      exact (leaves labels before before rfl).append
        (covers.push (Address.Within.mono calm.grows emit.within) labels before)
  · obtain ⟨scalar, runs⟩ := runs_expectScalar_bind.mp runs
    obtain ⟨⟨rfl, -⟩, rfl⟩ := runs.pair
    rw [append_nil]
    exact emit.isScalar scalar

include built in
/-- A field lies where the object lies, and is read or copied from there. -/
theorem readField (emit : Emission ctx passed work mid code object)
    (runs : Runs (readField object objectSpan field span) ctx mid (more, part) next) :
    Emission ctx passed work next (code ++ more) part := by
  have calm := (slotwise_readField _ _ _ _).isCalm runs
  have later := calm.later emit.sited.proper
  obtain ⟨held, layout, address, rfl, found, advanced, out⟩ := runs_readField runs
  have within := Address.Within.advance emit.within advanced
  have spans := (StructValue.Sited.spans emit.valueSited).advance built found advanced
  have loads (primitive : ¬layout.type.isStruct = true) :
      Emission ctx passed work next (code ++ address.load layout.type.valType)
        (.scalar layout.type) := by
    refine emit.step calm trivial ?_ trivial (.loadFrom (spans.mono later.onward) primitive)
    rintro around covers leaves labels before _ rfl
    exact (leaves labels before before rfl).append
      (covers.load (within.mono later.grows) _ labels before)
  split at out
  · obtain ⟨child, last, -, out⟩ := out
    split at out
    · obtain ⟨rfl, -, rfl⟩ := out
      refine emit.step calm (within.mono later.grows) ?_ (spans.mono later.onward) .nil
      exact fun _ _ leaves => (append_nil code).symm ▸ leaves
    · rename_i primitive
      obtain ⟨-, rfl, rfl⟩ := out
      exact loads primitive
  · split at out
    · obtain ⟨copySlot, copyAddress, _, last, allocates, copies, releases, rfl⟩ := out
      have allocating := (isCalm_allocateStruct _ allocates).later emit.sited.proper
      have copying := ((onOwnership_copyStruct _ _ _).isCalm copies).later allocating.onward.proper
      have releasing := (isCalm_release _ releases).later copying.onward.proper
      have seat := seat_of_allocateStruct allocates spans.known
      have copyWithin := within_of_allocateStruct allocates emit.supported
      have moves := (moves_of_copyStruct built copies (spans.mono allocating.onward) seat.spans
        (within.mono allocating.grows) copyWithin).mono releasing
      exact emit.step calm (copyWithin.mono (copying.grows.trans releasing.grows))
        (fun _ covers leaves => leaves.append (moves.neutral covers))
        (seat.mono (copying.onward.trans releasing.onward)) moves.emitted
    · rename_i primitive
      obtain ⟨-, rfl, rfl⟩ := out
      exact loads primitive

theorem negate (emit : Emission ctx passed work mid code value)
    (runs : Runs (negate code value span) ctx mid (whole, negative) next) :
    Emission ctx passed work next whole negative := by
  have constant {constant : Constant} : Emitted ctx passed mid [.const constant] := .single rfl
  have operator {op : NumericOp} : Emitted ctx passed mid [.numeric op] := .single rfl
  have finish {whole : Code} {type : Ty} (emitted : Emitted ctx passed mid whole)
      (leaves : ∀ ⦃around : Surroundings codeRefs⦄, Covers around ctx mid →
        CodeLeaves around whole (.scalar type)) :
      Emission ctx passed work mid whole (.scalar type) :=
    { emit with within := trivial, leaves, valueSited := trivial, emitted }
  unfold Lowering.negate at runs
  split at runs
  · obtain ⟨⟨rfl, rfl⟩, rfl⟩ := runs.pair
    refine finish (.append (.append constant emit.emitted) operator) ?_
    rintro around covers labels before _ rfl
    have leaves := emit.leaves covers labels (.i32 :: before) _ rfl
    exact .cons .const (leaves.append (.singleton .numeric))
  · obtain ⟨⟨rfl, rfl⟩, rfl⟩ := runs.pair
    refine finish (.append (.append constant emit.emitted) operator) ?_
    rintro around covers labels before _ rfl
    have leaves := emit.leaves covers labels (.i64 :: before) _ rfl
    exact .cons .const (leaves.append (.singleton .numeric))
  iterate 2
    · obtain ⟨⟨rfl, rfl⟩, rfl⟩ := runs.pair
      refine finish (.append emit.emitted operator) ?_
      rintro around covers labels before _ rfl
      exact (emit.leaves covers labels before _ rfl).append (.singleton .numeric)
  · exact runs.fail

theorem lowerNumber (supported : Supported ctx work work.scopes) (sited : Sited ctx passed work)
    (runs : Runs (lowerNumber number want span) ctx work (code, value) next) :
    Emission ctx passed work next code value := by
  have calm := (onOwnership_lowerNumber _ _ _).isCalm runs
  unfold Lowering.lowerNumber at runs
  obtain ⟨type, mid, typed, runs⟩ := runs.bind
  obtain ⟨constant, _, checks, runs⟩ := runs.bind
  obtain ⟨literal, rfl⟩ := runs_check.mp checks
  obtain ⟨⟨rfl, rfl⟩, rfl⟩ := runs.pair
  have numeric : type.isNumeric = true := by
    unfold literalType at typed
    split at typed
    · split at typed
      · obtain ⟨rfl, -⟩ := typed.pure
        assumption
      · exact typed.fail
    · split at typed
      · obtain ⟨rfl, -⟩ := typed.pure
        rfl
      · obtain ⟨rfl, -⟩ := typed.pure
        rfl
  refine (nil supported sited).step calm trivial ?_ trivial (.single rfl)
  rintro around covers - labels before _ rfl
  cases converted : literalConstant number type with
  | error cause => simp [converted, Except.mapError] at literal
  | ok found =>
    have same : found = constant := by simpa [converted, Except.mapError] using literal
    rw [← type_literalConstant numeric (same ▸ converted)]
    exact .singleton .const

end Emission

end StructWasm.Lowering

import StructWasm.Proofs.LocalPool
import StructWasm.Proofs.Lowering.Quiet
import StructWasm.Proofs.Lowering.Scopes

/-!
# What code leaves on the stack

Lowering says of every expression what it leaves behind. Here this is turned into
a statement about its code: a primitive is left on the operand stack, everything
else leaves the stack as it was, and the code of an expression that never reaches
its end fits any stack. Code refers to locals of the pool and to functions that were
asked for, of both of which there only ever come more.
-/

namespace StructWasm.Lowering

open Wasm

/-! ## What code may refer to -/

/-- A number of a frame that its layout will give. -/
def FrameNumber.Within (frame : Frame.Allocator) : FrameNumber → Prop
  | .slot id => frame.HasBytes id
  | .size => True

/-- An address is held by a local, and lies at a known place. -/
structure Address.Within (address : Address) (work : Workspace) : Prop where
  base : work.locals.Has address.base
  base_type : address.base.type = .i32
  offset : ∀ number, address.offset.base? = some number → number.Within work.frame

/-- What a name stands for is held by locals. -/
def Binding.Within (work : Workspace) : Binding → Prop
  | .scalar type place => work.locals.Has place ∧ place.type = type.valType
  | .struct entry => entry.address.Within work

/-- A structure value is held by a local. -/
def Value.Within (work : Workspace) : Value → Prop
  | .struct held => held.address.Within work
  | _ => True

/-- All names stand for things that locals hold. -/
def ScopesWithin (work : Workspace) (scopes : List Scope) : Prop :=
  AllBindings (Binding.Within work) scopes

variable {around : Surroundings codeRefs} {work : Workspace}

variable {related : Ownership.NodeId → Ownership.NodeId → Prop}

theorem Binding.Within.of_same (within : binding.Within work)
    (same : SameBinding related binding other) : other.Within work := by
  cases same with
  | scalar type place => exact within
  | struct entry node _ => exact within

/-- What lowering a function relies on: there are locals for the frame pointer and the
address of the result, and for all that the names stand for. -/
structure Supported (ctx : Context) (work : Workspace) (scopes : List Scope) : Prop where
  framePointer : work.locals.Has ctx.framePointer ∧ ctx.framePointer.type = .i32
  result : ∀ type place, ctx.result = .struct type place →
    work.locals.Has place ∧ place.type = .i32
  scopes : ScopesWithin work scopes

/-! ## Growth -/

/-- More locals and requests, and a frame that goes on. -/
structure Grows (work next : Workspace) : Prop where
  locals : work.locals.Extends next.locals
  requests : work.requests ⊆ next.requests
  frame : work.frame.Extends next.frame

namespace Grows

theorem refl (work : Workspace) : Grows work work :=
  ⟨.refl _, fun _ mem => mem, .refl _⟩

theorem trans (first : Grows work mid) (second : Grows mid next) : Grows work next :=
  ⟨first.locals.trans second.locals, fun _ mem => second.requests (first.requests mem),
    first.frame.trans second.frame⟩

end Grows

theorem grows_withFrame (goesOn : work.frame.Extends frame) : Grows work { work with frame } :=
  ⟨.refl _, fun _ mem => mem, goesOn⟩

theorem FrameNumber.Within.mono {number : FrameNumber} (within : number.Within frame)
    (goesOn : frame.Extends next) : number.Within next := by
  cases number with
  | slot id => exact goesOn.hasBytes within
  | size => trivial

section Mono

variable {work next : Workspace} (grows : Grows work next)
include grows

theorem Address.Within.mono {address : Address} (within : address.Within work) :
    address.Within next :=
  ⟨within.base.mono grows.locals, within.base_type,
    fun number named => (within.offset number named).mono grows.frame⟩

theorem Binding.Within.mono {binding : Binding} (within : binding.Within work) :
    binding.Within next := by
  cases binding with
  | scalar type place => exact ⟨within.1.mono grows.locals, within.2⟩
  | struct entry => exact Address.Within.mono grows within

theorem Value.Within.mono {value : Value} (within : value.Within work) : value.Within next := by
  cases value with
  | scalar type => trivial
  | struct held => exact Address.Within.mono grows within
  | nothing => trivial
  | never => trivial

theorem ScopesWithin.mono {scopes : List Scope} (within : ScopesWithin work scopes) :
    ScopesWithin next scopes :=
  within.imp fun _ within => within.mono grows

theorem Supported.mono {scopes} (supported : Supported ctx work scopes)
    (within : ScopesWithin next others) : Supported ctx next others where
  framePointer := ⟨supported.framePointer.1.mono grows.locals, supported.framePointer.2⟩
  result := fun type place plan =>
    ⟨(supported.result type place plan).1.mono grows.locals, (supported.result type place plan).2⟩
  scopes := within

end Mono

theorem Calm.grows (calm : Calm work next) : Grows work next :=
  ⟨calm.locals_eq ▸ .refl _, calm.requests_eq ▸ fun _ mem => mem, calm.frame⟩

theorem Supported.of_calm (supported : Supported ctx work work.scopes)
    (calm : Calm work next) : Supported ctx next next.scopes := by
  rw [calm.scopes_eq]
  exact supported.mono calm.grows (supported.scopes.mono calm.grows)

/-- Results of a function that gives back what is planned. -/
def ResultPlan.valTypes : ResultPlan → List ValType
  | .scalar type => [type.valType]
  | _ => []

/-- What code can refer to is known to validation. -/
structure Covers (around : Surroundings codeRefs) (ctx : Context) (work : Workspace) :
    Prop where
  locals : ∀ ref, work.locals.Has ref → around.localType? ref = some ref.type
  stackPointer : around.globalType? .stackPointer = some (.i32, true)
  functions : ∀ name ∈ work.requests, ∀ sig,
    ctx.signature? name = some (some sig) →
      around.functionType? name = some sig.wasmType
  placed : ∀ number : FrameNumber, number.Within work.frame → around.isPlaced number = true
  memory : around.hasMemory = true
  results : around.results = ctx.result.valTypes

theorem Covers.of_grows {ctx : Context} {work next : Workspace}
    (covers : Covers around ctx next) (grows : Grows work next) : Covers around ctx work :=
  { covers with
    locals := fun ref has => covers.locals ref (has.mono grows.locals)
    functions := fun name mem => covers.functions name (grows.requests mem)
    placed := fun number within => covers.placed number (within.mono grows.frame) }

/-! ## What values leave on the stack -/

/-- A stack before and after an expression that gives a value. -/
def Value.Leaves : Value → StackType → StackType → Prop
  | .scalar type, before, after => after = type.valType :: before
  | .never, _, _ => True
  | _, before, after => after = before

/-- Code turns stacks as a value says. -/
def CodeLeaves (around : Surroundings codeRefs) (code : Code) (value : Value) : Prop :=
  ∀ labels before after, value.Leaves before after → CodeTyped around labels code before after

/-- Code leaves the stack as it is. -/
def Neutral (around : Surroundings codeRefs) (code : Code) : Prop :=
  ∀ labels stack, CodeTyped around labels code stack stack

theorem neutral_nil (around : Surroundings codeRefs) : Neutral around [] :=
  fun _ _ => .nil

theorem Neutral.append (firstNeutral : Neutral around first)
    (secondNeutral : Neutral around second) : Neutral around (first ++ second) :=
  fun labels stack => (firstNeutral labels stack).append (secondNeutral labels stack)

theorem neutral_flatten {codes : List Code} (neutral : ∀ code ∈ codes, Neutral around code) :
    Neutral around codes.flatten := by
  induction codes with
  | nil => exact neutral_nil around
  | cons code codes ih =>
    rw [List.flatten_cons]
    exact (neutral code (by simp)).append (ih fun other mem => neutral other (by simp [mem]))

theorem CodeLeaves.append (leaves : CodeLeaves around code value)
    (neutral : Neutral around more) : CodeLeaves around (code ++ more) value :=
  fun labels before after left =>
    (leaves labels before after left).append (neutral labels after)

/-- What a statement leaves on the stack. -/
def flow (diverges : Bool) : Value :=
  if diverges then .never else .nothing

theorem Value.within_flow (diverges : Bool) (work : Workspace) : (flow diverges).Within work := by
  cases diverges <;> trivial

theorem base?_plus {base : Type} {offset further : Offset base}
    (added : offset.plus bytes = .ok further) : further.base? = offset.base? := by
  obtain ⟨addend, -, added⟩ := bind_eq_ok.mp added
  obtain rfl := pure_eq_ok.mp added
  rfl

theorem knows_plus {offset further : Offset FrameNumber} (known : around.Knows offset)
    (added : offset.plus bytes = .ok further) : around.Knows further := by
  intro place named
  rw [base?_plus added] at named
  exact known place named

section Pieces

variable {around : Surroundings codeRefs} {ctx : Context} {work : Workspace}
  (covers : Covers around ctx work)
include covers

theorem Covers.localGet (has : work.locals.Has ref) (labels : List StackType)
    (stack : StackType) : InstrTyped around labels (.localGet ref) stack (ref.type :: stack) :=
  .localGet (covers.locals ref has)

theorem Covers.address {address : Address} (within : address.Within work)
    (labels : List StackType) (stack : StackType) :
    InstrTyped around labels (.localGet address.base) stack (.i32 :: stack) := by
  have base := covers.localGet within.base labels stack
  rw [within.base_type] at base
  exact base

theorem Covers.knows {address : Address} (within : address.Within work) :
    around.Knows address.offset :=
  fun number named => covers.placed number (within.offset number named)

theorem Covers.frameSize : around.Knows (.ofBase .size) :=
  Surroundings.knows_ofBase (covers.placed .size trivial)

variable {address : Address}

theorem Covers.push (within : address.Within work) (labels : List StackType) (stack : StackType) :
    CodeTyped around labels address.push stack (.i32 :: stack) :=
  .cons (covers.address within labels stack)
    (.cons (.offsetConst (covers.knows within)) (.singleton .numeric))

theorem Covers.load (within : address.Within work) (type : ValType) (labels : List StackType)
    (stack : StackType) : CodeTyped around labels (address.load type) stack (type :: stack) :=
  .cons (covers.address within labels stack)
    (.singleton (.load covers.memory (MemArg.alignedFor_natural type _) (covers.knows within)))

theorem Covers.copyLeaf {source target : Address} (sourceWithin : source.Within work)
    (targetWithin : target.Within work)
    (copied : copyLeaf source target leaf = .ok code) : Neutral around code := by
  obtain ⟨taken, takes, copied⟩ := bind_eq_ok.mp copied
  obtain ⟨put, puts, copied⟩ := bind_eq_ok.mp copied
  obtain rfl := pure_eq_ok.mp copied
  intro labels stack
  have takenKnown : around.Knows taken := knows_plus (covers.knows sourceWithin) takes
  have putKnown : around.Knows put := knows_plus (covers.knows targetWithin) puts
  exact .cons (covers.address targetWithin labels stack) (.cons (covers.address sourceWithin labels
    (.i32 :: stack)) (.cons (.load covers.memory (MemArg.alignedFor_natural leaf.2 _) takenKnown)
    (.singleton (.store covers.memory (MemArg.alignedFor_natural leaf.2 _) putKnown))))

theorem Covers.epilogue (has : work.locals.Has framePointer) (typed : framePointer.type = .i32) :
    Neutral around (epilogue framePointer) := by
  intro labels stack
  have base := covers.localGet has labels stack
  rw [typed] at base
  exact .cons base (.cons (.offsetConst covers.frameSize) (.cons .numeric
    (.singleton (.globalSet covers.stackPointer))))

theorem Covers.prologue (has : work.locals.Has framePointer) (typed : framePointer.type = .i32) :
    Neutral around (prologue framePointer) := by
  intro labels stack
  have known := covers.locals framePointer has
  rw [typed] at known
  exact .cons (.globalGet covers.stackPointer) (.cons (.offsetConst covers.frameSize)
    (.cons .numeric (.cons (.localTee known) (.singleton (.globalSet covers.stackPointer)))))

end Pieces

/-! ## Valid code -/

/-- What lowering came to: code that leaves what it is said to leave. -/
structure Typing (ctx : Context) (work next : Workspace) (code : Code) (value : Value) :
    Prop where
  supported : Supported ctx next next.scopes
  grows : Grows work next
  within : value.Within next
  leaves : ∀ ⦃around : Surroundings codeRefs⦄, Covers around ctx next →
    CodeLeaves around code value

namespace Typing

variable {ctx : Context} {work next : Workspace}

theorem grow (typing : Typing ctx work mid code value) (grows : Grows mid next)
    (supported : Supported ctx next next.scopes) : Typing ctx work next code value where
  supported := supported
  grows := typing.grows.trans grows
  within := typing.within.mono grows
  leaves := fun _ covers => typing.leaves (covers.of_grows grows)

theorem calm (typing : Typing ctx work mid code value) (calm : Calm mid next) :
    Typing ctx work next code value :=
  typing.grow calm.grows (typing.supported.of_calm calm)

theorem andThen (typing : Typing ctx work mid code .nothing)
    (typingMore : Typing ctx mid next more value) : Typing ctx work next (code ++ more) value where
  supported := typingMore.supported
  grows := typing.grows.trans typingMore.grows
  within := typingMore.within
  leaves := fun _ covers labels before after left =>
    (typing.leaves (covers.of_grows typingMore.grows) labels before before rfl).append
      (typingMore.leaves covers labels before after left)

theorem flowThen (typing : Typing ctx work mid code (flow diverges))
    (typingMore : Typing ctx mid next more (flow othersDiverge)) :
    Typing ctx work next (code ++ more) (flow (diverges || othersDiverge)) := by
  cases diverges with
  | false => exact typing.andThen typingMore
  | true =>
    refine ⟨typingMore.supported, typing.grows.trans typingMore.grows, trivial, ?_⟩
    intro around covers labels before after _
    have leaves := typing.leaves (covers.of_grows typingMore.grows) labels before after trivial
    refine leaves.append (typingMore.leaves covers labels after after ?_)
    cases othersDiverge <;> trivial

theorem nil (supported : Supported ctx work work.scopes) : Typing ctx work work [] .nothing where
  supported := supported
  grows := .refl work
  within := trivial
  leaves := by
    rintro around covers labels stack _ rfl
    exact .nil

theorem never (typing : Typing ctx work next code .never) (within : value.Within next) :
    Typing ctx work next code value :=
  { typing with
    within
    leaves := fun _ covers labels before after _ =>
      typing.leaves covers labels before after trivial }

end Typing

end StructWasm.Lowering

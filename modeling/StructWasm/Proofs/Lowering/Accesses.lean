import StructWasm.Proofs.Lowering.Confinement
import StructWasm.Proofs.Lowering.FunctionValidity

/-!
# Accesses to memory

All accesses of a function to memory stay where they belong, as numbers that are known
once the frame is laid out: in the frame of the function, at a multiple of their size, or
in a structure whose address the function is passed.
-/

namespace StructWasm

open Option

theorem Layouts.Built.size_lt {layouts : Layouts} (built : layouts.Built) (type : Ty) :
    layouts.size type < sizeLimit := by
  induction built generalizing type with
  | empty => cases type <;> exact of_decide_eq_true rfl
  | @finish layouts name fields layout _ _ _ _ placed ih =>
    cases type with
    | struct inner =>
      change ((get? _ inner).map StructLayout.size).getD 0 < sizeLimit
      rw [get?_cons]
      split
      · simp only [place?, bind_eq_bind, bind_eq_some_iff, bounded?,
          ite_none_right_eq_some] at placed
        obtain ⟨_, -, size, ⟨small, size_eq⟩, made⟩ := placed
        obtain rfl := some.inj size_eq
        obtain rfl := some.inj made
        exact small
      · exact ih (.struct inner)
    | _ => exact of_decide_eq_true rfl

/-- All types of a signature are known. -/
def Signature.Known (sig : Signature) (layouts : Layouts) : Prop :=
  (∀ type ∈ sig.params, layouts.Known type) ∧
    ∀ type, sig.result = some type → layouts.Known type

namespace Wasm

variable {refs : Refs}

/-- Whether an instruction neither accesses memory nor has code inside it. -/
def Instr.isSimple : Instr refs → Bool
  | .block _ _ | .loop _ _ | .ifElse _ _ _ | .load _ _ | .store _ _ => false
  | _ => true

/-- Code that accesses memory in allowed ways only. The base of an access is the local
that is read for its address: right before a load, and before the code that puts the value
on the stack that is stored. -/
inductive AccessesOnly (around : Surroundings refs)
    (allowed : refs.localVar → ValType → Offset refs.base → Prop) : List (Instr refs) → Prop where
  | simple {code : List (Instr refs)} (isSimple : ∀ instr ∈ code, instr.isSimple = true) :
      AccessesOnly around allowed code
  | append {first second} (inFirst : AccessesOnly around allowed first)
      (inSecond : AccessesOnly around allowed second) :
      AccessesOnly around allowed (first ++ second)
  | load {base type offset} (isAllowed : allowed base type offset) :
      AccessesOnly around allowed [.localGet base, .load type (.natural type offset)]
  | store {base type offset code} (isAllowed : allowed base type offset)
      (puts : ∀ labels stack, CodeTyped around labels code stack (type :: stack))
      (inCode : AccessesOnly around allowed code) :
      AccessesOnly around allowed (.localGet base :: code ++ [.store type (.natural type offset)])
  | block {type body} (inBody : AccessesOnly around allowed body) :
      AccessesOnly around allowed [.block type body]
  | loop {type body} (inBody : AccessesOnly around allowed body) :
      AccessesOnly around allowed [.loop type body]
  | ifElse {type thenBody elseBody} (inThen : AccessesOnly around allowed thenBody)
      (inElse : AccessesOnly around allowed elseBody) :
      AccessesOnly around allowed [.ifElse type thenBody elseBody]

end Wasm

namespace Lowering

open Wasm

variable {next : Workspace}
variable {decl : FunctionDecl} {sig : Signature} {body : Body}

theorem Emitted.accessesOnly {allowed : LocalRef → ValType → Offset FrameNumber → Prop}
    (emitted : Emitted ctx passed work code) (covers : Covers around ctx work)
    (permitted : ∀ base type offset, Permits ctx passed work.frame base type offset →
      allowed base type offset) : AccessesOnly around allowed code := by
  induction emitted with
  | plain plain =>
    refine .simple fun instr mem => ?_
    have isPlain := plain instr mem
    cases instr <;> first | rfl | cases isPlain
  | append _ _ inFirst inSecond => exact .append inFirst inSecond
  | localSet has other => exact .simple (by simp [Instr.isSimple])
  | load permits => exact .load (permitted _ _ _ permits)
  | store permits puts _ inCode => exact .store (permitted _ _ _ permits) (puts covers) inCode
  | leave => exact .simple (by simp [epilogue, Instr.isSimple])
  | repeats _ _ inCondition inBody =>
    exact .block (.loop (((inCondition.append (.simple (by simp [Instr.isSimple]))).append
      inBody).append (.simple (by simp [Instr.isSimple]))))
  | ifElse _ _ inThen inElse => exact .ifElse inThen inElse

/-! ## Functions -/

/-- The number that an offset in the code of a function stands for. -/
def Body.place (body : Body) (offset : Offset FrameNumber) : Except Fault Nat :=
  offset.value fun number => (body.frameNumber number).get.mapError Fault.deferred

/-- An access that stays in bounds, at a place that is known. From the frame pointer it is
inside the bytes that the function takes for its frame, at a multiple of its size. From a
parameter it is inside the structure whose address is passed there. -/
def Body.InBounds (body : Body) (layouts : Layouts) (sig : Signature)
    (framePointer base : LocalRef) (type : ValType) (offset : Offset FrameNumber) : Prop :=
  ∃ start, body.place offset = .ok start ∧
    ((base = framePointer ∧ ∃ size, body.place (.ofBase .size) = .ok size ∧
        start + type.size ≤ size ∧ type.size ∣ start) ∨
      ∃ pos held, base = { type := .i32, place := .param pos } ∧
        sig.passed[pos]? = some held ∧ held.isStruct = true ∧
        start + type.size ≤ layouts.size held)

theorem Body.place_ok (start : Nat)
    (known : ∀ number, offset.base? = some number → (body.frameNumber number).value? = some start)
    (fixed : offset.base? = none → start = 0) (small : start + offset.addend < Offset.bound) :
    body.place offset = .ok (start + offset.addend) := by
  unfold Body.place Offset.value
  cases place : offset.base? with
  | none =>
    rw [fixed place] at small ⊢
    exact if_pos small
  | some number =>
    have found : (body.frameNumber number).get = .ok start := by
      rw [Deferred.get, known number place]
    simp only [found]
    exact if_pos small

/-- An access inside an area is in bounds once the frame is laid out. -/
theorem DeclarationRun.inBounds (run : DeclarationRun ctx decl sig work next body)
    (built : ctx.layouts.Built) (proper : next.frame.Proper) {base : LocalRef} {type : ValType}
    {offset : Offset FrameNumber} (permits : Permits ctx sig.passed next.frame base type offset) :
    body.InBounds ctx.layouts sig ctx.framePointer base type offset := by
  obtain ⟨total, level, area, fits, multiple, aligned⟩ := permits
  have sized : 0 < type.size := by cases type <;> decide
  have power : type.size.isPowerOfTwo := by
    cases type
    · exact ⟨2, rfl⟩
    · exact ⟨3, rfl⟩
    · exact ⟨2, rfl⟩
    · exact ⟨3, rfl⟩
  generalize place_eq : offset.base? = place at area
  cases area with
  | @slot id inside =>
    have bytes : 0 < (next.frame.slot id).size := by omega
    obtain ⟨start, size, start_eq, size_eq, within, divides⟩ :=
      proper.exists_offset? run.resolves bytes
    obtain ⟨_, same, small⟩ :=
      Frame.Allocator.exists_frameSize_of_resolve proper.recorded.isOpen run.resolves
    obtain rfl := some.inj (size_eq.symm.trans same)
    have bound_eq : Frame.addressLimit = Offset.bound := rfl
    refine ⟨start + offset.addend, Body.place_ok start ?_ ?_ (by omega),
      .inl ⟨rfl, size, ?_, ?_, ?_⟩⟩
    · intro number named
      obtain rfl := some.inj (place_eq.symm.trans named)
      exact start_eq
    · intro impossible
      cases place_eq.symm.trans impossible
    · refine Body.place_ok size ?_ ?_ ?_
      · rintro _ ⟨⟩
        exact size_eq
      · rintro ⟨⟩
      · exact small
    · omega
    · have levels := Layouts.dvd_of_isPowerOfTwo power (proper.powers _) aligned
      exact Nat.dvd_add (levels.trans divides) multiple
  | @param pos held given isStruct =>
    have small := built.size_lt held
    have bound_eq : Layouts.sizeLimit = Offset.bound := rfl
    refine ⟨0 + offset.addend, Body.place_ok 0 ?_ (fun _ => rfl) (by omega),
      .inr ⟨pos, held, rfl, given, isStruct, by omega⟩⟩
    intro number named
    cases place_eq.symm.trans named

/-- Parameters are bound to the locals that hold them or their addresses. -/
theorem emission_bindParams
    (supported : Supported ctx work work.scopes) (sited : Sited ctx passed work)
    (framePointer : ∀ index, ctx.framePointer.place ≠ .param index)
    (held : ∀ index entry, params[index]? = some entry →
      work.locals.params[pos + index]? = some entry.2.valType ∧
        passed[pos + index]? = some entry.2 ∧ ctx.layouts.Known entry.2)
    (runs : Runs (bindParams pos span params) ctx work result next) :
    Emission ctx passed work next [] .nothing := by
  induction params generalizing pos work with
  | nil =>
    obtain ⟨-, rfl⟩ := runs.pure
    exact .nil supported sited
  | cons param rest ih =>
    obtain ⟨name, type⟩ := param
    unfold bindParams at runs
    obtain ⟨typed, given, known⟩ := held 0 (name, type) rfl
    have bound : ∃ mid, Emission ctx passed work mid [] .nothing ∧
        mid.locals = work.locals ∧
        Runs (bindParams (pos + 1) span rest) ctx mid result next := by
      dsimp only at runs
      split at runs
      · rename_i isStruct
        obtain ⟨node, created, creates, runs⟩ := runs.bind
        obtain ⟨_, defined, defines, runs⟩ := runs.bind
        obtain ⟨_, mid, declares, runs⟩ := runs.bind
        have calm := ((onOwnership_newValue _ _).isCalm creates).trans
          ((onOwnership_define _ _).isCalm defines)
        have width : type.valType = .i32 := by
          cases type with
          | struct name => rfl
          | _ => cases isStruct
        refine ⟨mid, ((Emission.nil supported sited).calm calm).declare declares ?_ ?_, ?_, runs⟩
        · refine ⟨?_, width, by rintro _ ⟨⟩⟩
          rw [calm.locals_eq]
          exact typed
        · refine ⟨known, fun _ => ?_⟩
          rw [width]
          exact ⟨_, _, .param given isStruct, Nat.le_of_eq (Nat.zero_add _), Nat.dvd_zero _,
            Nat.le_refl _⟩
        · obtain rfl := runs_declare.mp declares
          exact calm.locals_eq
      · obtain ⟨_, mid, declares, runs⟩ := runs.bind
        refine ⟨mid, (Emission.nil supported sited).declare declares ⟨typed, rfl⟩ ?_, ?_, runs⟩
        · intro same
          exact framePointer pos (congrArg LocalRef.place same).symm
        · obtain rfl := runs_declare.mp declares
          rfl
    obtain ⟨mid, emit, locals_eq, runsRest⟩ := bound
    have later := ih emit.supported emit.sited ?_ runsRest
    · exact emit.andThen later
    · intro index entry found
      rw [locals_eq, Nat.add_assoc, Nat.add_comm 1]
      exact held (index + 1) entry (by simpa using found)

theorem getElem?_passed (found : (paramsOf decl sig)[index]? = some entry) :
    sig.passed[firstParam sig + index]? = some entry.2 := by
  have given : sig.params[index]? = some entry.2 := (List.getElem?_zip_eq_some.mp found).2
  unfold Signature.passed firstParam
  cases sig.result with
  | none => simpa using given
  | some type => cases isStruct : type.isStruct <;> simp [isStruct, given, Nat.add_comm 1 index]

section Function

variable {config : Config} {layouts : Layouts} {signatures : List (String × Option Signature)}

theorem sited_functionStart : Sited (functionContext config layouts signatures sig) passed
      (functionStart config sig) where
  proper := .new _ _
  ordered := ⟨List.nodup_nil, fun id mem => by cases mem⟩
  held := rfl
  scopes := by
    intro scope inScopes entry inScope
    obtain rfl : scope = [] := by simpa [functionStart] using inScopes
    cases inScope

theorem grounded_functionContext (built : layouts.Built)
    (known : ∀ name callee, signatures.lookup name = some (some callee) → callee.Known layouts)
    (signatureKnown : sig.Known layouts) :
    Grounded (functionContext config layouts signatures sig) sig.passed where
  built := built
  results := fun name callee found type result => (known name callee found).2 type result
  result := by
    intro type base plan
    change resultPlan sig.result = .struct type base at plan
    unfold resultPlan at plan
    split at plan
    · cases plan
    · rename_i found result
      split at plan
      · rename_i isStruct
        injection plan with same baseSame
        subst same
        subst baseSame
        refine ⟨signatureKnown.2 _ result, isStruct, 0, rfl, ?_⟩
        simp [Signature.passed, result, isStruct]
      · cases plan

variable (run : DeclarationRun (functionContext config layouts signatures sig) decl sig
    (functionStart config sig) next body)
  (grounded : Grounded (functionContext config layouts signatures sig) sig.passed)
  (known : sig.Known layouts)
include run grounded known

/-- The code of a function, between its prologue and its epilogue, stays in its areas. -/
theorem DeclarationRun.emission :
    Emission (functionContext config layouts signatures sig) sig.passed
      (functionStart config sig) next (run.code ++ run.resultCode)
      (resultPlan sig.result).left := by
  have held : ∀ index entry, (paramsOf decl sig)[index]? = some entry →
      (functionStart config sig).locals.params[firstParam sig + index]? = some entry.2.valType ∧
        sig.passed[firstParam sig + index]? = some entry.2 ∧ layouts.Known entry.2 := by
    intro index entry found
    have given : sig.params[index]? = some entry.2 := (List.getElem?_zip_eq_some.mp found).2
    exact ⟨getElem?_paramsOf found, getElem?_passed found, known.1 _ (List.mem_of_getElem? given)⟩
  have binds := emission_bindParams supported_functionStart sited_functionStart
    (fun _ => by rintro ⟨⟩) held run.binds
  have lowers := emits_lowerBlock grounded decl.body sig.result binds.supported binds.sited
    run.lowers
  exact (binds.andThen lowers).lowerResult grounded run.gives

/-- The body of a function is valid where there is all that it refers to. -/
theorem DeclarationRun.typed
    (covers : Covers around (functionContext config layouts signatures sig) next)
    (labels : List StackType) :
    CodeTyped around labels body.code [] sig.wasmType.results.reverse := by
  have emit := run.emission grounded known
  obtain ⟨has, typed⟩ := emit.supported.framePointer
  have enters := covers.prologue has typed labels []
  have leaves := emit.leaves covers labels [] _ ((resultPlan sig.result).leaves_left [])
  have restores := covers.epilogue has typed labels ((resultPlan sig.result).valTypes.reverse ++ [])
  rw [valTypes_resultPlan, List.append_nil] at leaves restores
  rw [run.code_eq]
  simpa using (enters.append leaves).append restores

theorem DeclarationRun.accessesOnly
    (covers : Covers around (functionContext config layouts signatures sig) next) :
    AccessesOnly around (body.InBounds layouts sig (functionContext config layouts signatures
        sig).framePointer) body.code := by
  have emit := run.emission grounded known
  have inside := emit.emitted.accessesOnly covers fun base type offset permits =>
    run.inBounds grounded.built emit.sited.proper permits
  rw [run.code_eq, List.append_assoc (prologue _)]
  refine .append (.append (.simple ?_) inside) (.simple ?_)
  · simp [prologue, Instr.isSimple]
  · simp [epilogue, Instr.isSimple]

end Function

end Lowering
end StructWasm

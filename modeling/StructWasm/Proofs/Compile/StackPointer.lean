import StructWasm.Proofs.Compile.Accesses
import StructWasm.Proofs.Lowering.Discipline
import StructWasm.Proofs.Lowering.StackPointer

/-!
# Calls keep the stack pointer

Whatever function of a compiled program is called, and however deep it calls other
functions and itself: if the call comes to an end, the stack pointer is where it was.
-/

namespace StructWasm.Compile

open Wasm Lowering Option

section

variable {config : Config} {program : Program} {prog : Progress} {memory : Type}

/-- What is executed when a function of a compiled module is called: the code that is
written, with the numbers that are written for it. -/
def contents (prog : Progress) : BodyView codeRefs Body := fun body =>
  (body.resolver (functionIndex prog) fun .stackPointer => 0,
    { locals := body.locals.groups, code := body.code })

namespace Made

variable {layouts : Layouts} {decl : FunctionDecl} {sig : Signature} {body : Body}

theorem hasFramePointer (made : Made config layouts prog decl sig body) :
    body.locals.Has (functionContext config layouts prog.signatures sig).framePointer := by
  rw [made.run.locals_eq]
  exact (made.run.emission made.grounded made.known).sited.held.has

/-- Where the locals of the body are. -/
def placing (made : Made config layouts prog decl sig body) : Placing :=
  body.placing (functionIndex prog) (fun .stackPointer => 0) _
    (by rw [made.run.locals_eq]) made.hasFramePointer

section

variable (made : Made config layouts prog decl sig body)
include made

theorem disciplined : ∃ rest, body.code = prologue made.placing.framePointer ++ rest ∧
      Disciplined body.locals.number made.placing.framePointer rest := by
  have emit := made.run.emission made.grounded made.known
  have ne : ∀ ref, made.next.locals.Has ref → ref ≠ made.placing.framePointer →
      body.locals.number ref ≠ body.locals.number made.placing.framePointer := by
    intro ref has other same
    have kept : body.locals.Has ref := by
      rw [made.run.locals_eq]
      exact has
    exact other (LocalPool.number_injective kept made.hasFramePointer same)
  have restores : Disciplined body.locals.number made.placing.framePointer
      (epilogue made.placing.framePointer) := .flat (by simp [epilogue, isFlat])
  have code_eq := made.run.code_eq
  rw [List.append_assoc (prologue _), List.append_assoc] at code_eq
  exact ⟨_, code_eq, (emit.emitted.disciplined ne).append restores⟩

theorem stackPointer_eq_of_perform {scene : Scene codeRefs memory}
    (resolver_eq : scene.resolver = made.placing.resolver) (keeps : CallsKeep scene.invoke)
    {running next : Running memory} (empty : running.stack = [])
    (done : performCode scene body.code running = some (ending, next)) :
    stackPointerOf next.store = stackPointerOf running.store := by
  have emit := made.run.emission made.grounded made.known
  obtain ⟨size, size_eq, small⟩ := Frame.Allocator.exists_frameSize_of_resolve
    emit.sited.proper.recorded.isOpen made.run.resolves
  have settled : Settled made.placing scene size :=
    ⟨resolver_eq, rfl, Body.value_frameSize size_eq small _ _, keeps⟩
  have locals : ∀ ref, made.next.locals.Has ref → made.placing.pool.Has ref := by
    intro ref has
    change body.locals.Has ref
    rw [made.run.locals_eq]
    exact has
  rw [made.run.code_eq, List.append_assoc (prologue _)] at done
  exact settled.stackPointer_eq_of_framed
    (fun base => emit.emitted.keepsStack settled rfl locals base 0) empty done

end

end Made

theorem callsKeep_of_assemble (assembled : assemble config program = .ok prog)
    (few : prog.mod.Countable)
    {host : Host memory} (imports : CallsKeep host.imported) (rounds depth : Nat) :
    CallsKeep (prog.mod.invoke host (contents prog) rounds depth) := by
  obtain ⟨layouts, -, made⟩ := made_of_assemble assembled few
  induction depth with
  | zero =>
    intro index args store results after invoked
    cases invoked
  | succ depth ih =>
    intro index args store results after invoked
    unfold Module.invoke at invoked
    split at invoked
    · exact imports invoked
    · obtain ⟨entry, present, invoked⟩ := bind_eq_some_iff.mp invoked
      obtain ⟨type, -, invoked⟩ := bind_eq_some_iff.mp invoked
      obtain ⟨_, -, invoked⟩ := bind_eq_some_iff.mp invoked
      obtain ⟨body, hasBody, invoked⟩ := bind_eq_some_iff.mp invoked
      obtain ⟨⟨ending, final⟩, done, invoked⟩ := bind_eq_some_iff.mp invoked
      obtain ⟨-, rfl⟩ := Prod.mk.inj (some.inj invoked)
      obtain ⟨_, -, _, -, -, -, ⟨made⟩⟩ := made entry (List.mem_of_getElem? present) body hasBody
      exact made.stackPointer_eq_of_perform rfl ih rfl done

/-- In a program that is accepted, every call that comes to an end leaves the stack
pointer as it was, provided that imported functions do. In particular only the prologue
of a function writes its frame pointer, and a function returns right after its epilogue. -/
theorem stackPointer_kept_of_compile
    {compiled : Compiled}
    (compiles : compile config program = .ok compiled) :
    ∃ progress, assemble config program = .ok progress ∧ write config progress = .ok compiled ∧
      (∀ entry ∈ progress.mod.functions, ∃ body, entry.body? = some body ∧
        (body = .trap ∨ ∃ framePointer rest, body.code = prologue framePointer ++ rest ∧
          Disciplined body.locals.number framePointer rest)) ∧
      ∀ {memory : Type} (host : Host memory), CallsKeep host.imported → ∀ rounds depth,
        CallsKeep (progress.mod.invoke host (contents progress) rounds depth) := by
  rw [compile_eq_assemble_bind_write] at compiles
  obtain ⟨progress, assembled, written⟩ := bind_eq_ok.mp compiles
  obtain ⟨countable, bodies⟩ := bodies_of_write written
  refine ⟨progress, assembled, written, ?_, ?_⟩
  · obtain ⟨layouts, -, made⟩ := made_of_assemble assembled countable
    intro entry present
    obtain ⟨body, hasBody⟩ := bodies entry present
    obtain ⟨_, -, _, -, -, -, ⟨made⟩⟩ := made entry present body hasBody
    exact ⟨body, hasBody, .inr ⟨_, made.disciplined⟩⟩
  · intro memory host imports rounds depth
    exact callsKeep_of_assemble assembled countable imports rounds depth

end

/-- A host that keeps what is written to memory, address by address, and that neither
computes with floats nor provides functions. -/
def plainHost : Host (List (Nat × Constant)) where
  load := fun _ address memory => memory.lookup address
  store := fun _ address value memory => some ((address, value) :: memory)
  compute := fun _ _ => none
  imported := fun _ _ _ => none

theorem invoke_boxProgram : ((assemble unmapped boxProgram).toOption.bind fun prog =>
      (prog.mod.invoke plainHost (contents prog) 0 2 0 []
        { globals := [.i32 1024], memory := [] }).map fun result =>
          (result.1, result.2.globals)) = some ([.i32 1], [.i32 1024]) := by
  cbv

theorem stackPointer_kept_boxProgram :
    ∃ progress compiled, compile unmapped boxProgram = .ok compiled ∧
      assemble unmapped boxProgram = .ok progress ∧ CallsKeep plainHost.imported ∧
      ∃ after, progress.mod.invoke plainHost (contents progress) 0 2 0 []
          { globals := [.i32 1024], memory := [] } = some ([.i32 1], after) ∧
        stackPointerOf after = some (.i32 1024) := by
  obtain ⟨progress, compiled, assembles, -, compiles⟩ := compile_boxProgram
  obtain ⟨same, assemblesSame, -, -, keeps⟩ := stackPointer_kept_of_compile compiles
  obtain rfl : progress = same := by
    rw [assembles] at assemblesSame
    injection assemblesSame
  have invoked := invoke_boxProgram
  rw [assembles] at invoked
  obtain ⟨⟨results, after⟩, invoked, outcome⟩ := Option.map_eq_some_iff.mp invoked
  obtain rfl : results = [.i32 1] := (Prod.mk.inj outcome).1
  have imports : CallsKeep plainHost.imported := by
    intro index arguments store results after impossible
    cases impossible
  exact ⟨progress, compiled, compiles, assembles, imports, after, invoked,
    keeps plainHost imports 0 2 invoked⟩

end StructWasm.Compile

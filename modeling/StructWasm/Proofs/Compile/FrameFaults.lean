import StructWasm.Proofs.Compile.Validity
import StructWasm.Proofs.Wasm.Numbers

/-!
# Programs that frames refuse

A compilation never asks for a number that is not known. Its frames refuse a program
because a frame is too large, or because a function has a choice whose arms do not fit.
-/

namespace StructWasm.Compile

open Wasm Progress Lowering

/-- Some function of a program has a choice whose arms do not fit. -/
def Misfits (config : Config) (program : Program) : Prop :=
  ∃ layouts mod, Layouts.build config.sourceName program.structs = .ok layouts ∧
    newModule config = .ok mod ∧
    let signatures := (declareAll { config, layouts } program mod).signatures
    ∃ decl ∈ program.functions, ∃ sig,
      signatures.lookup decl.name.name = some (some sig) ∧
      Clashes (functionContext config layouts signatures sig)
        (functionStart config sig) decl sig

variable {config : Config} {program : Program}

/-! ## A new module -/

theorem failsPlainly_addExport (mod : Module Body) (name : String) (target : ExportTarget) :
    FailsPlainly (mod.addExport name target) :=
  fun _ failed => .inl (addExport_error failed)

theorem failsPlainly_addMemory (mod : Module Body) (minimum : Nat) (maximum : Option Nat) :
    FailsPlainly (mod.addMemory minimum maximum) := by
  intro fault failed
  unfold Module.addMemory at failed
  split at failed
  · cases failed
    exact .inl ⟨_, rfl⟩
  · split at failed
    · cases failed
    · split at failed
      · cases failed
        exact .inl ⟨_, rfl⟩
      · cases failed

theorem failsPlainly_newModule (config : Config) : FailsPlainly (newModule config) := by
  have starts : FailsPlainly (stackStart config) := by
    intro fault failed
    unfold stackStart at failed
    dsimp only at failed
    split at failed
    · cases failed
      exact .inr (.inl ⟨_, rfl⟩)
    · split at failed
      · cases failed
      · cases failed
        exact .inr (.inl ⟨_, rfl⟩)
  refine .bind starts fun top => .bind (failsPlainly_addMemory _ _ _) ?_
  intro mod
  have finishes : ∀ mod : Module Body, FailsPlainly (do
      let added ← mod.addGlobal .i32 true (.i32 top)
      let mod ← added.1.addExport stackPointerName (.global added.2)
      return mod.attachSourceMap (.empty config.sourceName)) := by
    intro mod
    refine .bind ?_ fun added => ?_
    · exact .pure _
    · exact .bind (failsPlainly_addExport _ _ _) fun _ => .pure _
  dsimp only
  split
  · exact .bind (failsPlainly_addExport _ _ _) finishes
  · exact finishes mod

/-! ## Gathering and writing -/

theorem misfits_of_assemble {cause : FrameFault}
    (fails : assemble config program = .error cause.fault) : cause = .refused .frameTooLarge ∨
      (∃ refusal, cause = .refused refusal) ∧ Misfits config program := by
  unfold assemble at fails
  split at fails
  · cases cause <;> cases fails
  · rename_i layouts built
    have aligned : layouts.Aligned := (Layouts.built_of_build built).aligned
    rcases bind_eq_error.mp fails with fails | ⟨mod, created, fails⟩
    · exact absurd fails ((failsPlainly_newModule config).notOfFrame cause)
    rcases bind_eq_error.mp fails with fails | ⟨prog, -, fails⟩
    · rcases (tables_declareAll _ program created).blame fails with
        ⟨_, same⟩ | ⟨decl, sig, declared, signed, refused⟩
      · cases cause <;> cases same
      · have stops := stops_of_lowerFunction refused
        rcases clashes_of_stops aligned (.new _ _) stops with tooLarge | clashes
        · exact .inl tooLarge
        · refine .inr ⟨?_, layouts, mod, built, created, decl, declared, sig, signed, clashes⟩
          obtain ⟨misfit, -, stopsToo⟩ := clashes.stops aligned (.new _ _)
          cases cause with
          | refused refusal => exact ⟨refusal, rfl⟩
          | unknown number => cases Stops.unique stops stopsToo
    · split at fails
      · cases cause <;> cases fails
      · exact absurd fails pure_ne_error

theorem failsPlainly_write (assembles : assemble config program = .ok prog) :
    FailsPlainly (write config prog) := by
  refine .bind ?_ fun _ => .pure _
  have plain (fault : Fault) (tooLarge : fault.TooLarge) : ∃ cause, fault = .limit cause := by
    obtain ⟨_, _, -, rfl⟩ := tooLarge
    exact ⟨_, rfl⟩
  rcases prog.mod.linearize_spec with ⟨few, -⟩ | ⟨-, cause, final, failed⟩
  · obtain ⟨_, _, -, assembled⟩ := assembled_of_assemble assembles
    refine Module.failsOnly_binary few assembled.closed
      (fun fault tooLarge => .inr (.inl (plain fault tooLarge))) ?_
    intro entry mem fault failed
    unfold Module.encodeFunction at failed
    split at failed
    · cases failed
      exact .inl ⟨_, rfl⟩
    · rename_i data hasBody
      rcases bind_eq_error.mp failed with failed | ⟨_, -, failed⟩
      · obtain ⟨-, -, sig, -, -, -, typed⟩ :=
          typed_of_assemble assembles few mem hasBody
        exact .inr (.inl (limit_of_encode_error typed failed))
      · rcases bind_eq_error.mp failed with failed | ⟨_, -, impossible⟩
        · exact .inr (.inl (plain fault (Limit.failsOnly_check _ _ fault failed)))
        · exact absurd impossible pure_ne_error
  · rw [Module.binary, failed]
    rintro _ ⟨⟩
    exact .inr (.inl ⟨_, rfl⟩)

/-- A frame stops a compilation only if it is too large, or if the arms of a choice do
not fit; and no number is missing. -/
theorem misfits_of_compile
    {fault : Fault}
    (fails : compile config program = .error fault) :
    (∀ cause, fault ≠ .deferred cause) ∧
      ∀ cause, fault = .frame cause → cause = .frameTooLarge ∨ Misfits config program := by
  rw [compile_eq_assemble_bind_write] at fails
  have blamed : ∀ cause : FrameFault, fault = cause.fault → cause = .refused .frameTooLarge ∨
      (∃ refusal, cause = .refused refusal) ∧ Misfits config program := by
    rintro cause rfl
    rcases bind_eq_error.mp fails with fails | ⟨progress, assembled, fails⟩
    · exact misfits_of_assemble fails
    · exact absurd fails ((failsPlainly_write assembled).notOfFrame cause)
  refine ⟨fun cause missing => ?_, fun cause refused => ?_⟩
  · rcases blamed (.unknown cause) missing with impossible | ⟨⟨_, impossible⟩, -⟩
    · cases impossible
    · cases impossible
  · rcases blamed (.refused cause) refused with tooLarge | ⟨-, misfits⟩
    · injection tooLarge with same
      exact .inl same
    · exact .inr misfits

/-- A function whose second arm has a variable that takes no bytes. -/
def leavesEmpty : FunctionDecl :=
  { name := named "main"
    params := []
    result := some (noted .bool)
    body :=
      { statements := []
        tail := some (.choice nowhere
          { condition := .bool nowhere true
            thenBlock :=
              { statements := [], tail := some (.bool nowhere true), span := nowhere }
            otherwise := some (.block
              { statements :=
                [.declare nowhere (named "empty") (some (noted (.named "Empty"))) none]
                tail := some (.bool nowhere false)
                span := nowhere })
            span := nowhere })
        span := nowhere }
    exported := true
    span := nowhere }

/-- A program with a structure without fields. -/
def emptyProgram : Program :=
  { structs := [{ name := named "Empty", fields := [], span := nowhere }]
    imports := []
    functions := [leavesEmpty]
    span := nowhere }

/-- A program without mistakes that the frame refuses. -/
theorem compile_emptyProgram :
    compile unmapped emptyProgram = .error (.frame (.unresolvedBranchSlot 1 0)) := by
  cbv

theorem misfits_emptyProgram :
    compile unmapped emptyProgram = .error (.frame (.unresolvedBranchSlot 1 0)) ∧
      Misfits unmapped emptyProgram := by
  have fails : compile unmapped emptyProgram = .error (.frame (.unresolvedBranchSlot 1 0)) := by
    cbv
  refine ⟨fails, ?_⟩
  rcases (misfits_of_compile fails).2 _ rfl with impossible | misfits
  · cases impossible
  · exact misfits

end StructWasm.Compile

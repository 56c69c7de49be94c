import StructWasm.Proofs.Compile.Validity

/-!
# Compiled programs stay in bounds

Every function body of a program that is accepted comes from lowering its declaration
where all is in order, and its accesses to memory stay in its frame and in the structures
that it is passed.
-/

namespace StructWasm.Compile

open Wasm Lowering

variable {config : Config} {program : Program}

/-- In a program that is accepted, every access to memory is in bounds: inside the bytes
that the function takes for its frame when it starts, at a multiple of its size, or inside
a structure that the function is passed. -/
theorem accesses_inBounds_of_compile
    {compiled : Compiled}
    (compiles : compile config program = .ok compiled) :
    ∃ layouts progress, Layouts.build config.sourceName program.structs = .ok layouts ∧
      assemble config program = .ok progress ∧ write config progress = .ok compiled ∧
      ∀ entry ∈ progress.mod.functions, ∃ body, entry.body? = some body ∧
        ∃ decl ∈ program.functions, ∃ signature framePointer, entry.name = decl.name.name ∧
          progress.signatures.lookup decl.name.name = some (some signature) ∧
          framePointer.place = .slot 0 ∧
          (body = .trap ∨ ∃ rest, body.code = prologue framePointer ++ rest) ∧
          AccessesOnly
            (progress.mod.surroundings
              (body.resolver (functionIndex progress) fun .stackPointer => 0) signature.wasmType
              body.locals.groups)
            (body.InBounds layouts signature framePointer) body.code := by
  rw [compile_eq_assemble_bind_write] at compiles
  obtain ⟨progress, assembled, written⟩ := bind_eq_ok.mp compiles
  obtain ⟨countable, bodies⟩ := bodies_of_write written
  obtain ⟨layouts, built, made⟩ := made_of_assemble assembled countable
  refine ⟨layouts, progress, built, assembled, written, ?_⟩
  intro entry present
  obtain ⟨body, hasBody⟩ := bodies entry present
  obtain ⟨decl, declared, signature, name_eq, signed, -, ⟨made⟩⟩ := made entry present body hasBody
  refine ⟨body, hasBody, decl, declared, signature, { type := .i32, place := .slot 0 }, name_eq,
    signed, rfl, ?_⟩
  have code_eq := made.run.code_eq
  rw [List.append_assoc, List.append_assoc] at code_eq
  exact ⟨.inr ⟨_, code_eq⟩, made.run.accessesOnly made.grounded made.known made.covers⟩

theorem accesses_inBounds_boxProgram :
    ∃ layouts progress compiled, compile unmapped boxProgram = .ok compiled ∧
      Layouts.build unmapped.sourceName boxProgram.structs = .ok layouts ∧
      assemble unmapped boxProgram = .ok progress ∧ progress.mod.functions.length = 2 ∧
      ∀ entry ∈ progress.mod.functions, ∃ body, entry.body? = some body ∧
        ∃ signature : Signature, ∃ framePointer : LocalRef,
          (body = .trap ∨ ∃ rest, body.code = prologue framePointer ++ rest) ∧
          AccessesOnly
            (progress.mod.surroundings
              (body.resolver (functionIndex progress) fun .stackPointer => 0) signature.wasmType
              body.locals.groups)
            (body.InBounds layouts signature framePointer) body.code := by
  obtain ⟨progress, compiled, assembles, length_eq, compiles⟩ := compile_boxProgram
  obtain ⟨layouts, same, builds, assemblesSame, -, inBounds⟩ :=
    accesses_inBounds_of_compile compiles
  obtain rfl : progress = same := by
    rw [assembles] at assemblesSame
    injection assemblesSame
  refine ⟨layouts, progress, compiled, compiles, builds, assembles, length_eq, ?_⟩
  intro entry present
  obtain ⟨body, hasBody, _, -, signature, framePointer, -, -, -, starts, inside⟩ :=
    inBounds entry present
  exact ⟨body, hasBody, signature, framePointer, starts, inside⟩

end StructWasm.Compile

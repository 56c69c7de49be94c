import StructWasm.Compile
import StructWasm.Proofs.Compile.Ledger
import StructWasm.Proofs.Wasm.Contents

/-!
# How a module is assembled

Compilation declares the functions of a program, reaches those that are exported, and then
writes the module. A compilation that ends early does so because of one of its functions.
-/

namespace StructWasm.Compile

open Wasm Progress Layouts List Module

/-- A compilation in which nothing is reached yet. -/
def declareAll (setup : Setting) (program : Program) (mod : Module Lowering.Body) : Progress :=
  program.functions.foldl (declareFunction setup)
    (program.imports.foldl (declareImport setup) (beginWith mod))

/-- Gather the functions of a program, unless it has mistakes. -/
def assemble (config : Config) (program : Program) : Except Fault Progress :=
  match Layouts.build config.sourceName program.structs with
  | .error errors => .error (.diagnostics (batchOf errors))
  | .ok layouts => do
      let setup : Setting := { config, layouts }
      let mod ← newModule config
      let prog ← (program.functions.filter FunctionDecl.exported).foldlM
        (exportFunction setup) (declareAll setup program mod)
      if prog.errors.hasErrors then
        throw (.diagnostics prog.errors)
      else
        return prog

theorem compile_eq_assemble_bind_write (config : Config) (program : Program) :
    compile config program = assemble config program >>= write config := by
  unfold compile assemble
  cases build config.sourceName program.structs with
  | error errors => rfl
  | ok layouts =>
    dsimp only
    rw [pure_bind, bind_assoc]
    congr 1
    funext mod
    rw [bind_assoc]
    congr 1
    funext prog
    split
    · rfl
    · rfl

/-! ## Start -/

theorem addMemory_eq {mod next : Module Lowering.Body} {minimum maximum}
    (added : mod.addMemory minimum maximum = .ok next) :
    next = { mod with memory? := some { minimum, maximum } } := by
  unfold addMemory at added
  split at added
  · cases added
  · split at added
    · injection added with same
      exact same.symm
    · split at added
      · cases added
      · injection added with same
        exact same.symm

variable {mod : Module Lowering.Body}

theorem newModule_eq (created : newModule config = .ok mod) :
    ∃ memory top exports, (∀ entry ∈ exports, entry.target = .memory ∨ entry.target = .global 0) ∧
      mod = { empty config.sourceMap with
        memory? := some memory
        globals := [{ isMutable := true, initial := .i32 top }]
        exports
        sourceMap? := some (.empty config.sourceName) } := by
  unfold newModule at created
  obtain ⟨top, _, created⟩ := bind_eq_ok.mp created
  obtain ⟨withMemory, addsMemory, created⟩ := bind_eq_ok.mp created
  obtain rfl := addMemory_eq addsMemory
  dsimp only at created
  split at created
  · injection created with same
    refine ⟨_, top, [{ name := memoryName, target := .memory },
      { name := stackPointerName, target := .global 0 }], ?_, same.symm⟩
    simp
  · injection created with same
    refine ⟨_, top, [{ name := stackPointerName, target := .global 0 }], ?_, same.symm⟩
    simp

/-! ## Functions that wait -/

/-- What the tables say of the functions that wait, before any is reached. -/
structure Tables (program : Program) (prog : Progress) : Prop where
  declared : ∀ entry ∈ prog.pending, entry.decl ∈ program.functions ∧
    prog.signatures.lookup entry.name = some (some entry.signature)
  distinct : (prog.pending.map Pending.name).Nodup
  noFunctions : prog.mod.functions = []

variable {program : Program} {prog : Progress}

namespace Tables

variable (tables : Tables program prog)
include tables

theorem declareFunction (inProgram : decl ∈ program.functions) :
    Tables program (prog.declareFunction setup decl) := by
  cases declared : prog.isDeclared decl.name.name with
  | true =>
    rw [declareFunction_of_isDeclared declared]
    exact ⟨tables.declared, tables.distinct, tables.noFunctions⟩
  | false =>
    have absent : prog.signatures.lookup decl.name.name = none :=
      Option.isNone_iff_eq_none.mp (Option.isSome_eq_false_iff.mp declared)
    have fresh : ∀ entry ∈ prog.pending, entry.name ≠ decl.name.name := by
      intro entry mem same
      have present := (tables.declared entry mem).2
      rw [same, absent] at present
      cases present
    rw [declareFunction_eq declared]
    generalize declaredSignature? setup decl = signature?
    refine ⟨?_, ?_, tables.noFunctions⟩
    · intro entry mem
      change _ ∧ (prog.signatures ++ [(decl.name.name, signature?)]).lookup entry.name = _
      rw [lookup_append]
      rcases mem_append.mp mem with old | new
      · rw [(tables.declared entry old).2]
        exact ⟨(tables.declared entry old).1, rfl⟩
      · obtain ⟨sig, rfl, rfl⟩ := Option.map_eq_some_iff.mp (Option.mem_toList.mp new)
        exact ⟨inProgram, by simp [Pending.name, absent]⟩
    · change ((prog.pending ++ _).map Pending.name).Nodup
      rw [map_append]
      refine nodup_append.mpr ⟨tables.distinct, by cases signature? <;> simp, ?_⟩
      intro name old other new
      obtain ⟨entry, mem, rfl⟩ := mem_map.mp old
      obtain ⟨waits, isNew, rfl⟩ := mem_map.mp new
      obtain ⟨sig, -, rfl⟩ := Option.map_eq_some_iff.mp (Option.mem_toList.mp isNew)
      exact fresh entry mem

theorem books (decls : List FunctionDecl) :
    Books setup prog (decls.foldlM (Progress.exportFunction setup) prog) := by
  obtain ⟨started, finished, start⟩ : Exported setup prog [] prog :=
    exported_nil tables.distinct tables.noFunctions
  exact start.exportAll decls

/-- A fault that ends a compilation comes from a function of the program, or is one that
has nothing to do with its functions. -/
theorem blame {decls : List FunctionDecl}
    (failed : decls.foldlM (Progress.exportFunction setup) prog = .error fault) :
    (∃ cause, fault = .inconsistent cause) ∨ ∃ decl sig, decl ∈ program.functions ∧
        prog.signatures.lookup decl.name.name = some (some sig) ∧
        (attempt setup prog decl sig).body = .error fault := by
  have books : Books setup prog _ := tables.books decls
  rw [failed] at books
  refine books.imp_right ?_
  rintro ⟨roots, entry, reachable, failed⟩
  obtain ⟨declared, signed⟩ := tables.declared entry reachable.waits
  exact ⟨entry.decl, entry.signature, declared, signed, failed⟩

end Tables

theorem exists_admitted_of_newModule (setup : Setting) (created : newModule config = .ok mod)
    (imports : List ImportDecl) : ∃ admitted mistakes, Admitted setup mod imports admitted mistakes
      (imports.foldl (declareImport setup) (beginWith mod)) := by
  obtain ⟨memory, top, exports, -, rfl⟩ := newModule_eq created
  exact exists_admitted setup rfl rfl imports

theorem tables_declareAll (setup : Setting) (program : Program)
    (created : newModule config = .ok mod) : Tables program (declareAll setup program mod) := by
  obtain ⟨admitted, mistakes, admits⟩ :=
    exists_admitted_of_newModule setup created program.imports
  refine program.functions.foldlRecOn (Progress.declareFunction setup) ?_
    fun _ tables _ mem => tables.declareFunction mem
  constructor
  · simp [admits.pending_eq]
  · simp [admits.pending_eq]
  · obtain ⟨memory, top, exports, -, rfl⟩ := newModule_eq created
    exact admits.defined_eq

theorem exports_of_assemble (assembled : assemble config program = .ok prog) :
    ∃ layouts mod, build config.sourceName program.structs = .ok layouts ∧
      newModule config = .ok mod ∧
      (program.functions.filter FunctionDecl.exported).foldlM (exportFunction { config, layouts })
        (declareAll { config, layouts } program mod) = .ok prog ∧
      prog.errors.totalErrors = 0 := by
  unfold assemble at assembled
  split at assembled
  · cases assembled
  · rename_i layouts built
    obtain ⟨mod, created, assembled⟩ := bind_eq_ok.mp assembled
    obtain ⟨final, exports, assembled⟩ := bind_eq_ok.mp assembled
    split at assembled
    · cases assembled
    · rename_i faultless
      obtain rfl := pure_eq_ok.mp assembled
      refine ⟨layouts, mod, built, created, exports, ?_⟩
      simpa [Diagnostic.Batch.hasErrors] using faultless

/-! ## A program -/

/-- A place that does not matter. -/
def nowhere : Span := Span.ofLines 1 1 1 1

/-- A name that is written somewhere. -/
def named (name : String) : Ident := { name, span := nowhere }

/-- A type that is written somewhere. -/
def noted (type : WrittenType) : TypeNote := { type, span := nowhere }

/-- The standard options without a source map. -/
def unmapped : Config := { Config.standard with sourceMap := false }

/-- A function that reads a field of its parameter. -/
def readsFlag : FunctionDecl :=
  { name := named "flag"
    params := [{ name := named "box", type := noted (.named "Box"), span := nowhere }]
    result := some (noted .bool)
    body :=
      { statements := []
        tail := some (.field nowhere (.var nowhere "box") (named "on"))
        span := nowhere }
    exported := false
    span := nowhere }

/-- A function that passes a structure on. -/
def passesBox : FunctionDecl :=
  { name := named "start"
    params := []
    result := some (noted .bool)
    body :=
      { statements := []
        tail := some (.call nowhere (named "flag")
          [.literal nowhere (named "Box")
            [{ name := named "on", value := .bool nowhere true }]])
        span := nowhere }
    exported := true
    span := nowhere }

/-- A program with a structure that is passed from one function to another. -/
def boxProgram : Program :=
  { structs :=
      [{ name := named "Box"
         fields := [{ name := named "on", type := noted .bool, span := nowhere }]
         span := nowhere }]
    imports := []
    functions := [readsFlag, passesBox]
    span := nowhere }

theorem assemble_boxProgram : ((assemble unmapped boxProgram).toOption.map fun prog =>
      (prog.mod.functions.length, (write unmapped prog).isOk)) = some (2, true) := by
  cbv

theorem compile_boxProgram : ∃ prog compiled, assemble unmapped boxProgram = .ok prog ∧
      prog.mod.functions.length = 2 ∧ compile unmapped boxProgram = .ok compiled := by
  obtain ⟨prog, assembled, facts⟩ := Option.map_eq_some_iff.mp assemble_boxProgram
  obtain ⟨length_eq, isOk⟩ := Prod.mk.inj facts
  have assembles := eq_ok_of_toOption assembled
  obtain ⟨compiled, written⟩ : ∃ compiled, write unmapped prog = .ok compiled := by
    cases out : write unmapped prog with
    | error fault => simp [out, Except.isOk, Except.toBool] at isOk
    | ok compiled => exact ⟨compiled, rfl⟩
  refine ⟨prog, compiled, assembles, length_eq, ?_⟩
  rw [compile_eq_assemble_bind_write, assembles]
  exact written

end StructWasm.Compile

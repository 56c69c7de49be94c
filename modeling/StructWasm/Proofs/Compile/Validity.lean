import StructWasm.Proofs.Compile.Reach
import StructWasm.Proofs.Layout.Walk
import StructWasm.Proofs.Lowering.Accesses

/-!
# Compiled programs are valid

In the module of an accepted program every function body is valid against its signature,
its declared locals and the functions, globals and memory of the module, under the numbers
that are written.
-/

namespace StructWasm.Compile

open Wasm Progress Lowering Layouts List Module

variable {setup : Setting} {config : Config} {program : Program} {prog : Progress}
variable {emitted : List FunctionDecl} {name : String}

/-! ## Signatures -/

theorem known_of_typesOf? {notes : List TypeNote} {types : List Ty}
    (resolved : typesOf? setup notes = some types) : ∀ type ∈ types, setup.layouts.Known type := by
  induction notes generalizing types with
  | nil =>
    obtain rfl : [] = types := Option.some.inj resolved
    simp
  | cons written rest ih =>
    unfold typesOf? at resolved
    split at resolved
    · rename_i type found
      obtain ⟨others, foundOthers, rfl⟩ := Option.map_eq_some_iff.mp resolved
      intro other mem
      rcases mem_cons.mp mem with rfl | mem
      · exact known_of_resolve found
      · exact ih foundOthers other mem
    · cases resolved

theorem known_of_signatureOf? {params : List TypeNote} {result : Option TypeNote}
    {sig : Signature} (resolved : signatureOf? setup params result = some sig) :
    sig.Known setup.layouts := by
  obtain ⟨types, foundTypes, resolved⟩ := Option.bind_eq_some_iff.mp resolved
  obtain ⟨results, foundResults, resolved⟩ := Option.bind_eq_some_iff.mp resolved
  obtain rfl := Option.some.inj resolved
  refine ⟨known_of_typesOf? foundTypes, ?_⟩
  intro type isResult
  exact known_of_typesOf? foundResults type (mem_of_head? isResult)

theorem known_of_signatureTable
    (found : (signatureTable setup program).lookup name = some (some callee)) :
    callee.Known setup.layouts := by
  rcases mem_append.mp (mem_of_lookup found) with isImport | isFunction
  · obtain ⟨decl, -, same⟩ := mem_map.mp isImport
    exact known_of_signatureOf? (Option.filter_eq_some_iff.mp (Prod.mk.inj same).2).1
  · obtain ⟨decl, -, same⟩ := mem_map.mp isFunction
    have signed := (Prod.mk.inj same).2
    unfold declaredSignature? at signed
    split at signed
    · cases signed
    · exact known_of_signatureOf? signed

/-! ## Calls -/

theorem idxOf?_of_lookup {α : Type} {entries : List (String × α)} {value : α}
    (found : entries.lookup name = some value) :
    ∃ index, (entries.map Prod.fst).idxOf? name = some index ∧
      entries[index]? = some (name, value) := by
  induction entries with
  | nil => cases found
  | cons entry entries ih =>
    rw [map_cons, idxOf?_cons]
    rw [lookup_cons] at found
    split at found
    · rename_i here
      obtain rfl := beq_iff_eq.mp here
      obtain rfl := Option.some.inj found
      exact ⟨0, by simp, rfl⟩
    · rename_i ne
      obtain ⟨index, isIndex, listed⟩ := ih found
      have other : (entry.1 == name) = false := BEq.comm.trans ne
      exact ⟨index + 1, by simp [other, isIndex], listed⟩

/-- The signatures of the functions of a module, by name and in their order. -/
def emittedTable (setup : Setting) (program : Program) (emitted : List FunctionDecl) :
    List (String × Option Signature) :=
  program.imports.map (fun decl => (decl.name.name, importSignature? setup decl)) ++
    emitted.map fun decl => (decl.name.name, declaredSignature? setup decl)

namespace Assembled

variable (assembled : Assembled setup program emitted prog)
include assembled

/-- What a function that is emitted calls is in the module, under its signature. -/
theorem lookup_emittedTable {caller : FunctionDecl} (isEmitted : caller ∈ emitted)
    (calls : name ∈ caller.body.callees)
    (signed : (signatureTable setup program).lookup name = some (some callee)) :
    (emittedTable setup program emitted).lookup name = some (some callee) := by
  rw [signatureTable, lookup_append, Option.or_eq_some_iff] at signed
  rw [emittedTable, lookup_append, Option.or_eq_some_iff]
  refine signed.imp_right fun isFunction => ⟨isFunction.1, ?_⟩
  obtain ⟨decl, declared, same⟩ := mem_map.mp (mem_of_lookup isFunction.2)
  obtain ⟨rfl, signature_eq⟩ := Prod.mk.inj same
  have reached : decl ∈ emitted :=
    (assembled.reached decl).mpr (.called ((assembled.reached caller).mp isEmitted) declared calls)
  rw [← signature_eq]
  refine (lookup_eq_some_iff_mem ?_).mpr (mem_map_of_mem reached)
  rw [map_map]
  exact assembled.distinct

theorem typeAt?_of_calls (few : prog.mod.Countable) {caller : FunctionDecl}
    (isEmitted : caller ∈ emitted) (calls : name ∈ caller.body.callees)
    (signed : (signatureTable setup program).lookup name = some (some callee)) :
    (functionIndex prog name).toOption.bind prog.mod.typeAt? = some callee.wasmType := by
  obtain ⟨index, isIndex, listed⟩ :=
    idxOf?_of_lookup (assembled.lookup_emittedTable isEmitted calls signed)
  have typed : List.Forall₂ (fun entry typeIndex => ∀ sig, entry.2 = some sig →
      prog.mod.types[typeIndex]? = some sig.wasmType) (emittedTable setup program emitted)
      (prog.mod.imports.map Import.typeIndex ++ prog.mod.functions.map Function.typeIndex) := by
    refine rel_append ?_ ?_
    · rw [forall₂_map_left_iff, forall₂_map_right_iff]
      refine assembled.imports.imp ?_
      rintro decl entry ⟨-, -, sig, known, typed⟩ other isOther
      obtain rfl := Option.some.inj (known.symm.trans isOther)
      exact typed
    · rw [forall₂_map_left_iff, forall₂_map_right_iff]
      refine assembled.functions.imp ?_
      rintro decl function ⟨sig, body, lowers, typed, -⟩ other isOther
      obtain rfl := Option.some.inj (lowers.signed.symm.trans isOther)
      exact typed
  obtain ⟨length_eq, typed⟩ := forall₂_iff_getElem?.mp typed
  have inside := length_eq ▸ (List.getElem?_eq_some_iff.mp listed).1
  have isIndex : (program.imports.map (fun decl => decl.name.name) ++ namesOf emitted).idxOf? name =
      some index := by
    rw [← isIndex, emittedTable, map_append, map_map, map_map]
    rfl
  rw [assembled.index_eq few, callIndex, isIndex]
  change prog.mod.typeAt? index = _
  rw [Module.typeAt?, getElem?_eq_getElem inside]
  exact typed index _ _ listed (getElem?_eq_getElem inside) callee rfl

end Assembled

/-- How a function of an assembled module came to be: its declaration was lowered where
all is in order, and the module has all that the body refers to. -/
structure Made (config : Config) (layouts : Layouts) (prog : Progress) (decl : FunctionDecl)
    (sig : Signature) (body : Body) where
  next : Workspace
  run : DeclarationRun (functionContext config layouts prog.signatures sig) decl
    sig (functionStart config sig) next body
  known : sig.Known layouts
  grounded : Grounded (functionContext config layouts prog.signatures sig)
    sig.passed
  covers : Covers (prog.mod.surroundings
    (body.resolver (functionIndex prog) fun .stackPointer => 0) sig.wasmType
    body.locals.groups) (functionContext config layouts prog.signatures sig) next

theorem Assembled.made {layouts : Layouts} {decl : FunctionDecl} {sig : Signature}
    {body : Body} (assembled : Assembled { config, layouts } program emitted prog)
    (few : prog.mod.Countable) (built : layouts.Built) (isEmitted : decl ∈ emitted)
    (signed : prog.signatures.lookup decl.name.name = some (some sig))
    (lowers : Lowers { config, layouts } program decl sig body) :
    Nonempty (Made config layouts prog decl sig body) := by
  have known : ∀ name callee, prog.signatures.lookup name = some (some callee) →
      callee.Known layouts := by
    rw [assembled.signatures_eq]
    exact fun _ _ found => known_of_signatureTable found
  have signatureKnown := known _ _ signed
  have grounded : Grounded (functionContext config layouts prog.signatures sig)
      sig.passed := grounded_functionContext built known signatureKnown
  have lowered := lowers.lowered
  have requests := requests_of_lowerFunction lowered
  rw [← assembled.signatures_eq] at lowered requests
  obtain ⟨next, runs, requests_eq⟩ := runs_of_lowerFunction lowered
  obtain ⟨run⟩ := declarationRun_of_runs runs
  have emit := run.emission grounded signatureKnown
  obtain ⟨top, globals_eq⟩ := assembled.stackPointer
  have stackPointer : prog.mod.globals[0]? = some { isMutable := true, initial := .i32 top } := by
    rw [globals_eq]
    rfl
  have calls : ∀ name ∈ next.requests, ∀ callee, prog.signatures.lookup name = some (some callee) →
        (functionIndex prog name).toOption.bind prog.mod.typeAt? = some callee.wasmType := by
    intro name requested callee calleeSigned
    rw [← requests_eq, requests] at requested
    rw [assembled.signatures_eq] at calleeSigned
    exact assembled.typeAt?_of_calls few isEmitted requested calleeSigned
  exact ⟨{ next, run, known := signatureKnown, grounded
           covers := run.covers rfl rfl emit.grows emit.sited.proper stackPointer
             assembled.memory calls }⟩

/-- A function body of an assembled module was made from a declaration. -/
theorem made_of_assemble (assembles : assemble config program = .ok prog)
    (few : prog.mod.Countable) :
    ∃ layouts, build config.sourceName program.structs = .ok layouts ∧
      ∀ entry ∈ prog.mod.functions, ∀ body, entry.body? = some body →
        ∃ decl ∈ program.functions, ∃ sig, entry.name = decl.name.name ∧
          prog.signatures.lookup decl.name.name = some (some sig) ∧
          prog.mod.types[entry.typeIndex]? = some sig.wasmType ∧
          Nonempty (Made config layouts prog decl sig body) := by
  obtain ⟨layouts, emitted, built, assembled⟩ := assembled_of_assemble assembles
  refine ⟨layouts, built, ?_⟩
  intro entry mem body hasBody
  obtain ⟨decl, isEmitted, sig, same, lowers, typed, body_eq, name_eq⟩ :=
    exists_of_forall₂ assembled.functions mem
  obtain rfl := Option.some.inj (body_eq.symm.trans hasBody)
  have declared : decl ∈ program.functions := by
    cases (assembled.reached decl).mp isEmitted <;> assumption
  have signed := (assembled.signed decl isEmitted).trans (congrArg some lowers.signed)
  exact ⟨decl, declared, sig, name_eq, signed, typed,
    assembled.made few (built_of_build built) isEmitted signed lowers⟩

/-- In an assembled module every function body is valid. -/
theorem typed_of_assemble (assembled : assemble config program = .ok prog)
    (few : prog.mod.Countable) {entry : Function Lowering.Body} {body : Lowering.Body}
    (mem : entry ∈ prog.mod.functions) (hasBody : entry.body? = some body) :
    ∃ decl ∈ program.functions, ∃ sig, entry.name = decl.name.name ∧
      prog.signatures.lookup decl.name.name = some (some sig) ∧
      prog.mod.types[entry.typeIndex]? = some sig.wasmType ∧
      CodeTyped (prog.mod.surroundings
          (body.resolver (functionIndex prog) fun .stackPointer => 0) sig.wasmType
          body.locals.groups)
        [sig.wasmType.results.reverse] body.code [] sig.wasmType.results.reverse := by
  obtain ⟨layouts, -, made⟩ := made_of_assemble assembled few
  obtain ⟨decl, declared, sig, name_eq, signed, typed, ⟨made⟩⟩ := made entry mem body hasBody
  exact ⟨decl, declared, sig, name_eq, signed, typed,
    made.run.typed made.grounded made.known made.covers _⟩

theorem bodies_of_write {compiled : Compiled} (written : write config prog = .ok compiled) :
    prog.mod.Countable ∧ ∀ entry ∈ prog.mod.functions, ∃ body, entry.body? = some body := by
  obtain ⟨few, -, code, holds, -⟩ := read?_of_write written
  refine ⟨few, fun entry mem => ?_⟩
  obtain ⟨_, -, body, hasBody, -⟩ := exists_of_forall₂ holds.flip mem
  exact ⟨body, hasBody⟩

/-- Every function body of a program that is accepted is valid code for the signature
of its declaration. -/
theorem code_typed_of_compile
    {compiled : Compiled}
    (compiles : compile config program = .ok compiled) :
    ∃ progress, assemble config program = .ok progress ∧ write config progress = .ok compiled ∧
      ∀ entry ∈ progress.mod.functions, ∃ body, entry.body? = some body ∧
        ∃ decl ∈ program.functions, ∃ signature, entry.name = decl.name.name ∧
          progress.signatures.lookup decl.name.name = some (some signature) ∧
          progress.mod.types[entry.typeIndex]? = some signature.wasmType ∧
          CodeTyped
            (progress.mod.surroundings
              (body.resolver (functionIndex progress) fun .stackPointer => 0) signature.wasmType
              body.locals.groups)
            [signature.wasmType.results.reverse] body.code []
            signature.wasmType.results.reverse := by
  rw [compile_eq_assemble_bind_write] at compiles
  obtain ⟨progress, assembled, written⟩ := bind_eq_ok.mp compiles
  refine ⟨progress, assembled, written, ?_⟩
  intro entry present
  obtain ⟨countable, bodies⟩ := bodies_of_write written
  obtain ⟨body, hasBody⟩ := bodies entry present
  exact ⟨body, hasBody, typed_of_assemble assembled countable present hasBody⟩

theorem code_typed_boxProgram :
    ∃ progress, assemble unmapped boxProgram = .ok progress ∧
      progress.mod.functions.length = 2 ∧
      ∀ entry ∈ progress.mod.functions, ∃ body, entry.body? = some body ∧
        ∃ decl ∈ boxProgram.functions, ∃ signature : Signature, entry.name = decl.name.name ∧
          CodeTyped
            (progress.mod.surroundings
              (body.resolver (functionIndex progress) fun .stackPointer => 0) signature.wasmType
              body.locals.groups)
            [signature.wasmType.results.reverse] body.code []
            signature.wasmType.results.reverse := by
  obtain ⟨progress, compiled, assembles, length_eq, compiles⟩ := compile_boxProgram
  obtain ⟨same, assemblesSame, -, typed⟩ := code_typed_of_compile compiles
  obtain rfl : progress = same := by
    rw [assembles] at assemblesSame
    injection assemblesSame
  refine ⟨progress, assembles, length_eq, ?_⟩
  intro entry present
  obtain ⟨body, hasBody, decl, declared, signature, name_eq, -, -, isTyped⟩ := typed entry present
  exact ⟨body, hasBody, decl, declared, signature, name_eq, isTyped⟩

end StructWasm.Compile

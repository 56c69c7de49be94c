import StructWasm.Proofs.Compile.Reach
import StructWasm.Proofs.Json.Records

/-!
# Functions in the source map

The source map of an accepted program has one entry for every function of the module, in
the order of their indices, and is what the module carries for the use of tools.
-/

namespace StructWasm

open List

/-! ## Maps in order -/

namespace SourceMap

theorem foldl_push (entries : List Entry) (map : SourceMap) :
    entries.foldl push map = { map with entries := map.entries ++ entries } := by
  induction entries generalizing map with
  | nil => simp
  | cons entry entries ih => simp [ih, push]

theorem sorted_eq_self {map : SourceMap} {count}
    (numbered : map.entries.map (fun entry => entry.index.toNat) = List.range count) :
    map.sorted = map := by
  have ordered : map.entries.Pairwise fun left right => left.index.toNat < right.index.toNat := by
    rw [← pairwise_map (f := fun entry : Entry => entry.index.toNat), numbered]
    exact pairwise_lt_range
  rw [sorted, mergeSort_of_pairwise]
  refine ordered.imp fun before => ?_
  rw [decide_eq_true_iff, UInt32.le_iff_toNat_le]
  exact before.le

end SourceMap

namespace Compile

open Wasm

/-- The entry of an imported function. -/
def importEntry (pos : Nat) (decl : ImportDecl) : SourceMap.Entry where
  index := .ofNat pos
  name := decl.name.name
  kind := .imported
  span := decl.span

/-- The entry of a function that is defined after some imports. -/
def functionEntry (importCount pos : Nat) (decl : FunctionDecl) : SourceMap.Entry where
  index := .ofNat (importCount + pos)
  name := decl.name.name
  kind := if decl.exported then .exported else .internal
  span := decl.span

/-- The entries of all functions of a module. -/
def functionEntries (program : Program) (emitted : List FunctionDecl) : List SourceMap.Entry :=
  program.imports.mapIdx importEntry ++ emitted.mapIdx (functionEntry program.imports.length)

theorem indices_functionEntries (few : program.imports.length + emitted.length < 0x100000000) :
    (functionEntries program emitted).map (fun entry => entry.index.toNat) =
      List.range (program.imports.length + emitted.length) := by
  refine ext_getElem (by simp [functionEntries]) fun pos inside _ => ?_
  simp only [functionEntries, length_map, length_append, length_mapIdx] at inside
  have small : pos % 0x100000000 = pos := Nat.mod_eq_of_lt (by omega)
  by_cases isImport : pos < program.imports.length
  · simp [functionEntries, importEntry, isImport, small]
  · have sum_eq : program.imports.length + (pos - program.imports.length) = pos := by
      omega
    simp [functionEntries, functionEntry, getElem_append, isImport, sum_eq, small]

variable {config : Config} {program : Program} {emitted : List FunctionDecl}
variable {compiled : Compiled}

theorem Assembled.completeSourceMap?_eq (assembled : Assembled setup program emitted prog)
    (countable : prog.mod.Countable) : prog.mod.completeSourceMap? =
      some { SourceMap.empty setup.config.sourceName with
        entries := functionEntries program emitted } := by
  have length_eq := assembled.imports.length_eq
  have few : program.imports.length + emitted.length < 0x100000000 := by
    rw [length_eq, assembled.functions.length_eq]
    exact countable.functions
  have each : ∀ mapped ∈ prog.mod.mapped, mapped.entry prog.mod.numbered = pure
      { index := UInt32.ofNat (prog.mod.functionIndex mapped.function)
        name := mapped.name
        kind := mapped.kind
        span := mapped.span } := by
    intro mapped mem
    rw [MappedFunction.entry,
      Module.read_function.mpr ⟨assembled.closed.mapped mapped mem, rfl⟩]
    rfl
  have entries_eq : prog.mod.mapped.mapM (MappedFunction.entry prog.mod.numbered) =
      pure (functionEntries program emitted) := by
    rw [mapM_eq_pure each, assembled.mapped_eq, functionEntries, map_append]
    congr 2
    · exact ext_getElem (by simp) fun pos _ _ => by
        simp [importEntry, mappedImport, Module.functionIndex]
    · exact ext_getElem (by simp) fun pos _ _ => by
        simp [functionEntry, mappedFunction, Module.functionIndex, length_eq]
  rw [Module.completeSourceMap?, Module.cells, Module.linearize_eq countable]
  dsimp only
  rw [Module.completeSourceMap, assembled.sourceMap_eq]
  dsimp only
  rw [entries_eq, pure_bind, SourceMap.foldl_push,
    SourceMap.sorted_eq_self (indices_functionEntries few)]
  rfl

/-- The source map of an accepted program has one entry for each function of the module, in
the order of their indices: the imports, and then the functions whose code it holds. It can be
read from the module when it is embedded. -/
theorem sourceMap_matches_functions
    (compiles : compile config program = .ok compiled) :
    ∃ layouts emitted contents, Layouts.build config.sourceName program.structs = .ok layouts ∧
      Contents.read? compiled.binary = some contents ∧
      Emits { config, layouts } program emitted contents ∧
      compiled.sourceMap.entries = functionEntries program emitted ∧
      compiled.sourceMap.entries.map (fun entry => entry.index.toNat) =
        List.range (contents.imports.length + contents.code.length) ∧
      (config.sourceMap = true → ∃ data,
        contents.custom? = some (sourceMapSectionName, data) ∧
          (Reader.text.exhaust data).bind SourceMap.parse = some compiled.sourceMap) := by
  rw [compile_eq_assemble_bind_write] at compiles
  obtain ⟨progress, assembles, written⟩ := bind_eq_ok.mp compiles
  obtain ⟨layouts, emitted, built, assembled⟩ := assembled_of_assemble assembles
  obtain ⟨contents, read, emits⟩ := assembled.emits written
  obtain ⟨countable, map_eq, code, holds, readCode⟩ := read?_of_write written
  obtain rfl : contents = progress.mod.contents code := Option.some.inj (read.symm.trans readCode)
  have imports_eq := assembled.imports.length_eq
  have functions_eq := assembled.functions.length_eq
  have few := countable.functions
  rw [← imports_eq, ← functions_eq] at few
  rw [assembled.completeSourceMap?_eq countable, Option.getD_some] at map_eq
  have entries_eq : compiled.sourceMap.entries = functionEntries program emitted := by
    rw [map_eq]
  refine ⟨layouts, emitted, _, built, read, emits, entries_eq, ?_, fun embeds => ?_⟩
  · change _ = List.range (progress.mod.imports.length + code.length)
    rw [entries_eq, indices_functionEntries few, imports_eq, functions_eq, holds.length_eq]
  · refine ⟨Bytes.utf8 compiled.sourceMap.jsonText, ?_, ?_⟩
    · change ite _ _ _ = _
      rw [assembled.embed_eq, if_pos embeds, assembled.completeSourceMap?_eq countable, ← map_eq]
      rfl
    · rw [Reader.exhaust_text, Option.bind_some, SourceMap.parse_render_toJson]

/-- A source map that is not too large can be embedded. -/
theorem exists_write_embedded {map : SourceMap}
    (written : (write config
      { prog with mod := { prog.mod with embedSourceMap := false } }).isOk = true)
    (map_eq : prog.mod.completeSourceMap? = some map)
    (small : (Section.custom sourceMapSectionName (Bytes.utf8 map.jsonText)).checkSize = .ok ()) :
    ∃ compiled, write config prog = .ok compiled := by
  cases bare : write config { prog with mod := { prog.mod with embedSourceMap := false } } with
  | error fault =>
    rw [bare] at written
    cases written
  | ok compiled =>
    obtain ⟨bytes, encoded, -⟩ := bind_eq_ok.mp bare
    rw [Module.binary] at encoded
    split at encoded
    · cases encoded
    · rename_i set cells linearized
      replace linearized : prog.mod.linearize [] = .ok set cells := linearized
      obtain ⟨map?, maps, encoded⟩ := bind_eq_ok.mp encoded
      obtain ⟨parts, writes, encoded⟩ := bind_eq_ok.mp encoded
      obtain ⟨_, sizes, -⟩ := bind_eq_ok.mp encoded
      replace sizes : parts.forM Section.checkSize = .ok () := by
        rw [← append_nil parts]
        exact sizes
      obtain rfl : map? = some map := by
        rw [← map_eq, Module.completeSourceMap?, Module.cells, linearized]
        exact (congrArg (fun out => Option.join (Except.toOption out)) maps).symm
      have all : (parts ++ (prog.mod.sourceMapSection? (some map)).toList).forM
          Section.checkSize = .ok () := by
        rw [forM_eq_forM, forM_append]
        refine bind_eq_ok.mpr ⟨(), sizes, ?_⟩
        unfold Module.sourceMapSection?
        split
        · exact bind_eq_ok.mpr ⟨(), small, rfl⟩
        · rfl
      refine ⟨_, bind_eq_ok.mpr ⟨header ++ (parts ++
        (prog.mod.sourceMapSection? (some map)).toList).flatMap Section.encode, ?_, rfl⟩⟩
      rw [Module.binary, linearized]
      exact bind_eq_ok.mpr ⟨_, maps, bind_eq_ok.mpr ⟨parts, writes,
        bind_eq_ok.mpr ⟨(), all, rfl⟩⟩⟩

/-- The source map of the program with two functions. -/
def boxMap : SourceMap :=
  { SourceMap.empty Config.standard.sourceName with
    entries := functionEntries boxProgram [passesBox, readsFlag] }

theorem assemble_standard_boxProgram : ((assemble .standard boxProgram).toOption.map fun prog =>
      (prog.mod.completeSourceMap?, (write .standard
        { prog with mod := { prog.mod with embedSourceMap := false } }).isOk)) =
      some (some boxMap, true) := by
  cbv

theorem compile_standard_boxProgram : ∃ compiled, compile .standard boxProgram = .ok compiled := by
  obtain ⟨prog, assembled, facts⟩ := Option.map_eq_some_iff.mp assemble_standard_boxProgram
  obtain ⟨map_eq, isOk⟩ := Prod.mk.inj facts
  rw [compile_eq_assemble_bind_write, eq_ok_of_toOption assembled]
  exact exists_write_embedded isOk map_eq (by decide +kernel)

/-- Two functions, of which one is exported; the map is embedded. -/
theorem sourceMap_matches_boxProgram :
    ∃ compiled layouts emitted contents data, compile .standard boxProgram = .ok compiled ∧
      Contents.read? compiled.binary = some contents ∧
      Emits { config := .standard, layouts } boxProgram emitted contents ∧
      compiled.sourceMap.entries = functionEntries boxProgram emitted ∧
      contents.custom? = some (sourceMapSectionName, data) ∧
      (Reader.text.exhaust data).bind SourceMap.parse = some compiled.sourceMap := by
  obtain ⟨compiled, compiles⟩ := compile_standard_boxProgram
  obtain ⟨layouts, emitted, contents, -, read, emits, entries_eq, -, embeds⟩ :=
    sourceMap_matches_functions compiles
  obtain ⟨data, custom_eq, parsed⟩ := embeds rfl
  exact ⟨compiled, layouts, emitted, contents, data, compiles, read, emits, entries_eq, custom_eq,
    parsed⟩

end Compile
end StructWasm

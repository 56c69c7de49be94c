import StructWasm.Compile.Declare
import StructWasm.Compile.Worklist
import StructWasm.Proofs.Diagnostic.Batch
import StructWasm.Proofs.Wasm.Module

/-!
# What declarations come to

The mistakes that are noted in a declaration and the signature that it gets follow from
the declaration alone, as long as its name is new. So the tables after all declarations
can be written down, and a program without mistakes has declared every function once.
-/

namespace StructWasm

open List

namespace Compile

open Wasm

def Progress.jot (prog : Progress) (errors : List Diagnostic) : Progress :=
  { prog with errors := prog.errors.pushErrors errors }

namespace Progress

variable (setup : Setting) (prog : Progress)

theorem note_eq_jot (mistake : Mistake) (span : Span) : prog.note setup mistake span =
      prog.jot [mistake.report setup.config.sourceName span] := rfl

theorem jot_jot (first second : List Diagnostic) :
    (prog.jot first).jot second = prog.jot (first ++ second) := by
  unfold jot
  rw [Diagnostic.Batch.pushErrors_append]

end Progress

/-! ## Types -/

/-- Mistakes of a written type. -/
def typeMistakes (setup : Setting) (written : TypeNote) : List Diagnostic :=
  match setup.layouts.resolve written.type with
  | .ok _ => []
  | .error mistake => [mistake.report setup.config.sourceName written.span]

/-- The types of a list of written types, if all are known. -/
def typesOf? (setup : Setting) : List TypeNote → Option (List Ty)
  | [] => some []
  | written :: rest =>
    match setup.layouts.resolve written.type with
    | .ok type => (typesOf? setup rest).map (type :: ·)
    | .error _ => none

/-- The signature of written types, if all are known. -/
def signatureOf? (setup : Setting) (params : List TypeNote) (result : Option TypeNote) :
    Option Signature := do
  return { params := ← typesOf? setup params, result := (← typesOf? setup result.toList).head? }

theorem resolveTypes_eq (setup : Setting) (notes : List TypeNote) (prog : Progress) :
    Progress.resolveTypes setup notes prog =
      (prog.jot (notes.flatMap (typeMistakes setup)), typesOf? setup notes) := by
  induction notes generalizing prog with
  | nil => rfl
  | cons written rest ih =>
    rw [Progress.resolveTypes, typesOf?, flatMap_cons, ← Progress.jot_jot, typeMistakes]
    cases setup.layouts.resolve written.type with
    | ok type =>
      dsimp only
      rw [ih]
      rfl
    | error mistake =>
      dsimp only
      rw [ih]
      rfl

theorem resolveSignature_eq (setup : Setting) (params : List TypeNote)
    (result : Option TypeNote) (prog : Progress) : prog.resolveSignature setup params result =
      (prog.jot ((params ++ result.toList).flatMap (typeMistakes setup)),
        signatureOf? setup params result) := by
  unfold Progress.resolveSignature
  rw [resolveTypes_eq]
  dsimp only
  rw [resolveTypes_eq, Progress.jot_jot, ← flatMap_append]
  rfl

variable {setup : Setting} {decl : ImportDecl} {prog : Progress}

theorem typesOf?_isSome (faultless : notes.flatMap (typeMistakes setup) = []) :
    ∃ types, typesOf? setup notes = some types := by
  induction notes with
  | nil => exact ⟨[], rfl⟩
  | cons written rest ih =>
    rw [flatMap_cons, append_eq_nil_iff] at faultless
    obtain ⟨types, rest_eq⟩ := ih faultless.2
    have known := faultless.1
    unfold typeMistakes at known
    unfold typesOf?
    split
    · rename_i type resolved
      exact ⟨type :: types, by rw [rest_eq]; rfl⟩
    · rename_i mistake resolved
      rw [resolved] at known
      cases known

theorem signatureOf?_isSome
    (faultless : (params ++ result.toList).flatMap (typeMistakes setup) = []) :
    ∃ sig, signatureOf? setup params result = some sig := by
  rw [flatMap_append, append_eq_nil_iff] at faultless
  obtain ⟨types, params_eq⟩ := typesOf?_isSome faultless.1
  obtain ⟨results, result_eq⟩ := typesOf?_isSome faultless.2
  exact ⟨{ params := types, result := results.head? }, by
    rw [signatureOf?, params_eq, result_eq]
    rfl⟩

/-! ## Imports -/

/-- Mistakes of the declaration of an imported function. -/
def importMistakes (setup : Setting) (decl : ImportDecl) : List Diagnostic :=
  (decl.params ++ decl.result.toList).flatMap (typeMistakes setup) ++
    if (signatureOf? setup decl.params decl.result).any Signature.hasStruct then
      [(Mistake.structureAcrossBoundary .imported decl.name.name).report setup.config.sourceName
        decl.span]
    else
      []

/-- The signature of an imported function, if its declaration has no mistakes. -/
def importSignature? (setup : Setting) (decl : ImportDecl) : Option Signature :=
  (signatureOf? setup decl.params decl.result).filter fun sig => !sig.hasStruct

/-- Enter an imported function in the tables. -/
def Progress.enroll (prog : Progress) (decl : ImportDecl) (sig : Signature) : Progress :=
  let created := prog.mod.importFunction decl.moduleName decl.fieldName sig.wasmType
  { prog with
    mod := created.1.mapFunction
      { function := created.2, name := decl.name.name, kind := .imported, span := decl.span }
    signatures := prog.signatures ++ [(decl.name.name, some sig)]
    functions := prog.functions ++ [(decl.name.name, created.2)] }

/-- Enter an imported function in the tables, unless its declaration is faulty. -/
def Progress.enroll? (prog : Progress) (decl : ImportDecl) : Option Signature → Progress
  | none => prog
  | some sig => prog.enroll decl sig

theorem declareImport_eq (undeclared : prog.isDeclared decl.name.name = false) :
    prog.declareImport setup decl =
      (prog.jot (importMistakes setup decl)).enroll? decl (importSignature? setup decl) := by
  unfold Progress.declareImport importMistakes importSignature?
  dsimp only
  rw [undeclared, resolveSignature_eq]
  cases signatureOf? setup decl.params decl.result with
  | none =>
    simp only [Option.any_none, Bool.false_eq_true, if_false, append_nil]
    rfl
  | some sig =>
    dsimp only
    cases crosses : sig.hasStruct with
    | true =>
      simp only [Option.any_some, crosses, if_true, Option.filter, Bool.not_true,
        Bool.false_eq_true, if_false]
      rw [Progress.note_eq_jot, Progress.jot_jot]
      rfl
    | false =>
      simp only [Option.any_some, crosses, Bool.false_eq_true, if_false, Option.filter,
        Bool.not_false, if_true, append_nil]
      rfl

theorem declareImport_of_isDeclared (declared : prog.isDeclared decl.name.name = true) :
    prog.declareImport setup decl = prog.jot [
      (Mistake.duplicateFunction decl.name.name).report setup.config.sourceName
      decl.name.span] := by
  unfold Progress.declareImport
  dsimp only
  rw [if_pos declared, Progress.note_eq_jot]

theorem importSignature?_isSome (faultless : importMistakes setup decl = []) :
    ∃ sig, importSignature? setup decl = some sig := by
  rw [importMistakes, append_eq_nil_iff] at faultless
  obtain ⟨sig, known⟩ := signatureOf?_isSome faultless.1
  have stays := faultless.2
  rw [known, Option.any_some] at stays
  refine ⟨sig, ?_⟩
  rw [importSignature?, known, Option.filter_some, if_pos]
  cases crosses : sig.hasStruct with
  | false => rfl
  | true =>
    rw [crosses] at stays
    cases stays

/-! ## Functions -/

/-- Mistakes of parameters whose name is taken by an earlier one. -/
def repeatedParams (setup : Setting) : List String → List TypedName → List Diagnostic
  | _, [] => []
  | seen, param :: rest =>
    (if seen.contains param.name.name then
      [(Mistake.duplicateParameter param.name.name).report setup.config.sourceName
        param.name.span]
    else
      []) ++ repeatedParams setup (param.name.name :: seen) rest

theorem noteDuplicateParams_eq (setup : Setting) (seen : List String) (params : List TypedName)
    (prog : Progress) : Progress.noteDuplicateParams setup seen params prog =
      prog.jot (repeatedParams setup seen params) := by
  induction params generalizing seen prog with
  | nil => rfl
  | cons param rest ih =>
    unfold Progress.noteDuplicateParams repeatedParams
    dsimp only
    rw [ih, ← Progress.jot_jot]
    split
    · rfl
    · rfl

theorem nodup_of_repeatedParams (faultless : repeatedParams setup seen params = []) :
    (params.map fun param => param.name.name).Nodup ∧ ∀ param ∈ params, param.name.name ∉ seen := by
  induction params generalizing seen with
  | nil => exact ⟨nodup_nil, forall_mem_nil _⟩
  | cons param rest ih =>
    rw [repeatedParams, append_eq_nil_iff] at faultless
    obtain ⟨distinct, fresh⟩ := ih faultless.2
    have new : param.name.name ∉ seen := by
      intro mem
      have known := faultless.1
      rw [if_pos (contains_iff_mem.mpr mem)] at known
      cases known
    refine ⟨nodup_cons.mpr ⟨?_, distinct⟩, forall_mem_cons.mpr ⟨new, ?_⟩⟩
    · intro mem
      obtain ⟨other, isOther, same⟩ := mem_map.mp mem
      exact fresh other isOther (same ▸ mem_cons_self)
    · exact fun other isOther mem => fresh other isOther (mem_cons_of_mem _ mem)

/-- Whether a structure would have to cross to the host. -/
def crosses (setup : Setting) (decl : FunctionDecl) : Bool :=
  decl.exported &&
    (signatureOf? setup (decl.params.map TypedName.type) decl.result).any Signature.hasStruct

/-- Mistakes of the declaration of a function. -/
def declarationMistakes (setup : Setting) (decl : FunctionDecl) : List Diagnostic :=
  repeatedParams setup [] decl.params ++
    (decl.params.map TypedName.type ++ decl.result.toList).flatMap (typeMistakes setup) ++
    if crosses setup decl then
      [(Mistake.structureAcrossBoundary .exported decl.name.name).report setup.config.sourceName
        decl.span]
    else
      []

/-- The signature of a function, if its declaration has no mistakes. -/
def declaredSignature? (setup : Setting) (decl : FunctionDecl) : Option Signature :=
  if crosses setup decl || !(decl.params.map fun param => param.name.name).Nodup then
    none
  else
    signatureOf? setup (decl.params.map TypedName.type) decl.result

theorem declareFunction_eq {decl} (undeclared : prog.isDeclared decl.name.name = false) :
    prog.declareFunction setup decl = (prog.jot (declarationMistakes setup decl)).enter decl
        (declaredSignature? setup decl) := by
  unfold Progress.declareFunction declarationMistakes declaredSignature? crosses
  dsimp only
  rw [undeclared, noteDuplicateParams_eq, resolveSignature_eq, Progress.jot_jot]
  dsimp only
  rw [← Progress.jot_jot prog (_ ++ _)]
  simp only [Bool.false_eq_true, if_false]
  congr 1
  split
  · rfl
  · rfl

theorem declareFunction_of_isDeclared {decl} (declared : prog.isDeclared decl.name.name = true) :
    prog.declareFunction setup decl =
      prog.note setup (.duplicateFunction decl.name.name) decl.name.span := by
  unfold Progress.declareFunction
  dsimp only
  rw [if_pos declared]

theorem declaredSignature?_isSome {decl} (faultless : declarationMistakes setup decl = []) :
    ∃ sig, declaredSignature? setup decl = some sig := by
  rw [declarationMistakes, append_eq_nil_iff, append_eq_nil_iff] at faultless
  obtain ⟨⟨unrepeated, known⟩, stays⟩ := faultless
  have distinct := (nodup_of_repeatedParams unrepeated).1
  have inside : crosses setup decl = false := by
    cases crossing : crosses setup decl with
    | false => rfl
    | true =>
      rw [crossing] at stays
      cases stays
  rw [declaredSignature?, inside, decide_eq_true distinct]
  exact signatureOf?_isSome known

/-! ## All functions -/

/-- The entry of a function that waits, unless its declaration is faulty. -/
def pendingOf? (setup : Setting) (decl : FunctionDecl) : Option Pending :=
  (declaredSignature? setup decl).map fun signature => { decl, signature }

def namesOf (decls : List FunctionDecl) : List String :=
  decls.map fun decl => decl.name.name

/-- The tables with some functions declared. -/
def Progress.enterAll (setup : Setting) (prog : Progress) (decls : List FunctionDecl) :
    Progress :=
  { prog with
    signatures := prog.signatures ++
      decls.map fun decl => (decl.name.name, declaredSignature? setup decl)
    pending := prog.pending ++ decls.filterMap (pendingOf? setup)
    errors := prog.errors.pushErrors (decls.flatMap (declarationMistakes setup)) }

section

variable {setup : Setting} {prog : Progress}

theorem isDeclared_enterAll (name : String) : (prog.enterAll setup decls).isDeclared name =
      (prog.isDeclared name || (namesOf decls).contains name) := by
  unfold Progress.isDeclared Progress.enterAll namesOf
  dsimp only
  rw [lookup_append, Option.isSome_or]
  congr 1
  rw [Bool.eq_iff_iff, contains_iff_mem, ← Option.ne_none_iff_isSome, Ne,
    lookup_eq_none_iff, mem_map]
  simp only [forall_mem_map, bne_iff_ne, ne_eq, Classical.not_forall, Classical.not_not,
    exists_prop]
  exact exists_congr fun decl => and_congr_right fun _ => eq_comm

theorem enterAll_concat (decl : FunctionDecl) :
    ((prog.enterAll setup decls).jot (declarationMistakes setup decl)).enter decl
        (declaredSignature? setup decl) =
      prog.enterAll setup (decls ++ [decl]) := by
  unfold Progress.enterAll Progress.jot Progress.enter
  simp only [map_append, filterMap_append, flatMap_append, append_assoc,
    Diagnostic.Batch.pushErrors_append, map_cons, map_nil, flatMap_cons,
    flatMap_nil, append_nil, filterMap_cons, filterMap_nil]
  unfold pendingOf?
  cases declaredSignature? setup decl <;> rfl

theorem foldl_declareFunction_eq (fresh : ∀ decl ∈ decls, prog.isDeclared decl.name.name = false)
    (distinct : (namesOf decls).Nodup) :
    decls.foldl (Progress.declareFunction setup) prog = prog.enterAll setup decls := by
  induction decls using List.reverseRecOn with
  | nil => simp [Progress.enterAll, Diagnostic.Batch.pushErrors]
  | append_singleton decls decl ih =>
    rw [namesOf, map_append, nodup_append] at distinct
    rw [forall_mem_append, forall_mem_singleton] at fresh
    rw [foldl_concat, ih fresh.1 distinct.1, declareFunction_eq, enterAll_concat]
    rw [isDeclared_enterAll, fresh.2, Bool.false_or, Bool.eq_false_iff, Ne, contains_iff_mem]
    exact fun mem => distinct.2.2 _ mem _ (mem_singleton_self _) rfl

/-- If no mistake was noted, every function was declared under a name of its own, and every
declaration is faultless. -/
theorem faultless_of_foldl_declareFunction
    (faultless : (decls.foldl (Progress.declareFunction setup) prog).errors.totalErrors = 0) :
    prog.errors.totalErrors = 0 ∧
      (∀ decl ∈ decls, prog.isDeclared decl.name.name = false) ∧ (namesOf decls).Nodup ∧
      ∀ decl ∈ decls, declarationMistakes setup decl = [] := by
  induction decls using List.reverseRecOn with
  | nil => exact ⟨faultless, forall_mem_nil _, nodup_nil, forall_mem_nil _⟩
  | append_singleton decls decl ih =>
    rw [foldl_concat] at faultless
    cases declared : (decls.foldl (Progress.declareFunction setup) prog).isDeclared
        decl.name.name with
    | true =>
      rw [declareFunction_of_isDeclared declared] at faultless
      cases faultless
    | false =>
      rw [declareFunction_eq declared] at faultless
      change (Diagnostic.Batch.pushErrors _ _).totalErrors = 0 at faultless
      rw [Diagnostic.Batch.totalErrors_pushErrors, Nat.add_eq_zero_iff] at faultless
      obtain ⟨before, fresh, distinct, clean⟩ := ih faultless.1
      rw [foldl_declareFunction_eq fresh distinct, isDeclared_enterAll, Bool.or_eq_false_iff]
        at declared
      refine ⟨before, ?_, ?_, ?_⟩
      · rw [forall_mem_append, forall_mem_singleton]
        exact ⟨fresh, declared.1⟩
      · rw [namesOf, map_append]
        refine nodup_append.mpr ⟨distinct, nodup_singleton _, ?_⟩
        intro name mem other isOther
        rw [map_singleton, mem_singleton] at isOther
        rintro rfl
        have absent := Bool.eq_false_iff.mp declared.2
        rw [Ne, contains_iff_mem] at absent
        exact absent (isOther ▸ mem)
      · rw [forall_mem_append, forall_mem_singleton]
        exact ⟨clean, length_eq_zero_iff.mp faultless.2⟩

end

/-! ## All imports -/

/-- Only what modules have besides imports, functions, exports and mapped functions. -/
structure SameRest (mod next : Module Lowering.Body) : Prop where
  memory_eq : next.memory? = mod.memory?
  globals_eq : next.globals = mod.globals
  start_eq : next.start? = mod.start?
  data_eq : next.data = mod.data
  sourceMap_eq : next.sourceMap? = mod.sourceMap?
  embedSourceMap_eq : next.embedSourceMap = mod.embedSourceMap

theorem SameRest.refl (mod : Module Lowering.Body) : SameRest mod mod :=
  ⟨rfl, rfl, rfl, rfl, rfl, rfl⟩

theorem SameRest.trans {mod mid next} (first : SameRest mod mid)
    (second : SameRest mid next) : SameRest mod next :=
  ⟨second.memory_eq.trans first.memory_eq, second.globals_eq.trans first.globals_eq,
    second.start_eq.trans first.start_eq, second.data_eq.trans first.data_eq,
    second.sourceMap_eq.trans first.sourceMap_eq,
    second.embedSourceMap_eq.trans first.embedSourceMap_eq⟩

theorem registerType_fst (mod : Module Lowering.Body) (type : FuncType) :
    ∃ table : SignatureTable, (mod.registerType type).1 = { mod with toSignatureTable := table } ∧
      mod.types <+: table.types ∧ table.types[(mod.registerType type).2]? = some type := by
  refine ⟨(mod.registerType type).1.toSignatureTable, ?_, Module.registerType_spec mod type⟩
  unfold Module.registerType
  split <;> rfl

/-- What the source map says of an imported function. -/
def mappedImport (pos : Nat) (decl : ImportDecl) : MappedFunction :=
  { function := .imported pos, name := decl.name.name, kind := .imported, span := decl.span }

/-- An import under its names and its type. -/
def ImportedAs (setup : Setting) (types : List FuncType) (decl : ImportDecl) (entry : Import) :
    Prop :=
  entry.moduleName = decl.moduleName ∧ entry.name = decl.fieldName ∧
    ∃ sig, importSignature? setup decl = some sig ∧
      types[entry.typeIndex]? = some sig.wasmType

theorem ImportedAs.mono (imported : ImportedAs setup types decl entry)
    (grows : types <+: more) : ImportedAs setup more decl entry := by
  obtain ⟨module_eq, name_eq, sig, known, typed⟩ := imported
  exact ⟨module_eq, name_eq, sig, known, Module.getElem?_of_prefix grows typed⟩

/-- The imports that were admitted, and the mistakes of the others. -/
structure Admitted (setup : Setting) (mod : Module Lowering.Body)
    (imports admitted : List ImportDecl) (mistakes : List Diagnostic) (prog : Progress) :
    Prop where
  sublist : admitted.Sublist imports
  all : mistakes = [] → admitted = imports
  errors_eq : prog.errors = Diagnostic.Batch.empty.pushErrors mistakes
  signatures_eq : prog.signatures =
    admitted.map fun decl => (decl.name.name, importSignature? setup decl)
  functions_eq : prog.functions =
    admitted.mapIdx fun pos decl => (decl.name.name, .imported pos)
  pending_eq : prog.pending = []
  imports_eq : List.Forall₂ (ImportedAs setup prog.mod.types) admitted prog.mod.imports
  mapped_eq : prog.mod.mapped = admitted.mapIdx mappedImport
  defined_eq : prog.mod.functions = mod.functions
  exports_eq : prog.mod.exports = mod.exports
  rest : SameRest mod prog.mod

namespace Admitted

variable {setup : Setting} {mod : Module Lowering.Body} {imports admitted : List ImportDecl}
variable {mistakes : List Diagnostic} {prog : Progress}

variable (progressAdmitted : Admitted setup mod imports admitted mistakes prog)
include progressAdmitted

theorem jot (decl : ImportDecl) (some_ne : more ≠ []) :
    Admitted setup mod (imports ++ [decl]) admitted (mistakes ++ more) (prog.jot more) := by
  obtain ⟨sublist, -, errors_eq, signatures_eq, functions_eq, pending_eq, imports_eq, mapped_eq,
    defined_eq, exports_eq, rest⟩ := progressAdmitted
  refine ⟨sublist.trans (sublist_append_left _ _), ?_, ?_, signatures_eq, functions_eq,
    pending_eq, imports_eq, mapped_eq, defined_eq, exports_eq, rest⟩
  · intro none
    exact absurd (append_eq_nil_iff.mp none).2 some_ne
  · rw [← Diagnostic.Batch.pushErrors_append, ← errors_eq]
    rfl

theorem enroll (known : importSignature? setup decl = some sig) (more : List Diagnostic) :
    Admitted setup mod (imports ++ [decl]) (admitted ++ [decl]) (mistakes ++ more)
      ((prog.jot more).enroll decl sig) := by
  obtain ⟨sublist, all, errors_eq, signatures_eq, functions_eq, pending_eq, imports_eq, mapped_eq,
    defined_eq, exports_eq, rest⟩ := progressAdmitted
  obtain ⟨table, added, grows, typed⟩ := registerType_fst prog.mod sig.wasmType
  have imported : prog.mod.importFunction decl.moduleName decl.fieldName sig.wasmType =
      ({ prog.mod with
        toSignatureTable := table
        imports := prog.mod.imports ++ [{
          moduleName := decl.moduleName
          name := decl.fieldName
          typeIndex := (prog.mod.registerType sig.wasmType).2 }] },
        .imported admitted.length) := by
    rw [imports_eq.length_eq]
    simp only [Module.importFunction, added]
  unfold Progress.enroll Progress.jot
  dsimp only
  rw [imported]
  dsimp only
  constructor
  · exact sublist.append (List.Sublist.refl _)
  · intro none
    rw [all (append_eq_nil_iff.mp none).1]
  · rw [← Diagnostic.Batch.pushErrors_append, ← errors_eq]
  · rw [map_append, map_singleton, signatures_eq, known]
  · rw [mapIdx_concat, functions_eq]
  · exact pending_eq
  · exact rel_append (imports_eq.imp fun _ _ imported => imported.mono grows)
      (.cons ⟨rfl, rfl, sig, known, typed⟩ .nil)
  · change prog.mod.mapped ++ _ = _
    rw [mapIdx_concat, mapped_eq]
    rfl
  · exact defined_eq
  · exact exports_eq
  · exact rest.trans ⟨rfl, rfl, rfl, rfl, rfl, rfl⟩

end Admitted

theorem importSignature?_isNone (faulty : importSignature? setup decl = none) :
    importMistakes setup decl ≠ [] := by
  intro faultless
  obtain ⟨sig, known⟩ := importSignature?_isSome faultless
  rw [known] at faulty
  cases faulty

/-- A compilation in which nothing is declared yet. -/
def beginWith (mod : Module Lowering.Body) : Progress :=
  { mod, signatures := [], functions := [], pending := [], errors := .empty }

/-- After the declarations of imports, those without mistakes are in the module. -/
theorem exists_admitted (setup : Setting) (noImports : mod.imports = [])
    (noMapped : mod.mapped = []) (imports : List ImportDecl) :
    ∃ admitted mistakes, Admitted setup mod imports admitted mistakes
      (imports.foldl (Progress.declareImport setup) (beginWith mod)) := by
  induction imports using List.reverseRecOn with
  | nil =>
    refine ⟨[], [], List.Sublist.refl _, fun _ => rfl, rfl, rfl, rfl, rfl, ?_, ?_, rfl, rfl,
      .refl _⟩
    · rw [show (List.foldl _ (beginWith mod) []).mod.imports = mod.imports from rfl, noImports]
      exact .nil
    · exact noMapped
  | append_singleton imports decl ih =>
    obtain ⟨admitted, mistakes, before⟩ := ih
    rw [foldl_concat]
    generalize imports.foldl (Progress.declareImport setup) (beginWith mod) = prog at before ⊢
    cases declared : prog.isDeclared decl.name.name with
    | true =>
      rw [declareImport_of_isDeclared declared]
      exact ⟨admitted, _, before.jot decl (cons_ne_nil _ _)⟩
    | false =>
      rw [declareImport_eq declared]
      cases known : importSignature? setup decl with
      | none => exact ⟨admitted, _, before.jot decl (importSignature?_isNone known)⟩
      | some sig => exact ⟨_, _, before.enroll known _⟩

end Compile
end StructWasm

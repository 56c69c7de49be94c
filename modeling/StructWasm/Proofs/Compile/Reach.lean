import StructWasm.Proofs.Compile.Assembly

/-!
# Which functions a module has

The functions of the module of an accepted program are those that are reached from the
exported ones by calls in the text, each once. Every call, and every export, has the index
of the function that it names.
-/

namespace StructWasm

open List FunctionDecl

/-- A function of a program that is exported, or called by one that is reached. -/
inductive Program.Reaches (program : Program) : FunctionDecl → Prop where
  | exported {decl : FunctionDecl} (declared : decl ∈ program.functions)
      (isExported : decl.exported = true) :
      Reaches program decl
  | called {caller decl : FunctionDecl} (reaches : Reaches program caller)
      (declared : decl ∈ program.functions) (calls : decl.name.name ∈ caller.body.callees) :
      Reaches program decl

namespace Compile

open Wasm Progress

/-! ## What is emitted -/

/-- The functions of a program by name. A faulty declaration has no signature. -/
def signatureTable (setup : Setting) (program : Program) : List (String × Option Signature) :=
  program.imports.map (fun decl => (decl.name.name, importSignature? setup decl)) ++
    program.functions.map fun decl => (decl.name.name, declaredSignature? setup decl)

/-- Index of a function, when some functions are emitted after the imports. -/
def callIndex (program : Program) (emitted : List FunctionDecl) (name : String) :
    Except Fault Nat :=
  match (program.imports.map (fun decl => decl.name.name) ++ namesOf emitted).idxOf? name with
  | some index => .ok index
  | none => .error (.deferred (.unresolved "function index"))

/-- What a function is lowered to. -/
structure Lowers (setup : Setting) (program : Program) (decl : FunctionDecl)
    (sig : Signature) (body : Lowering.Body) : Prop where
  signed : declaredSignature? setup decl = some sig
  lowered : (Lowering.lowerFunction setup.config setup.layouts (signatureTable setup program)
    decl sig).body = .ok body

/-- An entry of a binary holds a function body, in which functions have certain indices. -/
def HoldsCode (functionIndex : String → Except Fault Nat) (body : Lowering.Body)
    (entry : CodeEntry) : Prop :=
  entry.locals = body.locals.groups ∧
    encodeCode (body.resolver functionIndex fun .stackPointer => 0) body.code = .ok entry.code

/-- A binary holds some functions of a program, and exports those that are to be. -/
structure Emits (setup : Setting) (program : Program) (emitted : List FunctionDecl)
    (contents : Contents) : Prop where
  imports : List.Forall₂ (ImportedAs setup contents.types) program.imports contents.imports
  sameLength : contents.functions.length = contents.code.length
  /-- Every function has its type and its body. -/
  functions : List.Forall₂
    (fun decl function => ∃ sig body, Lowers setup program decl sig body ∧
      contents.types[function.1]? = some sig.wasmType ∧
      HoldsCode (callIndex program emitted) body function.2)
    emitted (contents.functions.zip contents.code)
  /-- Every exported function has its name and the index of its body. -/
  exports : List.Forall₂
    (fun decl entry => entry.1 = decl.name.name ∧ ∃ pos : Nat,
      emitted[pos]? = some decl ∧ entry.2 = (.function, program.imports.length + pos))
    (program.functions.filter FunctionDecl.exported)
    (contents.exports.filter fun entry => entry.2.1 = .function)

/-! ## What is written -/

section

variable {config : Config} {prog : Progress} {compiled : Compiled}

theorem read?_of_write (written : write config prog = .ok compiled) :
    prog.mod.Countable ∧ compiled.sourceMap =
        prog.mod.completeSourceMap?.getD (.empty config.sourceName) ∧
      ∃ code, List.Forall₂ (fun function entry => ∃ body, function.body? = some body ∧
          HoldsCode (functionIndex prog) body entry) prog.mod.functions code ∧
        Contents.read? compiled.binary = some (prog.mod.contents code) := by
  obtain ⟨bytes, encoded, same⟩ := bind_eq_ok.mp written
  obtain rfl := pure_eq_ok.mp same
  obtain ⟨few, -, parts, encodes, rfl⟩ := Module.parts_of_binary encoded
  obtain ⟨code, rfl, holds⟩ := CodeEntry.exists_of_mapM_encodeFunction
    (fun _ _ encodes => CodeEntry.exists_of_encode encodes) encodes
  exact ⟨few, rfl, code, holds, Module.read?_sections _ code⟩

end

/-! ## All declarations -/

section Declared

variable {setup : Setting} {program : Program} {mod : Module Lowering.Body}

theorem mem_filterMap_pendingOf? {decls : List FunctionDecl} {entry : Pending} :
    entry ∈ decls.filterMap (pendingOf? setup) ↔
      entry.decl ∈ decls ∧ declaredSignature? setup entry.decl = some entry.signature := by
  rw [mem_filterMap]
  constructor
  · rintro ⟨decl, declared, waits⟩
    obtain ⟨sig, signed, rfl⟩ := Option.map_eq_some_iff.mp waits
    exact ⟨declared, signed⟩
  · rintro ⟨declared, signed⟩
    exact ⟨entry.decl, declared, by rw [pendingOf?, signed, Option.map_some]⟩

/-- The names of functions are taken neither by an import nor by each other. -/
structure Unmixed (setup : Setting) (program : Program) (mod : Module Lowering.Body) : Prop where
  undeclared : ∀ decl ∈ program.functions,
    (program.imports.foldl (declareImport setup) (beginWith mod)).isDeclared decl.name.name = false
  distinct : (namesOf program.functions).Nodup

theorem declareAll_eq (unmixed : Unmixed setup program mod) : declareAll setup program mod =
      (program.imports.foldl (declareImport setup) (beginWith mod)).enterAll setup
        program.functions :=
  foldl_declareFunction_eq unmixed.undeclared unmixed.distinct

/-- How reaching all functions ends. -/
theorem exportEnds_declareAll (created : newModule config = .ok mod)
    (unmixed : Unmixed setup program mod) : ExportEnds setup (declareAll setup program mod)
      (program.functions.filter exported)
      ((program.functions.filter exported).foldlM (exportFunction setup)
        (declareAll setup program mod)) := by
  obtain ⟨admitted, mistakes, admits⟩ :=
    exists_admitted_of_newModule setup created program.imports
  have names : (namesOf (program.functions.filter exported)).Nodup :=
    unmixed.distinct.sublist (filter_sublist.map _)
  have tables := tables_declareAll setup program created
  refine (exported_nil tables.distinct tables.noFunctions).exportAll names ?_
  · rw [declareAll_eq unmixed]
    intro decl mem
    have undeclared := unmixed.undeclared decl (mem_of_mem_filter mem)
    unfold Progress.isDeclared at undeclared
    rw [Option.isSome_eq_false_iff, Option.isNone_iff_eq_none, admits.signatures_eq,
      lookup_eq_none_iff, forall_mem_map] at undeclared
    have absent : (admitted.mapIdx fun pos other =>
        (other.name.name, FunctionRef.imported pos)).lookup decl.name.name = none := by
      rw [lookup_mapIdx fun other : ImportDecl => other.name.name, Option.map_eq_none_iff,
        findIdx?_eq_none_iff]
      exact fun other isOther => BEq.comm.trans (by simpa using undeclared other isOther)
    rw [← admits.functions_eq] at absent
    exact absent

/-- Everything in a program is declared, without mistakes. -/
structure Ready (setup : Setting) (program : Program) (base : Progress) : Prop where
  tables : Tables program base
  distinct : (namesOf program.functions).Nodup
  declared : ∀ decl ∈ program.functions, ∃ sig,
    declaredSignature? setup decl = some sig
  signatures_eq : base.signatures = signatureTable setup program
  functions_eq : base.functions =
    program.imports.mapIdx fun pos decl => (decl.name.name, .imported pos)
  pending_eq : base.pending = program.functions.filterMap (pendingOf? setup)
  imports : List.Forall₂ (ImportedAs setup base.mod.types) program.imports base.mod.imports
  mapped_eq : base.mod.mapped = program.imports.mapIdx mappedImport
  exports : ∀ entry ∈ base.mod.exports, entry.target = .memory ∨ entry.target = .global 0
  start_eq : base.mod.start? = none
  sourceMap_eq : base.mod.sourceMap? = some (.empty setup.config.sourceName)
  embed_eq : base.mod.embedSourceMap = setup.config.sourceMap
  memory : base.mod.memory?.isSome = true
  stackPointer : ∃ top, base.mod.globals = [{ isMutable := true, initial := .i32 top }]

/-- If no mistakes are noted, everything is declared. -/
theorem ready_declareAll (setup : Setting) (created : newModule setup.config = .ok mod)
    (faultless : (declareAll setup program mod).errors.totalErrors = 0) :
    Unmixed setup program mod ∧ Ready setup program (declareAll setup program mod) := by
  obtain ⟨memory, top, exports, offered, mod_eq⟩ := newModule_eq created
  obtain ⟨admitted, mistakes, admits⟩ :=
    exists_admitted_of_newModule setup created program.imports
  obtain ⟨before, undeclared, distinct, clean⟩ := faultless_of_foldl_declareFunction faultless
  have unmixed : Unmixed setup program mod := ⟨undeclared, distinct⟩
  rw [admits.errors_eq, Diagnostic.Batch.totalErrors_pushErrors] at before
  have none : mistakes = [] := length_eq_zero_iff.mp (Nat.add_eq_zero_iff.mp before).2
  obtain rfl := admits.all none
  refine ⟨unmixed, ?_⟩
  have tables := tables_declareAll setup program created
  rw [declareAll_eq unmixed] at tables ⊢
  constructor
  · exact tables
  · exact distinct
  · exact fun decl declared => declaredSignature?_isSome (clean decl declared)
  · exact congrArg (· ++ _) admits.signatures_eq
  · exact admits.functions_eq
  · exact congrArg (· ++ _) admits.pending_eq
  · exact admits.imports_eq
  · exact admits.mapped_eq
  · rw [show (Progress.enterAll _ _ _).mod.exports = mod.exports from admits.exports_eq, mod_eq]
    exact offered
  · refine admits.rest.start_eq.trans ?_
    rw [mod_eq]
    rfl
  · refine admits.rest.sourceMap_eq.trans ?_
    rw [mod_eq]
  · refine admits.rest.embedSourceMap_eq.trans ?_
    rw [mod_eq]
    rfl
  · rw [show (Progress.enterAll _ _ _).mod.memory? = mod.memory? from admits.rest.memory_eq, mod_eq]
    rfl
  · rw [show (Progress.enterAll _ _ _).mod.globals =
      mod.globals from admits.rest.globals_eq, mod_eq]
    exact ⟨top, rfl⟩

end Declared

/-! ## What is reached -/

namespace Ready

variable {setup : Setting} {program : Program} {base : Progress}

theorem mem_pending_iff (ready : Ready setup program base) {entry : Pending} :
    entry ∈ base.pending ↔ entry.decl ∈ program.functions ∧
      declaredSignature? setup entry.decl = some entry.signature := by
  rw [ready.pending_eq, mem_filterMap_pendingOf?]

theorem signed (ready : Ready setup program base) (name : String) :
    base.signatures.lookup name ≠ some none := by
  intro found
  rw [ready.signatures_eq] at found
  have listed := Lowering.mem_of_lookup found
  rcases mem_append.mp listed with isImport | isFunction
  · obtain ⟨decl, mem, same⟩ := mem_map.mp isImport
    obtain ⟨entry, -, -, -, sig, known, -⟩ := exists_of_forall₂ ready.imports.flip mem
    rw [known] at same
    cases same
  · obtain ⟨decl, mem, same⟩ := mem_map.mp isFunction
    obtain ⟨sig, known⟩ := ready.declared decl mem
    rw [known] at same
    cases same

end Ready

section Reached

variable {setup : Setting} {program : Program} {base prog : Progress} {book : Book}
variable {pending : List Pending}

variable (ledger : Ledger setup base book pending [] prog)
include ledger

theorem Ledger.faultless (noErrors : prog.errors.totalErrors = 0) : book.refusals = [] ∧
      ∀ entry ∈ book.started, mistakesOf (outcomeOf setup base entry).body = [] := by
  obtain ⟨noted, errors_eq, perm⟩ := ledger.errors
  rw [errors_eq, Diagnostic.Batch.totalErrors_pushErrors, Nat.add_eq_zero_iff,
    length_eq_zero_iff] at noErrors
  rw [noErrors.2, nil_perm, append_eq_nil_iff, flatMap_eq_nil_iff] at perm
  exact ⟨perm.1, fun entry mem => perm.2 entry (ledger.finished_perm.symm.subset mem)⟩

theorem Ledger.lowered (ready : Ready setup program base)
    (noErrors : prog.errors.totalErrors = 0) (isStarted : entry ∈ book.started) :
    ∃ body, (outcomeOf setup base entry).body = .ok body := by
  cases lowered : (outcomeOf setup base entry).body with
  | ok body => exact ⟨body, rfl⟩
  | error fault =>
    have userFacing := ledger.harmless entry (ledger.finished_perm.symm.subset isStarted) fault
      lowered
    obtain ⟨errors, rfl⟩ := semantic_of_outcome lowered userFacing
    have none := (ledger.faultless noErrors).2 entry isStarted
    rw [lowered] at none
    rcases Lowering.loud_of_lowerFunction lowered with loud | ⟨-, name, -, faulty⟩
    · exact absurd none loud
    · exact absurd faulty (ready.signed name)

/-- The functions that were started are those that are reached in the text. -/
theorem Ledger.mem_started_iff_reaches (ready : Ready setup program base)
    (noErrors : prog.errors.totalErrors = 0)
    (roots_eq : book.roots = namesOf (program.functions.filter exported))
    (decl : FunctionDecl) : decl ∈ book.started.map Pending.decl ↔ program.Reaches decl := by
  constructor
  · intro mem
    obtain ⟨entry, isStarted, rfl⟩ := mem_map.mp mem
    have reachable := (ledger.mem_started_iff entry).mp isStarted
    clear isStarted mem
    induction reachable with
    | @root entry waits isRoot =>
      obtain ⟨declared, -⟩ := ready.mem_pending_iff.mp waits
      rw [roots_eq] at isRoot
      obtain ⟨other, isOther, same⟩ := mem_map.mp isRoot
      obtain ⟨otherDeclared, isExported⟩ := mem_filter.mp isOther
      obtain rfl := inj_on_of_nodup_map ready.distinct otherDeclared declared same
      exact .exported declared isExported
    | @called caller entry reachable waits asked ih =>
      obtain ⟨declared, -⟩ := ready.mem_pending_iff.mp waits
      obtain ⟨body, lowered⟩ := ledger.lowered ready noErrors
        ((ledger.mem_started_iff caller).mpr reachable)
      rw [show (outcomeOf setup base caller).requests = _ from
        Lowering.requests_of_lowerFunction lowered] at asked
      exact .called ih declared asked
  · intro reaches
    induction reaches with
    | @exported decl declared isExported =>
      obtain ⟨sig, signed⟩ := ready.declared decl declared
      refine mem_map.mpr ⟨⟨decl, sig⟩, ?_, rfl⟩
      refine ledger.started_of_settled (ready.mem_pending_iff.mpr ⟨declared, signed⟩) (.inl ?_)
      rw [roots_eq]
      exact mem_map_of_mem (mem_filter.mpr ⟨declared, isExported⟩)
    | @called caller decl reaches declared calls ih =>
      obtain ⟨entry, isStarted, rfl⟩ := mem_map.mp ih
      obtain ⟨sig, signed⟩ := ready.declared decl declared
      obtain ⟨body, lowered⟩ := ledger.lowered ready noErrors isStarted
      refine mem_map.mpr ⟨⟨decl, sig⟩, ?_, rfl⟩
      refine ledger.started_of_settled (ready.mem_pending_iff.mpr ⟨declared, signed⟩)
        (.inr ⟨entry, isStarted, ?_⟩)
      rw [show (outcomeOf setup base entry).requests = _ from
        Lowering.requests_of_lowerFunction lowered]
      exact calls

end Reached

/-! ## What is assembled -/

/-- A module holds some functions of a program after the imports. -/
structure Assembled (setup : Setting) (program : Program) (emitted : List FunctionDecl)
    (prog : Progress) : Prop where
  distinct : (namesOf emitted).Nodup
  reached : ∀ decl, decl ∈ emitted ↔ program.Reaches decl
  signatures_eq : prog.signatures = signatureTable setup program
  signed : ∀ decl ∈ emitted,
    prog.signatures.lookup decl.name.name = some (declaredSignature? setup decl)
  index_eq : prog.mod.Countable → functionIndex prog = callIndex program emitted
  imports : List.Forall₂ (ImportedAs setup prog.mod.types) program.imports
    prog.mod.imports
  functions : List.Forall₂
    (fun decl function => ∃ sig body, Lowers setup program decl sig body ∧
      prog.mod.types[function.typeIndex]? = some sig.wasmType ∧
      function.body? = some body ∧ function.name = decl.name.name)
    emitted prog.mod.functions
  exports : ∃ others own, prog.mod.exports = others ++ own ∧
    (∀ entry ∈ others, entry.target = .memory ∨ entry.target = .global 0) ∧
    List.Forall₂
      (fun decl entry => entry.name = decl.name.name ∧ ∃ pos : Nat,
        emitted[pos]? = some decl ∧ entry.target = .function (.defined pos))
      (program.functions.filter FunctionDecl.exported) own
  start_eq : prog.mod.start? = none
  mapped_eq : prog.mod.mapped =
    program.imports.mapIdx mappedImport ++ emitted.mapIdx mappedFunction
  sourceMap_eq : prog.mod.sourceMap? = some (.empty setup.config.sourceName)
  embed_eq : prog.mod.embedSourceMap = setup.config.sourceMap
  memory : prog.mod.memory?.isSome = true
  stackPointer : ∃ top, prog.mod.globals = [{ isMutable := true, initial := .i32 top }]

section Assembled

variable {setup : Setting} {program : Program} {base prog : Progress} {book : Book}
variable {pending : List Pending}

/-- Functions are found under the indices of their names. -/
theorem Ledger.functionIndex_eq (ledger : Ledger setup base book pending [] prog)
    (ready : Ready setup program base) (few : prog.mod.Countable) :
    functionIndex prog = callIndex program (book.started.map Pending.decl) := by
  funext name
  have length_eq : prog.mod.imports.length = program.imports.length := by
    rw [ledger.imports_eq, ready.imports.length_eq]
  have found : prog.functions.lookup name =
      ((program.imports.findIdx? fun decl => decl.name.name == name).map FunctionRef.imported).or
        ((book.started.findIdx? fun entry => entry.name == name).map FunctionRef.defined) := by
    rw [ledger.functions_eq, ready.functions_eq, lookup_append,
      lookup_mapIdx fun decl : ImportDecl => decl.name.name, lookup_mapIdx]
  have index : (program.imports.map (fun decl => decl.name.name) ++
      namesOf (book.started.map Pending.decl)).idxOf? name =
      (program.imports.findIdx? fun decl => decl.name.name == name).or
        ((book.started.findIdx? fun entry => entry.name == name).map
          (· + program.imports.length)) := by
    rw [namesOf, map_map, List.idxOf?, findIdx?_append, findIdx?_map, findIdx?_map, length_map]
    rfl
  have numbered : prog.mod.cells = prog.mod.numbered := by
    rw [Module.cells, Module.linearize_eq few]
  rw [functionIndex, numbered, indexIn, callIndex, found, index]
  cases imported : program.imports.findIdx? fun decl => decl.name.name == name with
  | some pos =>
    have inside := length_eq ▸ (findIdx?_eq_some_iff_getElem.mp imported).1
    exact Module.read_function.mpr ⟨Module.imported_mem_references.mpr inside, rfl⟩
  | none =>
    cases defined : book.started.findIdx? fun entry => entry.name == name with
    | none => rfl
    | some pos =>
      have inside := ledger.bodies.length_eq ▸ (findIdx?_eq_some_iff_getElem.mp defined).1
      refine Module.read_function.mpr ⟨Module.defined_mem_references.mpr inside, ?_⟩
      rw [Module.functionIndex, length_eq, Nat.add_comm]

theorem Ledger.exportOf?_eq (ledger : Ledger setup base book pending [] prog)
    (isStarted : entry ∈ book.started) :
    ∃ pos : Nat, (book.started.map Pending.decl)[pos]? = some entry.decl ∧
      exportOf? book.started entry.name =
        some { name := entry.name, target := .function (.defined pos) } := by
  have mem : (book.started.findIdx? fun other => other.name == entry.name).isSome := by
    rw [findIdx?_isSome, any_eq_true]
    exact ⟨entry, isStarted, beq_self_eq_true _⟩
  obtain ⟨pos, found⟩ := Option.isSome_iff_exists.mp mem
  obtain ⟨inside, same, -⟩ := findIdx?_eq_some_iff_getElem.mp found
  obtain here := inj_on_of_nodup_map ledger.nodup_started (getElem_mem inside) isStarted
    (beq_iff_eq.mp same)
  refine ⟨pos, ?_, by rw [exportOf?, found, Option.map_some]⟩
  rw [getElem?_map, getElem?_eq_getElem inside, here, Option.map_some]

theorem forall₂_filterMap_exportOf? (offered : ∀ decl ∈ decls, ∃ pos : Nat,
      (started.map Pending.decl)[pos]? = some decl ∧ exportOf? started decl.name.name =
        some { name := decl.name.name, target := .function (.defined pos) }) :
    List.Forall₂ (fun decl entry => entry.name = decl.name.name ∧ ∃ pos : Nat,
        (started.map Pending.decl)[pos]? = some decl ∧ entry.target = .function (.defined pos))
      decls ((namesOf decls).filterMap (exportOf? started)) := by
  induction decls with
  | nil => exact .nil
  | cons decl decls ih =>
    rw [forall_mem_cons] at offered
    obtain ⟨pos, placed, isOffered⟩ := offered.1
    rw [namesOf, map_cons, filterMap_cons, isOffered]
    exact .cons ⟨rfl, pos, placed, rfl⟩ (ih offered.2)

/-- A compilation without mistakes has the functions that are reached. -/
theorem Exported.assembled (exported : Exported setup base (program.functions.filter exported) prog)
    (ready : Ready setup program base) (noErrors : prog.errors.totalErrors = 0) :
    ∃ emitted, Assembled setup program emitted prog := by
  obtain ⟨started, finished, ledger⟩ := exported
  have unrefused : ∀ decl ∈ program.functions.filter exported,
      base.mod.hasExport decl.name.name = false := by
    have none := (ledger.faultless noErrors).1
    dsimp only at none
    rw [refusalsOf, map_eq_nil_iff, filter_eq_nil_iff] at none
    exact fun decl mem => Bool.eq_false_iff.mpr (none decl mem)
  have roots_eq : rootsOf base (program.functions.filter exported) =
      namesOf (program.functions.filter exported) := by
    rw [rootsOf, filter_eq_self]
    intro name mem
    obtain ⟨decl, isDecl, rfl⟩ := mem_map.mp mem
    rw [unrefused decl isDecl]
    rfl
  have reached := ledger.mem_started_iff_reaches ready noErrors roots_eq
  refine ⟨started.map Pending.decl, ?_⟩
  constructor
  · rw [namesOf, map_map]
    exact ledger.nodup_started
  · exact reached
  · rw [ledger.signatures_eq, ready.signatures_eq]
  · intro decl mem
    obtain ⟨entry, isStarted, rfl⟩ := mem_map.mp mem
    have waits := ledger.split.subset (mem_append_left _ isStarted)
    rw [ledger.signatures_eq, (ready.mem_pending_iff.mp waits).2]
    exact (ready.tables.declared entry waits).2
  · exact ledger.functionIndex_eq ready
  · rw [ledger.imports_eq]
    exact ready.imports.imp fun _ _ imported => imported.mono ledger.types
  · rw [forall₂_map_left_iff]
    refine forall₂_iff_getElem?.mpr ⟨ledger.bodies.length_eq, ?_⟩
    intro pos entry function isStarted present
    have mem := mem_of_getElem? isStarted
    obtain ⟨body, lowered⟩ := ledger.lowered ready noErrors mem
    have waits := ledger.split.subset (mem_append_left _ mem)
    obtain ⟨typed, name_eq, body_eq⟩ := ledger.bodies_of_finished isStarted present
    refine ⟨entry.signature, body, ⟨(ready.mem_pending_iff.mp waits).2, ?_⟩, typed, ?_, name_eq⟩
    · rw [← ready.signatures_eq]
      exact lowered
    · rw [body_eq, lowered]
      rfl
  · refine ⟨base.mod.exports, _, ledger.exports_eq, ready.exports, ?_⟩
    dsimp only
    rw [roots_eq]
    have offered : ∀ decl ∈ program.functions.filter exported, ∃ pos : Nat,
        (started.map Pending.decl)[pos]? = some decl ∧ exportOf? started decl.name.name =
          some { name := decl.name.name, target := .function (.defined pos) } := by
      intro decl mem
      obtain ⟨declared, isExported⟩ := mem_filter.mp mem
      obtain ⟨entry, isStarted, rfl⟩ :=
        mem_map.mp ((reached decl).mpr (.exported declared isExported))
      exact ledger.exportOf?_eq isStarted
    exact forall₂_filterMap_exportOf? offered
  · rw [ledger.rest.start_eq, ready.start_eq]
  · rw [ledger.mapped_eq, ready.mapped_eq]
  · rw [ledger.rest.sourceMap_eq, ready.sourceMap_eq]
  · rw [ledger.rest.embedSourceMap_eq, ready.embed_eq]
  · rw [ledger.rest.memory_eq, ready.memory]
  · rw [ledger.rest.globals_eq]
    exact ready.stackPointer

/-- All that an assembled module refers to is in it. -/
theorem Assembled.closed (assembled : Assembled setup program emitted prog) : prog.mod.Closed where
  exports := by
    obtain ⟨others, own, exports_eq, fixed, exports⟩ := assembled.exports
    obtain ⟨top, pointer⟩ := assembled.stackPointer
    rw [exports_eq]
    intro entry mem
    rcases mem_append.mp mem with mem | mem
    · rcases fixed entry mem with target | target
      · rw [target, ExportTarget.write, Module.read_memory.mpr ⟨assembled.memory, rfl⟩]
        exact ⟨_, rfl⟩
      · have inside : 0 < prog.mod.globals.length := by
          rw [pointer]
          exact Nat.one_pos
        rw [target, ExportTarget.write, Module.read_global.mpr ⟨inside, rfl⟩]
        exact ⟨_, rfl⟩
    · obtain ⟨decl, -, -, pos, placed, target⟩ := exists_of_forall₂ exports mem
      have inside := assembled.functions.length_eq ▸ (List.getElem?_eq_some_iff.mp placed).1
      rw [target, ExportTarget.write,
        Module.read_function.mpr ⟨Module.defined_mem_references.mpr inside, rfl⟩]
      exact ⟨_, rfl⟩
  start := by
    rw [assembled.start_eq]
    rintro _ ⟨⟩
  mapped := by
    rw [assembled.mapped_eq, forall_mem_append]
    constructor
    · intro entry mem
      obtain ⟨pos, inside, rfl⟩ := mem_mapIdx.mp mem
      exact Module.imported_mem_references.mpr (assembled.imports.length_eq ▸ inside)
    · intro entry mem
      obtain ⟨pos, inside, rfl⟩ := mem_mapIdx.mp mem
      exact Module.defined_mem_references.mpr (assembled.functions.length_eq ▸ inside)

end Assembled

section

variable {config : Config} {program : Program} {prog : Progress} {compiled : Compiled}

theorem assembled_of_assemble (assembles : assemble config program = .ok prog) :
    ∃ layouts emitted, Layouts.build config.sourceName program.structs = .ok layouts ∧
      Assembled { config, layouts } program emitted prog := by
  obtain ⟨layouts, mod, built, created, exports, noErrors⟩ := exports_of_assemble assembles
  have books : Books { config, layouts } _ _ :=
    (tables_declareAll { config, layouts } program created).books
      (program.functions.filter exported)
  rw [exports] at books
  obtain ⟨book, ledger⟩ := books
  obtain ⟨noted, errors_eq, -⟩ := ledger.errors
  -- Errors are not forgotten.
  have faultless : (declareAll { config, layouts } program mod).errors.totalErrors = 0 := by
    rw [errors_eq, Diagnostic.Batch.totalErrors_pushErrors] at noErrors
    exact (Nat.add_eq_zero_iff.mp noErrors).1
  obtain ⟨unmixed, ready⟩ := ready_declareAll { config, layouts } created faultless
  have ends := exportEnds_declareAll created unmixed
  rw [exports] at ends
  obtain ⟨emitted, assembled⟩ := Exported.assembled ends ready noErrors
  exact ⟨layouts, emitted, built, assembled⟩

/-- What is written of a module can be read back. -/
theorem Assembled.emits (assembled : Assembled setup program emitted prog)
    (written : write config prog = .ok compiled) :
    ∃ contents, Contents.read? compiled.binary = some contents ∧
      Emits setup program emitted contents := by
  obtain ⟨few, -, code, holds, read⟩ := read?_of_write written
  refine ⟨_, read, ?_⟩
  rw [assembled.index_eq few] at holds
  constructor
  · exact assembled.imports
  · change (prog.mod.functions.map _).length = code.length
    rw [length_map, holds.length_eq]
  · obtain ⟨length_eq, functions⟩ := forall₂_iff_getElem?.mp assembled.functions
    obtain ⟨lengthToo, bodies⟩ := forall₂_iff_getElem?.mp holds
    refine forall₂_iff_getElem?.mpr ⟨?_, ?_⟩
    · change _ = ((prog.mod.functions.map Function.typeIndex).zip code).length
      rw [length_zip, length_map, ← lengthToo, Nat.min_self, length_eq]
    · intro pos decl place isEmitted present
      change ((prog.mod.functions.map Function.typeIndex).zip code)[pos]? = _ at present
      rw [getElem?_zip_eq_some, getElem?_map, Option.map_eq_some_iff] at present
      obtain ⟨⟨function, isFunction, index_eq⟩, isCode⟩ := present
      obtain ⟨sig, body, lowers, typed, body_eq, -⟩ :=
        functions pos decl function isEmitted isFunction
      obtain ⟨data, content_eq, holdsCode⟩ := bodies pos function _ isFunction isCode
      obtain rfl : body = data := Option.some.inj (body_eq.symm.trans content_eq)
      exact ⟨sig, body, lowers, index_eq ▸ typed, holdsCode⟩
  · obtain ⟨others, own, exports_eq, fixed, exports⟩ := assembled.exports
    have length_eq := assembled.imports.length_eq
    change List.Forall₂ _ _ ((prog.mod.exports.map _).filter _)
    rw [exports_eq, map_append, filter_append]
    have noneOf : (others.map fun entry => (entry.name, prog.mod.exported entry.target)).filter
        (fun entry => entry.2.1 = .function) = [] := by
      rw [filter_eq_nil_iff, forall_mem_map]
      intro entry mem
      rcases fixed entry mem with target | target <;> simp [target, Module.exported]
    have allOf : (own.map fun entry => (entry.name, prog.mod.exported entry.target)).filter
        (fun entry => entry.2.1 = .function) =
        own.map fun entry => (entry.name, prog.mod.exported entry.target) := by
      rw [filter_eq_self, forall_mem_map]
      intro entry mem
      obtain ⟨decl, -, -, pos, -, target⟩ := exists_of_forall₂ exports mem
      simp [target, Module.exported]
    rw [noneOf, allOf, nil_append, forall₂_map_right_iff]
    refine exports.imp fun decl entry => ?_
    rintro ⟨name_eq, pos, placed, target⟩
    refine ⟨name_eq, pos, placed, ?_⟩
    rw [target, Module.exported, Module.functionIndex, length_eq]

/-- The functions of the module of an accepted program are those that are reached from the
exported ones, each once; and the exported ones are exported. -/
theorem emits_reached_of_compile
    (compiles : compile config program = .ok compiled) :
    ∃ layouts emitted contents, Layouts.build config.sourceName program.structs = .ok layouts ∧
      (namesOf emitted).Nodup ∧ (∀ decl, decl ∈ emitted ↔ program.Reaches decl) ∧
      Contents.read? compiled.binary = some contents ∧
      Emits { config, layouts } program emitted contents := by
  rw [compile_eq_assemble_bind_write] at compiles
  obtain ⟨progress, assembles, written⟩ := bind_eq_ok.mp compiles
  obtain ⟨layouts, emitted, built, assembled⟩ := assembled_of_assemble assembles
  obtain ⟨contents, read, emits⟩ := assembled.emits written
  exact ⟨layouts, emitted, contents, built, assembled.distinct, assembled.reached, read, emits⟩

end

/-- The exported function comes with the one that it calls. -/
theorem emits_reached_boxProgram :
    ∃ compiled layouts emitted contents, compile unmapped boxProgram = .ok compiled ∧
      Contents.read? compiled.binary = some contents ∧ (namesOf emitted).Nodup ∧
      passesBox ∈ emitted ∧ readsFlag ∈ emitted ∧
      Emits { config := unmapped, layouts } boxProgram emitted contents := by
  obtain ⟨-, compiled, -, -, compiles⟩ := compile_boxProgram
  obtain ⟨layouts, emitted, contents, -, distinct, reached, read, emits⟩ :=
    emits_reached_of_compile compiles
  have starts : boxProgram.Reaches passesBox := .exported (by simp [boxProgram]) rfl
  have flag : boxProgram.Reaches readsFlag :=
    .called starts (by simp [boxProgram]) (by decide +kernel)
  exact ⟨compiled, layouts, emitted, contents, compiles, read, distinct,
    (reached passesBox).mpr starts, (reached readsFlag).mpr flag, emits⟩

end Compile
end StructWasm

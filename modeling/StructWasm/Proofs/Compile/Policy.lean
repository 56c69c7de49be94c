import StructWasm.Proofs.Compile.Validity

/-!
# Both policies on freed slots compile alike

Lowering never frees a slot without bytes, so the strict policy forbids nothing that it
does, and the binary of a body does not depend on the policy of its frame.
-/

namespace StructWasm

open List

namespace Lowering

/-! ## Steps -/

/-- The same state with its frame under the lenient policy. -/
def Workspace.eased (work : Workspace) : Workspace :=
  work.aside work.frame.eased work.requests

variable {α β : Type} {step : Emit α} {rest : α → Emit β}

theorem Emit.Basic.eases (basic : step.Basic) (ctx : Context) (work : Workspace) :
    step ctx work.eased = mapState Workspace.eased (step ctx work) := by
  have kept : step ctx work = mapState (Workspace.aside work.frame work.requests)
      (step ctx work) := basic.apart ctx work work.frame work.requests
  rw [Workspace.eased, basic.apart]
  cases out : step ctx work with
  | ok value next =>
    rw [out] at kept
    injection kept with _ next_eq
    rw [next_eq]
    rfl
  | error fault next =>
    rw [out] at kept
    injection kept with _ next_eq
    rw [next_eq]
    rfl

theorem bind_apply_ok {ctx : Context} {work mid : Workspace} {value : α}
    (ends : step ctx work = .ok value mid) : (step >>= rest) ctx work = rest value ctx mid := by
  change EStateM.bind (step ctx) (fun value => rest value ctx) work = _
  rw [EStateM.bind, ends]

theorem bind_apply_error {ctx : Context} {work next : Workspace} {fault : Fault}
    (stops : step ctx work = .error fault next) : (step >>= rest) ctx work = .error fault next := by
  change EStateM.bind (step ctx) (fun value => rest value ctx) work = _
  rw [EStateM.bind, stops]

/-- A step that is made of basic steps does the same under both policies, unless the strict
one forbids it. -/
theorem Composed.eases {asked : List String} (composed : Composed asked step) (ctx : Context)
    (work : Workspace) : (∃ id reason, Stops step ctx work (.frame (.strictFree id reason))) ∨
      step ctx work.eased = mapState Workspace.eased (step ctx work) := by
  induction composed generalizing work with
  | basic basic => exact .inr (basic.eases ctx work)
  | bind _ _ firstHypothesis secondHypothesis =>
    rcases firstHypothesis work with ⟨id, reason, stops⟩ | same
    · exact .inl ⟨id, reason, stops.first⟩
    rename_i step rest _ _ _ _
    cases out : step ctx work with
    | error fault next =>
      rw [out] at same
      exact .inr (by rw [bind_apply_error same, bind_apply_error out, mapState])
    | ok value mid =>
      rw [out] at same
      refine (secondHypothesis value ⟨_, _, _, out⟩ mid).imp ?_ fun sameToo => ?_
      · rintro ⟨id, reason, stops⟩
        exact ⟨id, reason, stops_after out stops⟩
      · rw [bind_apply_ok same, bind_apply_ok out, sameToo]
  | look blind _ ih =>
    rcases ih work work with ⟨id, reason, stops⟩ | same
    · exact .inl ⟨id, reason, stops⟩
    · refine .inr ?_
      rw [get_bind_apply, get_bind_apply, ← same, Workspace.eased, blind]
  | @onFrame _ step eases =>
    rcases eases work.frame with ⟨id, reason, refused⟩ | same
    · exact .inl ⟨id, reason, stops_onFrame.mpr ⟨_, refused, rfl⟩⟩
    · refine .inr ?_
      unfold Lowering.onFrame
      rw [get_bind_apply, get_bind_apply, show work.eased.frame = work.frame.eased from rfl, same]
      cases step work.frame <;> rfl
  | request name argumentCount =>
    refine .inr ?_
    unfold requestCallee
    rw [read_bind_apply, read_bind_apply]
    cases ctx.signature? name.name with
    | none => rfl
    | some signature? =>
      cases signature? with
      | none => rfl
      | some sig =>
        by_cases enough : argumentCount = sig.params.length
        · simp only [if_pos enough]
          rfl
        · simp only [if_neg enough]
          rfl

/-! ## Functions -/

/-- The same body with its frame under the lenient policy. -/
def Body.eased (body : Body) : Body :=
  { body with frame := body.frame.eased }

theorem encode_eased (body : Body) (functionIndex : String → Except Fault Nat)
    (globalIndex : GlobalName → Nat) :
    body.eased.encode functionIndex globalIndex = body.encode functionIndex globalIndex := by
  have same : body.eased.resolver functionIndex globalIndex =
      body.resolver functionIndex globalIndex := by
    unfold Body.resolver
    congr 1
  rw [Body.encode, same]
  rfl

variable {ctx : Context} {work : Workspace} {decl : FunctionDecl} {sig : Signature}

theorem lowerDeclaration_eased (aligned : ctx.layouts.Aligned) (proper : work.frame.Proper) :
    (∃ body next, lowerDeclaration decl sig ctx work = .ok body next ∧
        lowerDeclaration decl sig ctx work.eased = .ok body.eased next.eased) ∨
      ∃ fault next, lowerDeclaration decl sig ctx work = .error fault next ∧
        lowerDeclaration decl sig ctx work.eased = .error fault next.eased := by
  rcases (composed_lowerParts decl sig).eases ctx work with ⟨id, reason, stops⟩ | same
  · have refused : Stops (lowerDeclaration decl sig) ctx work
        (FrameFault.refused (.strictFree id reason)).fault := by
      rw [lowerDeclaration_eq]
      exact stops.first
    rcases clashes_of_stops aligned proper refused with impossible | clashes
    · cases impossible
    · obtain ⟨cause, isMisfit, stopsToo⟩ := clashes.stops aligned proper
      cases Stops.unique refused stopsToo
      exact isMisfit.elim
  rw [lowerDeclaration_eq]
  cases out : lowerParts decl sig ctx work with
  | error fault next =>
    rw [out] at same
    exact .inr ⟨fault, next, bind_apply_error out, bind_apply_error same⟩
  | ok parts mid =>
    rw [out] at same
    rw [bind_apply_ok out, bind_apply_ok same, closeParts_apply, closeParts_apply,
      show mid.eased.frame = mid.frame.eased from rfl,
      show mid.eased.locals = mid.locals from rfl, Frame.Allocator.resolve_eased]
    cases mid.frame.resolve.2 with
    | error cause => exact .inr ⟨_, _, rfl, rfl⟩
    | ok _ =>
      cases mid.locals.finish with
      | error fault => exact .inr ⟨_, _, rfl, rfl⟩
      | ok finished => exact .inl ⟨_, _, rfl, rfl⟩

/-- What came of lowering, with the frame of the body under the lenient policy. -/
def Outcome.eased (outcome : Outcome) : Outcome :=
  { outcome with body := outcome.body.map Body.eased }

/-- A function is lowered alike under both policies. -/
theorem lowerFunction_eased (config : Config) {layouts : Layouts} (aligned : layouts.Aligned)
    (signatures : List (String × Option Signature)) (decl : FunctionDecl) (sig : Signature) :
    lowerFunction { config with freePolicy := .lenient } layouts signatures decl sig =
      (lowerFunction config layouts signatures decl sig).eased := by
  unfold lowerFunction
  cases (LocalPool.new sig.wasmType.params).allocate .i32 with
  | error fault => rfl
  | ok found =>
    obtain ⟨locals, framePointer⟩ := found
    dsimp only
    have lowered := @lowerDeclaration_eased
      { file := config.sourceName, layouts, signature? := (signatures.lookup ·), framePointer
        result := resultPlan sig.result }
      { locals, frame := .new config.freePolicy config.stackAlignment.toNat, arena := .empty
        scopes := [[]], requests := [] } decl sig aligned (.new _ _)
    rcases lowered with ⟨body, next, lowers, eases⟩ | ⟨fault, next, lowers, eases⟩ <;>
    · replace eases : lowerDeclaration decl sig _
          { locals, frame := .new .lenient config.stackAlignment.toNat, arena := .empty
            scopes := [[]], requests := [] } = _ := eases
      simp only [ReaderT.run, EStateM.run, lowers, eases]
      rfl

end Lowering

/-! ## Modules -/

namespace Compile

open Wasm Progress
open Lowering (Body)

/-- The same module with the frames of its bodies under the lenient policy. -/
def easedModule (mod : Module Body) : Module Body :=
  { mod with functions := mod.functions.map fun entry =>
      { entry with body? := entry.body?.map Body.eased } }

section

variable (mod : Module Body)
include mod

theorem registerType_eased (type : FuncType) : (easedModule mod).registerType type =
      (easedModule (mod.registerType type).1, (mod.registerType type).2) := by
  unfold Module.registerType
  rw [show (easedModule mod).positions = mod.positions from rfl]
  cases mod.positions.lookup type.encode <;> rfl

theorem createFunction_eased (name : String) (type : FuncType) :
    (easedModule mod).createFunction name type =
      (easedModule (mod.createFunction name type).1, (mod.createFunction name type).2) := by
  unfold Module.createFunction
  rw [registerType_eased]
  simp only [easedModule, map_append, length_map]
  rfl

theorem defineFunction_eased (function : FunctionRef) (data : Body) :
    (easedModule mod).defineFunction function data.eased =
      (mod.defineFunction function data).map easedModule := by
  cases function with
  | imported pos => rfl
  | defined pos =>
    simp only [Module.defineFunction, easedModule, getElem?_map]
    cases mod.functions[pos]? with
    | none => rfl
    | some entry =>
      by_cases isDefined : entry.body?.isSome
      · simp [isDefined, Except.map]
      · simp [isDefined, Except.map, easedModule, map_set]

theorem addExport_eased (name : String) (target : ExportTarget) :
    (easedModule mod).addExport name target = (mod.addExport name target).map easedModule := by
  unfold Module.addExport
  rw [show (easedModule mod).hasExport name = mod.hasExport name from rfl]
  split <;> rfl

theorem linearize_eased : (easedModule mod).linearize = mod.linearize := by
  have references_eq : (easedModule mod).references = mod.references := by
    simp [Module.references, easedModule]
  rw [Module.linearize, references_eq]
  rfl

theorem binary_eased {encodeBody : Body → Except Fault Bytes}
    (same : ∀ body, encodeBody body.eased = encodeBody body) :
    (easedModule mod).binary encodeBody = mod.binary encodeBody := by
  have encodes : ∀ entry : Function Body, Module.encodeFunction encodeBody
      { entry with body? := entry.body?.map Body.eased } =
      Module.encodeFunction encodeBody entry := by
    intro entry
    unfold Module.encodeFunction
    cases entry.body? with
    | none => rfl
    | some data => simp [same]
  have code (id : UInt8) (what : String) :
      listSection id what (Module.encodeFunction encodeBody) (easedModule mod).functions =
        listSection id what (Module.encodeFunction encodeBody) mod.functions := by
    simp [listSection, easedModule, mapM_map, Function.comp_def, encodes]
  have types (id : UInt8) (what : String) :
      listSection id what (fun entry : Function Body =>
          .ok (Leb128.encodeUnsigned entry.typeIndex)) (easedModule mod).functions =
        listSection id what (fun entry => .ok (Leb128.encodeUnsigned entry.typeIndex))
          mod.functions := by
    simp [listSection, easedModule, mapM_map, Function.comp_def]
  unfold Module.binary Module.sections
  rw [linearize_eased]
  simp only [code, types]
  rfl

end

/-! ## Compilations -/

/-- The same setting with the lenient policy. -/
def Setting.eased (setup : Setting) : Setting :=
  { setup with config := { setup.config with freePolicy := .lenient } }

/-- The same progress with the frames of its bodies under the lenient policy. -/
def Progress.eased (prog : Progress) : Progress :=
  { prog with mod := easedModule prog.mod }

theorem write_eased (config : Config) (prog : Progress) :
    write { config with freePolicy := .lenient } prog.eased = write config prog := by
  unfold write
  rw [show prog.eased.mod = easedModule prog.mod from rfl]
  have cells_eq : (easedModule prog.mod).cells = prog.mod.cells := by
    rw [Module.cells, linearize_eased]
    rfl
  dsimp only
  rw [cells_eq, show indexIn prog.mod.cells prog.eased = indexIn prog.mod.cells prog from rfl,
    binary_eased prog.mod fun body => Lowering.encode_eased body _ _, Module.completeSourceMap?,
    cells_eq]
  rfl

/-- The same task with the frame of its body under the lenient policy. -/
def Task.eased : Task → Task
  | .request name => .request name
  | .finish function body => .finish function (body.map Body.eased)

theorem define_eased (prog : Progress) (function : FunctionRef) (data : Body) :
    ((easedModule prog.mod).defineFunction function data.eased >>= fun mod =>
        pure { prog.eased with mod }) =
      (prog.mod.defineFunction function data >>= fun mod =>
        pure { prog with mod }).map eased := by
  rw [defineFunction_eased]
  cases prog.mod.defineFunction function data <;> rfl

theorem finish_eased (prog : Progress) (function : FunctionRef) (body : Except Fault Body) :
    prog.eased.finish function (body.map Body.eased) = (prog.finish function body).map eased := by
  cases body with
  | ok data => exact define_eased prog function data
  | error fault =>
    cases fault with
    | semantic errors =>
      exact define_eased { prog with errors := prog.errors.pushErrors errors } function .trap
    | diagnostics batch =>
      exact define_eased { prog with errors := prog.errors.extend batch } function .trap
    | _ => rfl

theorem start_eased (prog : Progress) (entry : Pending) :
    prog.eased.start entry = ((prog.start entry).1.eased, (prog.start entry).2) := by
  unfold start
  rw [show prog.eased.mod = easedModule prog.mod from rfl, createFunction_eased]
  rfl

variable {setup : Setting}

section

variable (aligned : setup.layouts.Aligned)
include aligned

/-- Working off tasks does the same under both policies. -/
theorem run_eased (pending : List Pending) (tasks : List Task) (prog : Progress) :
    run setup.eased pending (tasks.map Task.eased) prog.eased =
      (run setup pending tasks prog).map eased := by
  induction pending, tasks, prog using run.induct setup with
  | case1 pending prog =>
    rw [map_nil, run, run]
    rfl
  | case2 pending prog function body rest ih =>
    rw [map_cons, Task.eased, run, run, finish_eased]
    cases prog.finish function body with
    | error fault => rfl
    | ok next => exact ih next
  | case3 pending prog name rest notFound ih =>
    rw [map_cons, Task.eased, run_of_not_pending notFound, run_of_not_pending notFound, ih]
  | case4 pending prog name rest entry found out next function started =>
    rename_i ih
    rw [map_cons, Task.eased, run_of_pending found, run_of_pending found, start_eased, started]
    have lowered : Lowering.lowerFunction setup.eased.config setup.eased.layouts
        prog.eased.signatures entry.decl entry.signature = out.eased :=
      Lowering.lowerFunction_eased setup.config aligned _ _ _
    have tasks_eq : out.eased.requests.map Task.request ++
        .finish function out.eased.body :: rest.map Task.eased =
        (out.requests.map Task.request ++ .finish function out.body :: rest).map
          Task.eased := by
      simp [Task.eased, Lowering.Outcome.eased, Function.comp_def]
    dsimp only
    rw [lowered, tasks_eq]
    exact ih

theorem exportFunction_eased (prog : Progress) (decl : FunctionDecl) :
    exportFunction setup.eased prog.eased decl =
      (exportFunction setup prog decl).map eased := by
  unfold exportFunction
  have ran := run_eased aligned prog.pending [.request decl.name.name] prog
  by_cases taken : prog.mod.hasExport decl.name.name
  · rw [if_pos taken, if_pos (show prog.eased.mod.hasExport decl.name.name = true from taken)]
    rfl
  · rw [if_neg taken, if_neg (show ¬prog.eased.mod.hasExport decl.name.name = true from taken)]
    rw [show prog.eased.pending = prog.pending from rfl]
    change run setup.eased prog.pending ([Task.request decl.name.name].map Task.eased)
      prog.eased >>= _ = _
    rw [ran]
    cases run setup prog.pending [.request decl.name.name] prog with
    | error fault => rfl
    | ok next =>
      simp only [Except.map, bind, Except.bind, show next.eased.functions = next.functions from rfl]
      cases next.functions.lookup decl.name.name with
      | none => rfl
      | some function =>
        dsimp only
        rw [show next.eased.mod = easedModule next.mod from rfl, addExport_eased]
        cases next.mod.addExport decl.name.name (.function function) <;> rfl

theorem exportAll_eased (decls : List FunctionDecl) (prog : Progress) :
    decls.foldlM (exportFunction setup.eased) prog.eased =
      (decls.foldlM (exportFunction setup) prog).map eased := by
  induction decls generalizing prog with
  | nil => rfl
  | cons decl decls ih =>
    rw [foldlM_cons, foldlM_cons, exportFunction_eased aligned]
    cases exportFunction setup prog decl with
    | error fault => rfl
    | ok next => exact ih next

end

theorem declareAll_eased (setup : Setting) (program : Program) (mod : Module Body) :
    declareAll setup.eased program mod = declareAll setup program mod := by
  have types (notes : List TypeNote) : typesOf? setup.eased notes = typesOf? setup notes := by
    induction notes with
    | nil => rfl
    | cons written rest ih =>
      rw [typesOf?, typesOf?, ih]
      rfl
  have repeated (seen : List String) (params : List TypedName) :
      repeatedParams setup.eased seen params = repeatedParams setup seen params := by
    induction params generalizing seen with
    | nil => rfl
    | cons param rest ih =>
      rw [repeatedParams, repeatedParams, ih]
      rfl
  have imports : declareImport setup.eased = declareImport setup := by
    funext prog decl
    simp only [declareImport, resolveSignature_eq, signatureOf?, types]
    rfl
  have functions : declareFunction setup.eased = declareFunction setup := by
    funext prog decl
    simp only [declareFunction, resolveSignature_eq, noteDuplicateParams_eq, signatureOf?, types,
      repeated]
    rfl
  rw [declareAll, declareAll, imports, functions]

theorem assemble_eased (config : Config) (program : Program) :
    assemble { config with freePolicy := .lenient } program =
      (assemble config program).map eased := by
  unfold assemble
  dsimp only
  cases built : Layouts.build config.sourceName program.structs with
  | error errors => rfl
  | ok layouts =>
    have aligned := (Layouts.built_of_build built).aligned
    dsimp only
    rw [show newModule { config with freePolicy := .lenient } = newModule config from rfl]
    cases created : newModule config with
    | error fault => rfl
    | ok mod =>
      have unchanged : (declareAll { config, layouts } program mod).eased =
          declareAll { config, layouts } program mod := by
        have noFunctions := (tables_declareAll { config, layouts } program created).noFunctions
        unfold eased easedModule
        rw [noFunctions, map_nil, ← noFunctions]
      have exported := @exportAll_eased { config, layouts } aligned
        (program.functions.filter FunctionDecl.exported)
        (declareAll { config, layouts } program mod)
      rw [unchanged, ← declareAll_eased] at exported
      dsimp only [bind, Except.bind]
      rw [show ({ config := { config with freePolicy := .lenient }, layouts } : Setting) =
        Setting.eased { config, layouts } from rfl, exported, declareAll_eased]
      cases (program.functions.filter FunctionDecl.exported).foldlM
          (exportFunction { config, layouts }) (declareAll { config, layouts } program mod) with
      | error fault => rfl
      | ok prog =>
        change ite _ _ _ = Except.map _ (ite _ _ _)
        rw [show prog.eased.errors = prog.errors from rfl]
        split <;> rfl

/-- Compiling gives the same under both policies on freed slots. -/
theorem compile_under_policies (config : Config) (program : Program) :
    compile { config with freePolicy := .strict } program =
      compile { config with freePolicy := .lenient } program := by
  have eased := assemble_eased { config with freePolicy := .strict } program
  rw [compile_eq_assemble_bind_write, compile_eq_assemble_bind_write, eased]
  cases assemble { config with freePolicy := .strict } program with
  | error fault => rfl
  | ok progress => exact (write_eased _ progress).symm

end Compile
end StructWasm

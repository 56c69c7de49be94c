import StructWasm.Proofs.Compile.Declarations
import StructWasm.Proofs.Lowering.Callees

/-!
# Which functions are reached

A ledger of the functions that were started and finished, kept while functions are
reached. When nothing is left to do, the functions in the module are exactly those that
can be reached from the exported ones, each in the place where the ledger has it, and the
mistakes that were gathered are theirs. A compilation ends early only if one of the
functions that can be reached ends it.
-/

namespace StructWasm.Compile

open Wasm List Progress

/-- Nothing waits under a name. -/
def Reached (pending : List Pending) (name : String) : Prop :=
  ∀ entry ∈ pending, entry.name ≠ name

namespace Progress

/-- What comes of lowering a function at some moment. -/
def attempt (setup : Setting) (prog : Progress) (decl : FunctionDecl)
    (sig : Signature) : Lowering.Outcome :=
  Lowering.lowerFunction setup.config setup.layouts prog.signatures decl sig

section

variable {setup : Setting} {pending : List Pending} {rest : List Task} {name : String}
  {prog next : Progress}

theorem attempt_congr (signatures_eq : next.signatures = prog.signatures) (decl : FunctionDecl)
    (sig : Signature) : attempt setup next decl sig = attempt setup prog decl sig := by
  unfold attempt
  rw [signatures_eq]

theorem reached_eraseP (distinct : (pending.map Pending.name).Nodup) :
    Reached (pending.eraseP fun entry => entry.name == name) name := by
  induction pending with
  | nil => simp [Reached]
  | cons first others ih =>
    rw [map_cons, nodup_cons] at distinct
    by_cases here : first.name = name
    · rw [eraseP_cons_of_pos (by simpa using here)]
      intro entry mem same
      exact distinct.1 (mem_map.mpr ⟨entry, mem, same.trans here.symm⟩)
    · rw [eraseP_cons_of_neg (by simpa using here)]
      intro entry mem
      rcases mem_cons.mp mem with rfl | inOthers
      · exact here
      · exact ih distinct.2 entry inOthers

theorem run_of_not_pending (notFound : pending.find? (fun entry => entry.name == name) = none) :
    run setup pending (.request name :: rest) prog = run setup pending rest prog := by
  rw [run]
  split
  · rfl
  · rename_i found
    cases notFound.symm.trans found

theorem run_of_pending (found : pending.find? (fun entry => entry.name == name) = some entry) :
    run setup pending (.request name :: rest) prog =
      let out := Lowering.lowerFunction setup.config setup.layouts prog.signatures
        entry.decl entry.signature
      run setup (pending.eraseP fun entry => entry.name == name)
        (out.requests.map .request ++ .finish (prog.start entry).2 out.body :: rest)
        (prog.start entry).1 := by
  rw [run]
  split
  · rename_i notFound
    cases found.symm.trans notFound
  · rename_i other foundOther
    obtain rfl : entry = other := Option.some.inj (found.symm.trans foundOther)
    rfl

end

end Progress

/-- What comes of lowering a function that waits. -/
def outcomeOf (setup : Setting) (base : Progress) (entry : Pending) : Lowering.Outcome :=
  Progress.attempt setup base entry.decl entry.signature

/-- The body that a function gets. -/
def bodyOf : Except Fault Lowering.Body → Lowering.Body
  | .ok body => body
  | .error _ => .trap

/-- The mistakes that are gathered from a function. -/
def mistakesOf : Except Fault Lowering.Body → List Diagnostic
  | .error (.semantic errors) => errors
  | _ => []

/-- What the source map says of a function of the program. -/
def mappedFunction (pos : Nat) (decl : FunctionDecl) : MappedFunction :=
  { function := .defined pos
    name := decl.name.name
    kind := if decl.exported then .exported else .internal
    span := decl.span }

/-- A function that is reached from some others by calls. -/
inductive Reachable (setup : Setting) (base : Progress) (roots : List String) :
    Pending → Prop where
  | root {entry : Pending} (waits : entry ∈ base.pending) (isRoot : entry.name ∈ roots) :
      Reachable setup base roots entry
  | called {caller entry : Pending} (reachable : Reachable setup base roots caller)
      (waits : entry ∈ base.pending)
      (asked : entry.name ∈ (outcomeOf setup base caller).requests) :
      Reachable setup base roots entry

variable {setup : Setting} {base : Progress} {entry : Pending}

theorem Reachable.waits (reachable : Reachable setup base roots entry) : entry ∈ base.pending := by
  cases reachable <;> assumption

theorem Reachable.mono (reachable : Reachable setup base roots entry)
    (subset : roots ⊆ more) : Reachable setup base more entry := by
  induction reachable with
  | root waits isRoot => exact .root waits (subset isRoot)
  | called _ waits asked ih => exact .called ih waits asked

/-! ## Tasks -/

namespace Task

/-- The function that a task asks for. -/
def requested? : Task → Option String
  | request name => some name
  | finish _ _ => none

/-- The function that a task finishes. -/
def finished? : Task → Option (FunctionRef × Except Fault Lowering.Body)
  | request _ => none
  | finish function body => some (function, body)

end Task

theorem filterMap_requested_requests (names : List String) (tasks : List Task) :
    (names.map Task.request ++ tasks).filterMap Task.requested? =
      names ++ tasks.filterMap Task.requested? := by
  induction names with
  | nil => rfl
  | cons name names ih => exact congrArg (name :: ·) ih

theorem filterMap_finished_requests (names : List String) (tasks : List Task) :
    (names.map Task.request ++ tasks).filterMap Task.finished? =
      tasks.filterMap Task.finished? := by
  induction names with
  | nil => rfl
  | cons name names ih => exact ih

/-! ## The ledger -/

/-- What has been done. -/
structure Book where
  /-- Names of the functions that are exported. -/
  roots : List String
  /-- Mistakes about names that cannot be exported. -/
  refusals : List Diagnostic
  /-- The exports that were added. -/
  exports : List Export
  /-- The functions that were started, in the order of the module. -/
  started : List Pending
  /-- The functions that have a body. -/
  finished : List Pending

/-- A book is right about a compilation with some functions waiting and some tasks left. -/
structure Ledger (setup : Setting) (base : Progress) (book : Book) (pending : List Pending)
    (tasks : List Task) (prog : Progress) : Prop where
  distinct : (base.pending.map Pending.name).Nodup
  split : (book.started ++ pending).Perm base.pending
  signatures_eq : prog.signatures = base.signatures
  functions_eq : prog.functions = base.functions ++
    book.started.mapIdx fun pos entry => (entry.name, .defined pos)
  imports_eq : prog.mod.imports = base.mod.imports
  mapped_eq : prog.mod.mapped =
    base.mod.mapped ++ (book.started.map Pending.decl).mapIdx mappedFunction
  exports_eq : prog.mod.exports = base.mod.exports ++ book.exports
  rest : SameRest base.mod prog.mod
  types : base.mod.types <+: prog.mod.types
  bodies : List.Forall₂
    (fun entry function =>
      prog.mod.types[function.typeIndex]? = some entry.signature.wasmType ∧
      function.name = entry.name ∧ function.body? =
        if entry.name ∈ book.finished.map Pending.name then
          some (bodyOf (outcomeOf setup base entry).body)
        else
          none)
    book.started prog.mod.functions
  /-- The functions without a body are those that are about to be finished. -/
  unfinished : ∃ places : List (Nat × Pending),
    (∀ place ∈ places, book.started[place.1]? = some place.2) ∧
    tasks.filterMap Task.finished? =
      places.map (fun place => (.defined place.1, (outcomeOf setup base place.2).body)) ∧
    (book.finished ++ places.map Prod.snd).Perm book.started
  harmless : ∀ entry ∈ book.finished, ∀ fault, (outcomeOf setup base entry).body = .error fault →
    fault.isUserFacing = true
  errors : ∃ noted, prog.errors = base.errors.pushErrors noted ∧ noted.Perm (book.refusals ++
    book.finished.flatMap fun entry => mistakesOf (outcomeOf setup base entry).body)
  reachable : ∀ entry ∈ book.started, Reachable setup base book.roots entry
  asked : ∀ entry ∈ base.pending, entry.name ∈ tasks.filterMap Task.requested? →
    Reachable setup base book.roots entry
  settled : ∀ name, name ∈ book.roots ∨
      (∃ entry ∈ book.started, name ∈ (outcomeOf setup base entry).requests) →
    Reached pending name ∨ name ∈ tasks.filterMap Task.requested?

variable {prog next : Progress} {book : Book} {pending : List Pending}
variable {tasks rest : List Task} {name : String}

namespace Ledger

section

variable (ledger : Ledger setup base book pending tasks prog)
include ledger

theorem finished_subset : book.finished ⊆ book.started := by
  obtain ⟨places, -, -, perm⟩ := ledger.unfinished
  exact fun entry mem => perm.subset (mem_append_left _ mem)

theorem fresh (waits : entry ∈ pending) : entry.name ∉ book.started.map Pending.name := by
  have distinct := (ledger.split.map Pending.name).nodup_iff.mpr ledger.distinct
  rw [map_append, nodup_append] at distinct
  exact fun mem => distinct.2.2 _ mem _ (mem_map_of_mem waits) rfl

theorem nodup_started : (book.started.map Pending.name).Nodup := by
  have distinct := (ledger.split.map Pending.name).nodup_iff.mpr ledger.distinct
  rw [map_append, nodup_append] at distinct
  exact distinct.1

theorem outcome_eq (entry : Pending) :
    attempt setup prog entry.decl entry.signature = outcomeOf setup base entry :=
  attempt_congr ledger.signatures_eq entry.decl entry.signature

end

theorem skip (ledger : Ledger setup base book pending (.request name :: rest) prog)
    (notFound : (pending.find? fun entry => entry.name == name) = none) :
    Ledger setup base book pending rest prog := by
  refine { ledger with unfinished := ledger.unfinished, asked := ?_, settled := ?_ }
  · exact fun entry waits mem => ledger.asked entry waits (mem_cons_of_mem _ mem)
  · intro other known
    refine (ledger.settled other known).elim .inl fun mem => ?_
    rcases mem_cons.mp mem with rfl | mem
    · refine .inl fun entry mem same => ?_
      exact List.find?_eq_none.mp notFound entry mem (by simpa using same)
    · exact .inr mem

end Ledger

theorem start_eq (prog : Progress) (entry : Pending) :
    ∃ (table : SignatureTable) (typeIndex : Nat), prog.mod.types <+: table.types ∧
      table.types[typeIndex]? = some entry.signature.wasmType ∧ prog.start entry = ({ prog with
        mod := { prog.mod with
          toSignatureTable := table
          functions := prog.mod.functions ++ [{ name := entry.name, typeIndex, body? := none }]
          mapped := prog.mod.mapped ++ [mappedFunction prog.mod.functions.length entry.decl] }
        functions := prog.functions ++ [(entry.name, .defined prog.mod.functions.length)] },
        .defined prog.mod.functions.length) := by
  obtain ⟨table, added, grows, typed⟩ := registerType_fst prog.mod entry.signature.wasmType
  refine ⟨table, (prog.mod.registerType entry.signature.wasmType).2, grows, typed, ?_⟩
  simp only [start, Module.createFunction, added, Module.mapFunction, mappedFunction, Pending.name]

theorem perm_cons_eraseP (found : (pending.find? fun entry => entry.name == name) = some entry) :
    pending.Perm (entry :: pending.eraseP fun entry => entry.name == name) := by
  obtain ⟨holds, before, after, rfl, others⟩ := find?_eq_some_iff_append.mp found
  have taken : (entry :: after).eraseP (fun entry => entry.name == name) = after :=
    eraseP_cons_of_pos holds
  rw [eraseP_append_right _ fun other mem => by simpa using others other mem, taken]
  exact perm_middle

namespace Ledger

/-- A request for a function that waits: it is started, and what it asks for comes next. -/
theorem start (ledger : Ledger setup base book pending (.request name :: rest) prog)
    (found : (pending.find? fun entry => entry.name == name) = some entry) :
    Ledger setup base { book with started := book.started ++ [entry] }
      (pending.eraseP fun entry => entry.name == name)
      ((outcomeOf setup base entry).requests.map .request ++
        .finish (prog.start entry).2 (outcomeOf setup base entry).body :: rest)
      (prog.start entry).1 := by
  have waits := mem_of_find?_eq_some found
  have perm := perm_cons_eraseP found
  have fresh := ledger.fresh waits
  obtain rfl : entry.name = name := by simpa using find?_some found
  have inBase : entry ∈ base.pending := ledger.split.subset (mem_append_right _ waits)
  have reachable := ledger.asked entry inBase mem_cons_self
  have length_eq : book.started.length = prog.mod.functions.length := ledger.bodies.length_eq
  have notFinished : entry.name ∉ book.finished.map Pending.name := fun mem =>
    fresh (map_subset _ ledger.finished_subset mem)
  obtain ⟨table, typeIndex, grows, typed, started⟩ := start_eq prog entry
  rw [started, ← length_eq]
  refine { ledger with
    split := ?_, functions_eq := ?_, mapped_eq := ?_, bodies := ?_, unfinished := ?_,
    reachable := ?_, asked := ?_, settled := ?_
    rest := ledger.rest.trans ⟨rfl, rfl, rfl, rfl, rfl, rfl⟩
    types := ledger.types.trans grows }
  · rw [append_assoc]
    exact (perm.symm.append_left _).trans ledger.split
  · dsimp only
    rw [mapIdx_concat, ledger.functions_eq, append_assoc]
  · dsimp only
    rw [map_append, map_singleton, mapIdx_concat, length_map, ledger.mapped_eq, append_assoc]
  · refine rel_append (ledger.bodies.imp fun _ _ known => ?_) (.cons ⟨typed, rfl, ?_⟩ .nil)
    · exact ⟨Module.getElem?_of_prefix grows known.1, known.2⟩
    · rw [if_neg notFinished]
  · obtain ⟨places, placed, tasks_eq, split⟩ := ledger.unfinished
    refine ⟨(book.started.length, entry) :: places, ?_, ?_, ?_⟩
    · refine forall_mem_cons.mpr ⟨getElem?_concat_length, fun place mem => ?_⟩
      have inside := (List.getElem?_eq_some_iff.mp (placed place mem)).1
      rw [getElem?_append_left inside]
      exact placed place mem
    · rw [filterMap_finished_requests]
      exact congrArg (_ :: ·) tasks_eq
    · rw [map_cons]
      exact (perm_middle.trans (split.cons _)).trans (perm_append_singleton _ _).symm
  · rw [forall_mem_append, forall_mem_singleton]
    exact ⟨ledger.reachable, reachable⟩
  · intro other waitsToo mem
    rw [filterMap_requested_requests] at mem
    rcases mem_append.mp mem with isAsked | mem
    · exact .called reachable waitsToo isAsked
    · exact ledger.asked other waitsToo (mem_cons_of_mem _ mem)
  · intro other known
    rw [filterMap_requested_requests, mem_append]
    -- What was asked for before is settled already, is this function, or is still asked for.
    have before : (other ∈ book.roots ∨
        ∃ entry ∈ book.started, other ∈ (outcomeOf setup base entry).requests) →
        Reached (pending.eraseP fun other => other.name == entry.name) other ∨
          other ∈ rest.filterMap Task.requested? := by
      intro knownBefore
      have distinct : (pending.map Pending.name).Nodup := by
        have all := (ledger.split.map Pending.name).nodup_iff.mpr ledger.distinct
        rw [map_append, nodup_append] at all
        exact all.2.1
      refine (ledger.settled other knownBefore).elim ?_ ?_
      · exact fun reached => .inl fun entry mem => reached entry (eraseP_subset mem)
      · intro mem
        rcases mem_cons.mp mem with rfl | mem
        · exact .inl (reached_eraseP distinct)
        · exact .inr mem
    rcases known with isRoot | ⟨caller, mem, isAsked⟩
    · exact (before (.inl isRoot)).imp_right .inr
    · rcases mem_append.mp mem with old | new
      · exact (before (.inr ⟨caller, old, isAsked⟩)).imp_right .inr
      · obtain rfl := mem_singleton.mp new
        exact .inr (.inl isAsked)

end Ledger

theorem semantic_of_outcome (refused : (outcomeOf setup base entry).body = .error fault)
    (userFacing : fault.isUserFacing = true) : ∃ errors, fault = .semantic errors := by
  rcases Lowering.loud_of_lowerFunction refused with loud | ⟨rfl, -⟩
  · cases fault with
    | semantic errors => exact ⟨errors, rfl⟩
    | diagnostics batch => exact loud.elim
    | _ => cases userFacing
  · exact ⟨[], rfl⟩

theorem finish_eq_map_defineFunction
    (harmless : ∀ fault, body = .error fault → ∃ errors, fault = .semantic errors) :
    prog.finish function body = (prog.mod.defineFunction function (bodyOf body)).map fun mod =>
        { prog.jot (mistakesOf body) with mod } := by
  cases body with
  | ok data =>
    change (prog.mod.defineFunction function data >>= _) =
      (prog.mod.defineFunction function data).map _
    cases prog.mod.defineFunction function data <;> rfl
  | error fault =>
    obtain ⟨errors, rfl⟩ := harmless fault rfl
    change (prog.mod.defineFunction function .trap >>= _) =
      (prog.mod.defineFunction function .trap).map _
    cases prog.mod.defineFunction function .trap <;> rfl

theorem finish_eq_error (harmful : fault.isUserFacing = false) :
    prog.finish function (.error fault) = .error fault := by
  cases fault with
  | semantic errors => cases harmful
  | diagnostics batch => cases harmful
  | _ => rfl

theorem defineFunction_eq {mod : Module Lowering.Body}
    {function : Function Lowering.Body} (mem : mod.functions[pos]? = some function)
    (bodyless : function.body? = none) (body : Lowering.Body) :
    mod.defineFunction (.defined pos) body = .ok { mod with
      functions := mod.functions.set pos { function with body? := some body } } := by
  unfold Module.defineFunction
  dsimp only
  rw [mem]
  dsimp only
  rw [bodyless]
  rfl

namespace Ledger

variable {function : FunctionRef} {body : Except Fault Lowering.Body}

theorem place_of_finish
    (ledger : Ledger setup base book pending (.finish function body :: rest) prog) :
    ∃ (pos : Nat) (entry : Pending) (places : List (Nat × Pending)),
      function = .defined pos ∧ body = (outcomeOf setup base entry).body ∧
      book.started[pos]? = some entry ∧ (∀ place ∈ places, book.started[place.1]? = some place.2) ∧
      rest.filterMap Task.finished? =
        places.map (fun place => (.defined place.1, (outcomeOf setup base place.2).body)) ∧
      (book.finished ++ entry :: places.map Prod.snd).Perm book.started := by
  obtain ⟨places, placed, tasks_eq, split⟩ := ledger.unfinished
  cases places with
  | nil => cases tasks_eq
  | cons place places =>
    rw [forall_mem_cons] at placed
    injection tasks_eq with same rest_eq
    obtain ⟨function_eq, body_eq⟩ := Prod.mk.inj same
    exact ⟨place.1, place.2, places, function_eq, body_eq, placed.1, placed.2, rest_eq, split⟩

theorem bodyless_of_finish {pos : Nat} {others : List Pending}
    (ledger : Ledger setup base book pending tasks prog)
    (isStarted : book.started[pos]? = some entry)
    (split : (book.finished ++ entry :: others).Perm book.started) :
    entry.name ∉ book.finished.map Pending.name ∧
      ∃ function, prog.mod.functions[pos]? = some function ∧ function.body? = none ∧
        function.name = entry.name := by
  have names : ((book.finished ++ entry :: others).map Pending.name).Nodup :=
    (split.map Pending.name).nodup_iff.mpr ledger.nodup_started
  have unfinishedYet : entry.name ∉ book.finished.map Pending.name := by
    rw [map_append, map_cons, nodup_append] at names
    exact fun mem => names.2.2 _ mem _ mem_cons_self rfl
  obtain ⟨length_eq, bodies⟩ := forall₂_iff_getElem?.mp ledger.bodies
  have inside : pos < prog.mod.functions.length :=
    length_eq ▸ (List.getElem?_eq_some_iff.mp isStarted).1
  have present := getElem?_eq_getElem inside
  obtain ⟨-, name_eq, bodyless⟩ := bodies pos entry _ isStarted present
  rw [if_neg unfinishedYet] at bodyless
  exact ⟨unfinishedYet, _, present, bodyless, name_eq⟩

section

variable (ledger : Ledger setup base book pending (.finish function body :: rest) prog)
include ledger

/-- A function that does not end the compilation is finished. -/
theorem finish (finished : prog.finish function body = .ok next) :
    ∃ entry, Ledger setup base { book with finished := book.finished ++ [entry] } pending rest
      next := by
  obtain ⟨pos, entry, places, rfl, rfl, isStarted, placed, rest_eq, split⟩ := ledger.place_of_finish
  have harmless : ∀ fault, (outcomeOf setup base entry).body = .error fault →
      fault.isUserFacing = true := by
    intro fault refused
    by_contra harmful
    rw [refused, finish_eq_error (Bool.eq_false_iff.mpr harmful)] at finished
    cases finished
  obtain ⟨unfinishedYet, function, mem, bodyless, name_eq⟩ :=
    ledger.bodyless_of_finish isStarted split
  obtain ⟨length_eq, bodies⟩ := forall₂_iff_getElem?.mp ledger.bodies
  have inside := (List.getElem?_eq_some_iff.mp mem).1
  rw [finish_eq_map_defineFunction fun fault refused =>
    semantic_of_outcome refused (harmless fault refused),
    defineFunction_eq mem bodyless] at finished
  injection finished with next_eq
  subst next_eq
  refine ⟨entry, { ledger with
    bodies := ?_, unfinished := ?_, harmless := ?_, errors := ?_
    rest := ledger.rest.trans ⟨rfl, rfl, rfl, rfl, rfl, rfl⟩ }⟩
  · refine forall₂_iff_getElem?.mpr ⟨length_eq.trans length_set.symm, ?_⟩
    intro other started changed isStartedToo presentToo
    dsimp only at presentToo ⊢
    have finished_iff : started.name ∈ (book.finished ++ [entry]).map Pending.name ↔
        started.name ∈ book.finished.map Pending.name ∨ started.name = entry.name := by
      rw [map_append, mem_append, map_singleton, mem_singleton]
    by_cases here : pos = other
    · subst here
      rw [isStarted] at isStartedToo
      obtain rfl := Option.some.inj isStartedToo
      rw [getElem?_set_self inside] at presentToo
      obtain rfl := Option.some.inj presentToo
      exact ⟨(bodies pos entry function isStarted mem).1, name_eq,
        (if_pos (finished_iff.mpr (.inr rfl))).symm⟩
    · rw [getElem?_set_ne here] at presentToo
      have ne : started.name ≠ entry.name := by
        intro same
        have insideNames : pos < (book.started.map Pending.name).length := by
          rw [length_map]
          exact (List.getElem?_eq_some_iff.mp isStarted).1
        refine here ((getElem?_inj insideNames ledger.nodup_started).mp ?_)
        rw [getElem?_map, getElem?_map, isStarted, isStartedToo, Option.map_some,
          Option.map_some, same]
      obtain ⟨typed, sameName, sameBody⟩ := bodies other started changed isStartedToo presentToo
      refine ⟨typed, sameName, sameBody.trans (if_congr ?_ rfl rfl)⟩
      rw [finished_iff, or_iff_left ne]
  · refine ⟨places, placed, rest_eq, ?_⟩
    rw [append_assoc]
    exact split
  · rw [forall_mem_append, forall_mem_singleton]
    exact ⟨ledger.harmless, harmless⟩
  · obtain ⟨noted, errors_eq, perm⟩ := ledger.errors
    refine ⟨noted ++ mistakesOf (outcomeOf setup base entry).body, ?_, ?_⟩
    · rw [← Diagnostic.Batch.pushErrors_append, ← errors_eq]
      rfl
    · dsimp only
      rw [flatMap_append, flatMap_singleton, ← append_assoc]
      exact perm.append_right _

theorem reachable_of_finish {fault : Fault} (failed : prog.finish function body = .error fault) :
    fault.isUserFacing = false ∧ ∃ entry, Reachable setup base book.roots entry ∧
      (outcomeOf setup base entry).body = .error fault := by
  obtain ⟨pos, entry, places, rfl, rfl, isStarted, -, -, split⟩ := ledger.place_of_finish
  have reachable := ledger.reachable entry (mem_of_getElem? isStarted)
  by_cases harmless : ∀ fault, (outcomeOf setup base entry).body = .error fault →
      fault.isUserFacing = true
  · obtain ⟨-, function, mem, bodyless, -⟩ := ledger.bodyless_of_finish isStarted split
    rw [finish_eq_map_defineFunction fun fault refused =>
      semantic_of_outcome refused (harmless fault refused),
      defineFunction_eq mem bodyless] at failed
    cases failed
  · simp only [not_forall, exists_prop] at harmless
    obtain ⟨cause, refused, harmful⟩ := harmless
    rw [refused, finish_eq_error (Bool.eq_false_iff.mpr harmful)] at failed
    injection failed with same
    subst same
    exact ⟨Bool.eq_false_iff.mpr harmful, entry, reachable, refused⟩

end

end Ledger

/-! ## Runs -/

/-- How reaching functions ends: with a book that is right and nothing left to do, or with
the fault of a function that can be reached. -/
def Concludes (setup : Setting) (base : Progress) (roots : List String)
    (refusals : List Diagnostic) (exports : List Export) (started : List Pending) :
    Except Fault Progress → Prop
  | .ok final => ∃ more finished, Ledger setup base
      { roots, refusals, exports, started := started ++ more, finished } final.pending [] final
  | .error fault => fault.isUserFacing = false ∧
      ∃ entry, Reachable setup base roots entry ∧
        (outcomeOf setup base entry).body = .error fault

theorem Concludes.append
    (concludes : Concludes setup base roots refusals exports (started ++ more) result) :
    Concludes setup base roots refusals exports started result := by
  cases result with
  | ok final =>
    obtain ⟨others, finished, ledger⟩ := concludes
    rw [append_assoc] at ledger
    exact ⟨more ++ others, finished, ledger⟩
  | error fault => exact concludes

namespace Ledger

theorem run (ledger : Ledger setup base book pending tasks prog) :
    Concludes setup base book.roots book.refusals book.exports book.started
      (run setup pending tasks prog) := by
  induction pending, tasks, prog using run.induct setup generalizing book with
  | case1 pending prog =>
    rw [run]
    refine ⟨[], book.finished, ?_⟩
    rw [append_nil]
    exact { ledger with unfinished := ledger.unfinished }
  | case2 pending prog function body rest ih =>
    rw [run]
    cases finished : prog.finish function body with
    | ok next =>
      obtain ⟨entry, ledgerNext⟩ := ledger.finish finished
      have concludes := ih next ledgerNext
      exact concludes
    | error fault => exact ledger.reachable_of_finish finished
  | case3 pending prog name rest notFound ih =>
    rw [run_of_not_pending notFound]
    exact ih (ledger.skip notFound)
  | case4 pending prog name rest entry found out next function started =>
    rename_i ih
    have ledgerNext := ledger.start found
    rw [← ledger.outcome_eq entry, started] at ledgerNext
    have concludes := ih ledgerNext
    rw [run_of_pending found, started]
    exact concludes.append

end Ledger

/-! ## Exports -/

/-- The names among those of exported functions that can be exported. -/
def rootsOf (base : Progress) (decls : List FunctionDecl) : List String :=
  (namesOf decls).filter fun name => !base.mod.hasExport name

/-- The mistakes about exported functions whose name is taken. -/
def refusalsOf (setup : Setting) (base : Progress) (decls : List FunctionDecl) :
    List Diagnostic :=
  (decls.filter fun decl => base.mod.hasExport decl.name.name).map fun decl =>
    (Mistake.reservedExport decl.name.name).report setup.config.sourceName decl.name.span

theorem rootsOf_append (base : Progress) (first second : List FunctionDecl) :
    rootsOf base (first ++ second) = rootsOf base first ++ rootsOf base second := by
  rw [rootsOf, namesOf, map_append, filter_append]
  rfl

theorem refusalsOf_append (setup : Setting) (base : Progress) (first second : List FunctionDecl) :
    refusalsOf setup base (first ++ second) =
      refusalsOf setup base first ++ refusalsOf setup base second := by
  rw [refusalsOf, filter_append, map_append]
  rfl

/-- The export of a function that was started. -/
def exportOf? (started : List Pending) (name : String) : Option Export :=
  (started.findIdx? fun entry => entry.name == name).map fun pos =>
    { name, target := .function (.defined pos) }

/-- Some exported functions were compiled with all they reach, and exported. -/
def Exported (setup : Setting) (base : Progress) (decls : List FunctionDecl)
    (prog : Progress) : Prop :=
  ∃ started finished, Ledger setup base
    { roots := rootsOf base decls
      refusals := refusalsOf setup base decls
      exports := (rootsOf base decls).filterMap (exportOf? started)
      started
      finished }
    prog.pending [] prog

namespace Ledger

theorem lookup_functions (ledger : Ledger setup base book pending tasks prog)
    (absent : base.functions.lookup name = none) : prog.functions.lookup name =
      (book.started.findIdx? fun entry => entry.name == name).map FunctionRef.defined := by
  rw [ledger.functions_eq, lookup_append, absent, Option.none_or, lookup_mapIdx]

theorem exportOf?_append (ledger : Ledger setup base book prog.pending [] prog)
    (fewer : more ⊆ prog.pending) (isRoot : name ∈ book.roots) :
    exportOf? (book.started ++ more) name = exportOf? book.started name := by
  have reached := (ledger.settled name (.inl isRoot)).resolve_right not_mem_nil
  have absent : (more.findIdx? fun entry => entry.name == name) = none := by
    rw [findIdx?_eq_none_iff]
    exact fun entry mem => beq_eq_false_iff_ne.mpr (reached entry (fewer mem))
  unfold exportOf?
  rw [findIdx?_append, absent, Option.map_none, Option.or_none]

theorem hasExport_eq (ledger : Ledger setup base book pending tasks prog)
    (absent : ∀ entry ∈ book.exports, entry.name ≠ name) :
    prog.mod.hasExport name = base.mod.hasExport name := by
  unfold Module.hasExport
  rw [ledger.exports_eq, any_append, Bool.or_eq_left_iff_imp]
  intro found
  obtain ⟨entry, mem, same⟩ := any_eq_true.mp found
  exact absurd (beq_iff_eq.mp same) (absent entry mem)

theorem request (ledger : Ledger setup base book prog.pending [] prog) (name : String) :
    Ledger setup base { book with roots := book.roots ++ [name] } prog.pending
      [.request name] prog := by
  refine { ledger with
    unfinished := ledger.unfinished, reachable := ?_, asked := ?_, settled := ?_ }
  · exact fun entry mem => (ledger.reachable entry mem).mono (subset_append_left _ _)
  · intro entry waits mem
    refine .root waits (mem_append_right _ ?_)
    exact mem
  · intro other known
    rw [mem_append, or_assoc] at known
    rcases known with isRoot | isNew | known
    · exact .inl ((ledger.settled other (.inl isRoot)).resolve_right not_mem_nil)
    · exact .inr isNew
    · exact .inl ((ledger.settled other (.inr known)).resolve_right not_mem_nil)

section

variable (ledger : Ledger setup base book pending tasks prog)
include ledger

/-- A mistake is noted that is not one of a function that was started. -/
theorem refuse (mistake : Diagnostic) :
    Ledger setup base { book with refusals := book.refusals ++ [mistake] } pending tasks
      (prog.jot [mistake]) := by
  refine { ledger with unfinished := ledger.unfinished, errors := ?_ }
  obtain ⟨noted, errors_eq, perm⟩ := ledger.errors
  refine ⟨noted ++ [mistake], ?_, ?_⟩
  · rw [← Diagnostic.Batch.pushErrors_append, ← errors_eq]
    rfl
  · dsimp only
    rw [append_assoc]
    refine (perm.append_right _).trans ?_
    rw [append_assoc]
    exact perm_append_comm.append_left _

theorem offer (entry : Export) :
    Ledger setup base { book with exports := book.exports ++ [entry] } pending tasks
      { prog with mod := { prog.mod with exports := prog.mod.exports ++ [entry] } } := by
  refine { ledger with unfinished := ledger.unfinished, exports_eq := ?_, rest := ?_ }
  · rw [← append_assoc, ← ledger.exports_eq]
  · exact ledger.rest.trans ⟨rfl, rfl, rfl, rfl, rfl, rfl⟩

end

end Ledger

theorem addExport_error {mod : Module Lowering.Body}
    (failed : mod.addExport name target = .error fault) : ∃ cause, fault = .inconsistent cause := by
  unfold Module.addExport at failed
  split at failed
  · injection failed with same
    exact ⟨_, same.symm⟩
  · cases failed

/-- How exporting any functions ends: with some book that is right, or with the fault of a
function that can be reached or one that has nothing to do with functions. -/
def Books (setup : Setting) (base : Progress) : Except Fault Progress → Prop
  | .ok final => ∃ book, Ledger setup base book final.pending [] final
  | .error fault => (∃ cause, fault = .inconsistent cause) ∨
      ∃ roots entry, Reachable setup base roots entry ∧
        (outcomeOf setup base entry).body = .error fault

namespace Ledger

variable (ledger : Ledger setup base book prog.pending [] prog)
include ledger

theorem exportFunction (decl : FunctionDecl) :
    Books setup base (prog.exportFunction setup decl) := by
  unfold Progress.exportFunction
  dsimp only
  split
  · exact ⟨_, ledger.refuse _⟩
  · have concludes := (ledger.request decl.name.name).run
    cases ran : Progress.run setup prog.pending [.request decl.name.name] prog with
    | error fault =>
      rw [ran] at concludes
      exact .inr ⟨_, concludes.2⟩
    | ok next =>
      rw [ran] at concludes
      obtain ⟨more, finished, ledgerNext⟩ := concludes
      dsimp only [bind, Except.bind]
      split
      · exact ⟨_, ledgerNext⟩
      · rename_i function _
        cases added : next.mod.addExport decl.name.name (.function function) with
        | error fault => exact .inl (addExport_error added)
        | ok mod =>
          unfold Module.addExport at added
          split at added
          · cases added
          · obtain rfl := Except.ok.inj added
            exact ⟨_, ledgerNext.offer _⟩

theorem exportAll (decls : List FunctionDecl) :
    Books setup base (decls.foldlM (Progress.exportFunction setup) prog) := by
  induction decls generalizing book prog with
  | nil => exact ⟨book, ledger⟩
  | cons decl rest ih =>
    rw [foldlM_cons]
    have books := ledger.exportFunction decl
    cases exported : prog.exportFunction setup decl with
    | error fault =>
      rw [exported] at books
      exact books
    | ok next =>
      rw [exported] at books
      obtain ⟨bookNext, ledgerNext⟩ := books
      exact ih ledgerNext

end Ledger

/-- How exporting functions ends. -/
def ExportEnds (setup : Setting) (base : Progress) (decls : List FunctionDecl) :
    Except Fault Progress → Prop
  | .ok final => Exported setup base decls final
  | .error fault => fault.isUserFacing = false ∧
      ∃ entry, Reachable setup base (rootsOf base decls) entry ∧
        (outcomeOf setup base entry).body = .error fault

section

theorem name_mem_of_exportOf? {started entry}
    (mem : entry ∈ (rootsOf base decls).filterMap (exportOf? started)) :
    entry.name ∈ namesOf decls := by
  obtain ⟨name, isRoot, offered⟩ := mem_filterMap.mp mem
  obtain ⟨pos, -, rfl⟩ := Option.map_eq_some_iff.mp offered
  exact (mem_filter.mp isRoot).1

/-- One more function is exported. -/
theorem Exported.exportFunction (exported : Exported setup base decls prog)
    (fresh : decl.name.name ∉ namesOf decls)
    (absent : base.functions.lookup decl.name.name = none) :
    ExportEnds setup base (decls ++ [decl]) (prog.exportFunction setup decl) := by
  obtain ⟨started, finished, ledger⟩ := exported
  have notOffered : ∀ entry ∈ (rootsOf base decls).filterMap (exportOf? started),
      entry.name ≠ decl.name.name :=
    fun entry mem same => fresh (same ▸ name_mem_of_exportOf? mem)
  have taken := ledger.hasExport_eq notOffered
  unfold Progress.exportFunction
  dsimp only
  split
  · rename_i reserved
    rw [taken] at reserved
    have roots_eq : rootsOf base (decls ++ [decl]) = rootsOf base decls := by
      rw [rootsOf_append]
      simp [reserved, rootsOf, namesOf]
    have refusals_eq : refusalsOf setup base (decls ++ [decl]) =
        refusalsOf setup base decls ++ [(Mistake.reservedExport decl.name.name).report
          setup.config.sourceName decl.name.span] := by
      rw [refusalsOf_append]
      simp [reserved, refusalsOf]
    refine ⟨started, finished, ?_⟩
    rw [roots_eq, refusals_eq]
    exact ledger.refuse _
  · rename_i free
    rw [taken] at free
    have roots_eq : rootsOf base (decls ++ [decl]) = rootsOf base decls ++ [decl.name.name] := by
      rw [rootsOf_append]
      simp [free, rootsOf, namesOf]
    have refusals_eq : refusalsOf setup base (decls ++ [decl]) =
        refusalsOf setup base decls := by
      rw [refusalsOf_append]
      simp [free, refusalsOf]
    have concludes := (ledger.request decl.name.name).run
    cases ran : Progress.run setup prog.pending [.request decl.name.name] prog with
    | error fault =>
      rw [ran] at concludes
      change _ ∧ ∃ entry, Reachable setup base (rootsOf base (decls ++ [decl])) entry ∧ _
      rw [roots_eq]
      exact concludes
    | ok next =>
      rw [ran] at concludes
      obtain ⟨more, finishedMore, ledgerNext⟩ := concludes
      dsimp only at ledgerNext
      have fewer : more ⊆ prog.pending := by
        have perm := ledgerNext.split.trans ledger.split.symm
        rw [append_assoc] at perm
        intro entry mem
        exact ((perm_append_left_iff _).mp perm).subset (mem_append_left _ mem)
      have kept : (rootsOf base decls).filterMap (exportOf? (started ++ more)) =
          (rootsOf base decls).filterMap (exportOf? started) :=
        filterMap_congr fun name isRoot => ledger.exportOf?_append fewer isRoot
      have found := ledgerNext.lookup_functions absent
      have exports_eq : (rootsOf base (decls ++ [decl])).filterMap (exportOf? (started ++ more)) =
          (rootsOf base decls).filterMap (exportOf? started) ++
            (exportOf? (started ++ more) decl.name.name).toList := by
        rw [roots_eq, filterMap_append, kept]
        cases offered : exportOf? (started ++ more) decl.name.name <;> simp [offered]
      dsimp only [bind, Except.bind]
      rw [found]
      dsimp only
      cases place : (started ++ more).findIdx? fun entry => entry.name == decl.name.name with
      | none =>
        refine ⟨started ++ more, finishedMore, ?_⟩
        rw [exports_eq, exportOf?, place, Option.map_none, Option.toList_none, append_nil,
          roots_eq, refusals_eq]
        exact ledgerNext
      | some pos =>
        have freeNext : ¬next.mod.hasExport decl.name.name = true := by
          rw [ledgerNext.hasExport_eq notOffered]
          exact free
        dsimp only [Option.map_some, Module.addExport]
        rw [if_neg freeNext]
        refine ⟨started ++ more, finishedMore, ?_⟩
        rw [exports_eq, exportOf?, place, Option.map_some, Option.toList_some, roots_eq,
          refusals_eq]
        exact ledgerNext.offer _

theorem Exported.exportAll (exported : Exported setup base decls prog)
    (distinct : (namesOf (decls ++ more)).Nodup)
    (absent : ∀ decl ∈ more, base.functions.lookup decl.name.name = none) :
    ExportEnds setup base (decls ++ more)
      (more.foldlM (Progress.exportFunction setup) prog) := by
  induction more generalizing decls prog with
  | nil =>
    rw [append_nil]
    exact exported
  | cons decl rest ih =>
    rw [forall_mem_cons] at absent
    have fresh : decl.name.name ∉ namesOf decls := by
      rw [namesOf, map_append, nodup_append] at distinct
      exact fun mem => distinct.2.2 _ mem _ mem_cons_self rfl
    have ends := exported.exportFunction fresh absent.1
    rw [foldlM_cons]
    rw [append_cons decls decl rest] at distinct ⊢
    cases step : prog.exportFunction setup decl with
    | ok next =>
      rw [step] at ends
      exact ih ends distinct absent.2
    | error fault =>
      rw [step] at ends
      obtain ⟨harmful, entry, reachable, refused⟩ := ends
      refine ⟨harmful, entry, reachable.mono ?_, refused⟩
      rw [rootsOf_append base (decls ++ [decl]) rest]
      exact subset_append_left _ _

end

/-! ## Nothing left to do -/

namespace Ledger

variable (ledger : Ledger setup base book pending [] prog)
include ledger

theorem started_of_settled (waits : entry ∈ base.pending) (known : entry.name ∈ book.roots ∨
      ∃ caller ∈ book.started, entry.name ∈ (outcomeOf setup base caller).requests) :
    entry ∈ book.started := by
  have reached := (ledger.settled entry.name known).resolve_right not_mem_nil
  rcases mem_append.mp (ledger.split.symm.subset waits) with isStarted | stillWaits
  · exact isStarted
  · exact absurd rfl (reached entry stillWaits)

theorem mem_started_iff (entry : Pending) :
    entry ∈ book.started ↔ Reachable setup base book.roots entry := by
  refine ⟨ledger.reachable entry, fun reachable => ?_⟩
  induction reachable with
  | root waits isRoot => exact ledger.started_of_settled waits (.inl isRoot)
  | called _ waits asked ih =>
    exact ledger.started_of_settled waits (.inr ⟨_, ih, asked⟩)

theorem finished_perm : book.finished.Perm book.started := by
  obtain ⟨places, -, tasks_eq, perm⟩ := ledger.unfinished
  cases places with
  | nil => simpa using perm
  | cons place places => cases tasks_eq

theorem bodies_of_finished {pos : Nat} (isStarted : book.started[pos]? = some entry)
    (mem : prog.mod.functions[pos]? = some function) :
    prog.mod.types[function.typeIndex]? = some entry.signature.wasmType ∧
      function.name = entry.name ∧
      function.body? = some (bodyOf (outcomeOf setup base entry).body) := by
  obtain ⟨typed, name_eq, body_eq⟩ :=
    (forall₂_iff_getElem?.mp ledger.bodies).2 pos entry function isStarted mem
  rw [if_pos] at body_eq
  · exact ⟨typed, name_eq, body_eq⟩
  · exact mem_map_of_mem (ledger.finished_perm.symm.subset (mem_of_getElem? isStarted))

end Ledger

theorem exported_nil (distinct : (base.pending.map Pending.name).Nodup)
    (noFunctions : base.mod.functions = []) : Exported setup base [] base := by
  refine ⟨[], [], ?_⟩
  constructor
  · exact distinct
  · exact List.Perm.refl _
  · rfl
  · exact (append_nil _).symm
  · rfl
  · exact (append_nil _).symm
  · exact (append_nil _).symm
  · exact .refl _
  · exact prefix_rfl
  · rw [noFunctions]
    exact .nil
  · exact ⟨[], forall_mem_nil _, rfl, List.Perm.refl _⟩
  · exact forall_mem_nil _
  · exact ⟨[], rfl, List.Perm.refl _⟩
  · exact forall_mem_nil _
  · exact fun entry _ mem => absurd mem not_mem_nil
  · rintro name (isRoot | ⟨entry, mem, -⟩)
    · exact absurd isRoot not_mem_nil
    · exact absurd mem not_mem_nil

end StructWasm.Compile

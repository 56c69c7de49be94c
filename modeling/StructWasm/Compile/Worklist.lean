import StructWasm.Compile.Progress

/-!
# Reaching functions

A function that is reached for the first time is lowered. The functions that it
asked for are compiled next, in the order of its calls, and only then is it
finished; so functions enter the module depth first. Every function is lowered
at most once, which bounds the work.
-/

namespace StructWasm.Compile

/-- What is left to do. -/
inductive Task where
  | request (name : String)
  | finish (function : Wasm.FunctionRef) (body : Except Fault Lowering.Body)

namespace Progress

def start (progress : Progress) (entry : Pending) : Progress × Wasm.FunctionRef :=
  let (mod, function) := progress.mod.createFunction entry.name entry.signature.wasmType
  let kind : FunctionKind := if entry.decl.exported then .exported else .internal
  ({ progress with
    mod := mod.mapFunction { function, name := entry.name, kind, span := entry.decl.span }
    functions := progress.functions ++ [(entry.name, function)] }, function)

/-- Gather the mistakes of a function; any other fault ends the compilation. -/
def report (progress : Progress) : Fault → Except Fault Progress
  | .semantic errors => .ok { progress with errors := progress.errors.pushErrors errors }
  | .diagnostics batch => .ok { progress with errors := progress.errors.extend batch }
  | fault => .error fault

def finish (progress : Progress) (function : Wasm.FunctionRef)
    (body : Except Fault Lowering.Body) : Except Fault Progress := do
  match body with
  | .ok body => return { progress with mod := ← progress.mod.defineFunction function body }
  | .error fault =>
    let progress ← progress.report fault
    return { progress with mod := ← progress.mod.defineFunction function .trap }

theorem length_eraseP_lt_of_find? {α : Type} {condition : α → Bool} {entries : List α}
    {entry : α} (found : entries.find? condition = some entry) :
    (entries.eraseP condition).length < entries.length := by
  have member := List.mem_of_find?_eq_some found
  have holds := List.find?_some found
  have positive := List.length_pos_of_mem member
  rw [List.length_eraseP_of_mem member holds]
  omega

/-- Do what is left to do. A function that is started is lowered, the functions it
asked for come next, and then it is finished. -/
def run (setting : Setting) (pending : List Pending) (tasks : List Task)
    (progress : Progress) : Except Fault Progress :=
  match tasks with
  | [] => .ok { progress with pending }
  | .finish function body :: rest => do
      run setting pending rest (← progress.finish function body)
  | .request name :: rest =>
    match _ : pending.find? fun entry => entry.name == name with
    | none => run setting pending rest progress
    | some entry =>
      let outcome := Lowering.lowerFunction setting.config setting.layouts
        progress.signatures entry.decl entry.signature
      let (progress, function) := progress.start entry
      run setting (pending.eraseP fun entry => entry.name == name)
        (outcome.requests.map .request ++ .finish function outcome.body :: rest)
        progress
termination_by (pending.length, tasks.length)
decreasing_by
  · exact Prod.Lex.right _ (Nat.lt_succ_self _)
  · exact Prod.Lex.right _ (Nat.lt_succ_self _)
  · exact Prod.Lex.left _ _ (length_eraseP_lt_of_find? (by assumption))

def exportFunction (setting : Setting) (progress : Progress) (decl : FunctionDecl) :
    Except Fault Progress := do
  let name := decl.name.name
  if progress.mod.hasExport name then
    return progress.note setting (.reservedExport name) decl.name.span
  else
    let progress ← run setting progress.pending [.request name] progress
    match progress.functions.lookup name with
    | none => return progress
    | some function =>
      return { progress with mod := ← progress.mod.addExport name (.function function) }

end Progress
end StructWasm.Compile

import StructWasm.Lowering.Workspace
import StructWasm.Ownership.Merge
import StructWasm.Ownership.Tree

/-!
# Ownership while lowering

Using a structure value moves it out, and writing to it defines it. Code that may
not run, or may run again, works on copies of the ownership of all variables in
scope; afterwards the copies are merged back.
-/

namespace StructWasm.Lowering

/-! ## Parts of values -/

def newValue (name : String) (type : Ty) : Emit Ownership.NodeId := do
  let shape := (← read).layouts.shape type
  let work ← get
  let (arena, node) := work.arena.newValue name shape
  set { work with arena }
  return node

def fieldNode (node : Ownership.NodeId) (type : Ty) (field : String) :
    Emit Ownership.NodeId := do
  let work ← get
  match work.arena.get? node field with
  | (arena, some child) =>
    set { work with arena }
    return child
  | (_, none) => throw (.inconsistent (.missingOwnershipField type.text field))

/-- Stop unless a part is fully defined, with a mistake for each part that is
not. -/
def checkComplete (node : Ownership.NodeId) (span : Span) : Emit Unit := do
  let arena := (← get).arena
  if arena.isComposable node then
    pure ()
  else
    let file := (← read).file
    throw (.semantic ((arena.gaps node).map fun gap =>
      (Mistake.incompleteValue gap).report file span))

def onArena (span : Span)
    (step : Ownership.Arena → Except Ownership.Error Ownership.Arena) : Emit Unit := do
  let work ← get
  match step work.arena with
  | .ok arena => set { work with arena }
  | .error refusal => fail (.loanViolation refusal) span

def consume (node : Ownership.NodeId) (span : Span) : Emit Unit := do
  checkComplete node span
  onArena span fun arena => arena.markConsumed node span

def define (node : Ownership.NodeId) (span : Span) : Emit Unit :=
  onArena span fun arena => arena.markDefined node

/-! ## Branches -/

def nodesOf (scopes : List Scope) : List Ownership.NodeId :=
  scopes.flatMap fun scope => scope.filterMap fun (_, binding) =>
    match binding with
    | .struct entry => some entry.node
    | .scalar _ _ => none

def forkBinding (loan : Option Ownership.Loan) (entry : String × Binding) :
    StateM Ownership.Arena (String × Binding) := do
  match entry with
  | (name, .struct held) =>
    let (arena, node) := (← get).cloneValue held.node
    set (match loan with
      | none => arena
      | some loan => arena.borrow node (some loan))
    return (name, .struct { held with node })
  | entry => return entry

/-- Give all variables in scope copies of their ownership, for code that may not
run or may run again. The scopes as they were are given back. -/
def fork (loan : Option Ownership.Loan) : Emit (List Scope) := do
  let work ← get
  let copies := work.scopes.mapM fun scope => scope.mapM (forkBinding loan)
  let (scopes, arena) := copies.run work.arena
  set { work with scopes, arena }
  return work.scopes

def restoreScopes (scopes : List Scope) : Emit Unit :=
  modify fun work => { work with scopes }

def infuseAll (targets branches : List Ownership.NodeId) : Emit Unit :=
  modify fun work =>
    { work with
      arena := (targets.zip branches).foldl
        (fun arena (target, branch) => arena.infuse target branch) work.arena }

/-- After code that may not have run: merge its ownership into that from before,
and put the scopes back. -/
def joinOptional (saved : List Scope) : Emit Unit := do
  infuseAll (nodesOf saved) (nodesOf (← get).scopes)
  restoreScopes saved

/-- After two arms of which one has run: go on with the ownership of the arm that
reaches its end, or with both merged. -/
def joinArms (first second : List Scope) (firstNever secondNever : Bool) :
    Emit Unit := do
  if firstNever && !secondNever then
    restoreScopes second
  else
    if !firstNever && !secondNever then
      infuseAll (nodesOf first) (nodesOf second)
    restoreScopes first

end StructWasm.Lowering

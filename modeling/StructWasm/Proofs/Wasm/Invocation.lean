import StructWasm.Proofs.Wasm.Execution
import StructWasm.Proofs.Wasm.Module

/-!
# Invocation of functions

The stack machine for all code of a module: blocks and loops with their branches, calls,
accesses to memory. The host decides what memory is, what is computed with floats and what
imported functions do. A run that comes to its end does so within some number of rounds of
each loop and some depth of calls; one that traps, or that has no rule, gives nothing.
-/

namespace StructWasm.Wasm

variable {refs : Refs} {memory : Type}

/-- What functions share: the globals, by index, and the memory. -/
structure Store (memory : Type) where
  globals : List Constant
  memory : memory

/-- What the host decides. -/
structure Host (memory : Type) where
  /-- Read a value at an address. -/
  load : ValType → Nat → memory → Option Constant
  /-- Write a value at an address. -/
  store : ValType → Nat → Constant → memory → Option memory
  /-- What a numeric instruction for floats does to the operands. -/
  compute : NumericOp → List Constant → Option (List Constant)
  /-- What the import at a position gives for arguments. -/
  imported : Nat → List Constant → Store memory → Option (List Constant × Store memory)

/-- What a numeric instruction does to the operands. -/
def Host.numeric (host : Host memory) (op : NumericOp) (stack : List Constant) :
    Option (List Constant) :=
  if op.usesFloat then host.compute op stack else (op.execute stack).toOption

/-- The state of a function that is executed, with the memory. -/
structure Running (memory : Type) extends Machine where
  memory : memory

/-- The part of a state that functions share. -/
def Running.store (running : Running memory) : Store memory :=
  { globals := running.globals, memory := running.memory }

/-- How code comes to its end. -/
inductive Ending where
  /-- The code after it is next. -/
  | proceeds
  /-- The end of an enclosing block is next, or the start of an enclosing loop. -/
  | branches (depth : Nat)
  /-- The function is left. -/
  | leaves
  deriving DecidableEq, Repr

/-- What the code of a function sees when it is executed. -/
structure Scene (refs : Refs) (memory : Type) where
  host : Host memory
  resolver : Resolver refs
  /-- Type of the function at an index. -/
  typeAt? : Nat → Option FuncType
  /-- Call the function at an index. -/
  invoke : Nat → List Constant → Store memory → Option (List Constant × Store memory)
  /-- How often a loop may go round. -/
  rounds : Nat

/-! ## Instructions -/

/-- Leave a block with what it is to leave on the stack. A branch out of it takes that
from the top. -/
def exitBlock (type : BlockType) (around : List Constant) :
    Ending × Running memory → Option (Ending × Running memory)
  | (.proceeds, inner) => do
      let machine ← (leaveBlock type around inner.toMachine).toOption
      return (.proceeds, { inner with toMachine := machine })
  | (.branches 0, inner) => do
      let top := { inner.toMachine with stack := inner.stack.take type.results.length }
      let machine ← (leaveBlock type around top).toOption
      return (.proceeds, { inner with toMachine := machine })
  | (.branches (depth + 1), inner) => some (.branches depth, inner)
  | (.leaves, inner) => some (.leaves, inner)

/-- Go round a loop. A branch to it starts the next round. -/
def goRound (type : BlockType) (around : List Constant)
    (round : Running memory → Option (Ending × Running memory)) :
    Nat → Running memory → Option (Ending × Running memory)
  | 0, _ => none
  | rounds + 1, running => do
      let result ← round { running with stack := [] }
      if result.1 = .branches 0 then
        goRound type around round rounds result.2
      else
        exitBlock type around result

/-- The address of an access, and the operands below it. -/
def accessed (resolver : Resolver refs) (arg : MemArg refs.base) :
    List Constant → Option (Nat × List Constant)
  | .i32 address :: rest => do
      let offset ← (arg.offset.value resolver.base).toOption
      return (address.toUInt32.toNat + offset, rest)
  | _ => none

/-- Call a function with the operands that it takes. -/
def callFunction (scene : Scene refs memory) (name : refs.function) (running : Running memory) :
    Option (Running memory) := do
  let index ← (scene.resolver.functionIndex name).toOption
  let type ← scene.typeAt? index
  let arguments := (running.stack.take type.params.length).reverse
  let (results, store) ← scene.invoke index arguments running.store
  return {
    stack := results.reverse ++ running.stack.drop type.params.length
    locals := running.locals
    globals := store.globals
    memory := store.memory }

mutual

/-- Perform an instruction. A block starts with no operands of its own. -/
def Instr.perform (scene : Scene refs memory) :
    Instr refs → Running memory → Option (Ending × Running memory)
  | .block type body, running => do
      exitBlock type running.stack (← performCode scene body { running with stack := [] })
  | .loop type body, running =>
    goRound type running.stack (fun start => performCode scene body start) scene.rounds running
  | .ifElse type thenBody elseBody, running =>
    match running.stack with
    | .i32 condition :: around =>
      if condition = 0 then do
        exitBlock type around (← performCode scene elseBody { running with stack := [] })
      else do
        exitBlock type around (← performCode scene thenBody { running with stack := [] })
    | _ => none
  | .branch depth, running => some (.branches depth, running)
  | .branchIf depth, running =>
    match running.stack with
    | .i32 condition :: rest =>
      some (if condition = 0 then .proceeds else .branches depth, { running with stack := rest })
    | _ => none
  | .leave, running => some (.leaves, running)
  | .numeric op, running => do
      return (.proceeds, { running with stack := ← scene.host.numeric op running.stack })
  | .load type arg, running => do
      let (address, rest) ← accessed scene.resolver arg running.stack
      let value ← scene.host.load type address running.memory
      return (.proceeds, { running with stack := value :: rest })
  | .store type arg, running =>
    match running.stack with
    | value :: below => do
        let (address, rest) ← accessed scene.resolver arg below
        let memory ← scene.host.store type address value running.memory
        return (.proceeds, { running with stack := rest, memory })
    | [] => none
  | .call name, running => do return (.proceeds, ← callFunction scene name running)
  | instr, running =>
    (instr.execute scene.resolver running.toMachine).toOption.map fun machine =>
      (.proceeds, { running with toMachine := machine })
termination_by structural instr => instr

/-- Perform instructions one after the other, up to one that goes elsewhere. -/
def performCode (scene : Scene refs memory) :
    List (Instr refs) → Running memory → Option (Ending × Running memory)
  | [], running => some (.proceeds, running)
  | instr :: rest, running => do
      let result ← instr.perform scene running
      if result.1 = .proceeds then
        performCode scene rest result.2
      else
        return result
termination_by structural code => code

end

theorem performCode_append (scene : Scene refs memory) (first second : List (Instr refs))
    (running : Running memory) : performCode scene (first ++ second) running =
      performCode scene first running >>= fun result =>
        if result.1 = .proceeds then performCode scene second result.2 else some result := by
  induction first generalizing running with
  | nil => rfl
  | cons instr rest ih =>
    rw [List.cons_append, performCode, performCode]
    cases instr.perform scene running with
    | none => rfl
    | some result =>
      by_cases proceeds : result.1 = .proceeds
      · simp only [Option.bind_eq_bind, Option.bind_some, if_pos proceeds]
        exact ih result.2
      · simp [proceeds]

/-- Code is performed up to its end and then the code after it, or only so far that it
goes elsewhere. -/
theorem performCode_append_eq_some {scene : Scene refs memory} {first second : List (Instr refs)}
    {running next : Running memory} {ending : Ending}
    (done : performCode scene (first ++ second) running = some (ending, next)) :
    (∃ mid, performCode scene first running = some (.proceeds, mid) ∧
        performCode scene second mid = some (ending, next)) ∨
      ending ≠ .proceeds ∧ performCode scene first running = some (ending, next) := by
  rw [performCode_append] at done
  obtain ⟨⟨reached, mid⟩, performedFirst, done⟩ := Option.bind_eq_some_iff.mp done
  dsimp only at done
  split at done
  · rename_i proceeds
    exact .inl ⟨mid, proceeds ▸ performedFirst, done⟩
  · rename_i elsewhere
    obtain ⟨rfl, rfl⟩ := Prod.mk.inj (Option.some.inj done)
    exact .inr ⟨elsewhere, performedFirst⟩

theorem performCode_singleton (scene : Scene refs memory) (instr : Instr refs)
    (running : Running memory) :
    performCode scene [instr] running = instr.perform scene running := by
  rw [performCode]
  cases instr.perform scene running with
  | none => rfl
  | some result =>
    obtain ⟨ending, next⟩ := result
    by_cases proceeds : ending = .proceeds
    · simp [proceeds, performCode]
    · simp [proceeds]

/-- Whether an instruction only moves operands and variables. -/
def Instr.isStraight : Instr refs → Bool
  | .block _ _ | .loop _ _ | .ifElse _ _ _ | .branch _ | .branchIf _ | .leave | .load _ _
  | .store _ _ | .call _ => false
  | .numeric op => !op.usesFloat
  | _ => true

theorem perform_of_isStraight {instr : Instr refs} (straight : instr.isStraight = true)
    (scene : Scene refs memory) (running : Running memory) : instr.perform scene running =
      (instr.execute scene.resolver running.toMachine).toOption.map fun machine =>
        (.proceeds, { running with toMachine := machine }) := by
  cases instr with
  | numeric op =>
    have noFloat : op.usesFloat = false := by simpa [Instr.isStraight] using straight
    simp only [Instr.perform, Instr.execute, Host.numeric, noFloat]
    cases op.execute running.stack <;> rfl
  | block _ _ | loop _ _ | ifElse _ _ _ | branch _ | branchIf _ | leave | load _ _ | store _ _
  | call _ => cases straight
  | _ => rfl

theorem performCode_of_isStraight (straight : ∀ instr ∈ code, instr.isStraight = true)
    (scene : Scene refs memory) (running : Running memory) : performCode scene code running =
      (executeCode scene.resolver code running.toMachine).toOption.map fun machine =>
        (.proceeds, { running with toMachine := machine }) := by
  induction code generalizing running with
  | nil => rfl
  | cons instr rest ih =>
    rw [performCode, executeCode, perform_of_isStraight (straight _ List.mem_cons_self)]
    cases instr.execute scene.resolver running.toMachine with
    | error halt => rfl
    | ok machine =>
      exact ih (fun other mem => straight other (List.mem_cons_of_mem _ mem))
        { running with toMachine := machine }

/-! ## Functions -/

/-- How the bodies of a module are executed: how the numbers in a body are looked up, and
what its locals and its code are. -/
abbrev BodyView (refs : Refs) (body : Type) := body → Resolver refs × FunctionBody refs

/-- The state in which a function starts. -/
def Store.enter (store : Store memory) (arguments : List Constant)
    (locals : List (Nat × ValType)) : Running memory :=
  { stack := []
    locals := arguments ++ (expandGroups locals).map ValType.zero
    globals := store.globals
    memory := store.memory }

/-- Call the function at an index. It is left at the end of its code, by a branch out of
it or where the code says so, and its results are on top of the stack then. -/
def Module.invoke {body : Type} (mod : Module body) (host : Host memory)
    (contents : BodyView refs body) (rounds : Nat) :
    Nat → Nat → List Constant → Store memory → Option (List Constant × Store memory)
  | 0, _, _, _ => none
  | depth + 1, index, arguments, store =>
    if index < mod.imports.length then
      host.imported index arguments store
    else do
      let entry ← mod.functions[index - mod.imports.length]?
      let type ← mod.types[entry.typeIndex]?
      guard (arguments.map Constant.type = type.params)
      let content ← entry.body?
      let scene : Scene refs memory :=
        { host, resolver := (contents content).1, typeAt? := mod.typeAt?, rounds
          invoke := mod.invoke host contents rounds depth }
      let final ← performCode scene (contents content).2.code
        (store.enter arguments (contents content).2.locals)
      return ((final.2.stack.take type.results.length).reverse, final.2.store)

end StructWasm.Wasm

import StructWasm.Lowering.Function
import StructWasm.Proofs.Lowering.Steps

/-!
# Choices and functions taken apart

Lowering a choice or a function goes through many states. Here they get names: if it
ends, each of its steps ended.
-/

namespace StructWasm.Lowering

variable {ctx : Context} {work next : Workspace}

theorem runs_ite_bind {α β : Type} {cond : Prop} [Decidable cond] {first other}
    {rest : α → Emit β} {result} :
    Runs (if cond then first >>= rest else rest other) ctx work result next ↔
      Runs ((if cond then first else pure other) >>= rest) ctx work result next := by
  split
  · exact Iff.rfl
  · rw [pure_bind]

/-! ## Choices -/

/-- The type that the arms of a choice are lowered with. -/
def predictedType (ctx : Context) (scopes : List Scope) (choice : Choice)
    (want : Option Ty) : Option Ty :=
  if choice.otherwise.isNone then
    none
  else
    match want with
    | some type => some type
    | none =>
      choiceType? {
        layouts := ctx.layouts
        variableType? := fun name => (lookup? scopes name).map Binding.type
        resultType? := fun name =>
          (ctx.signature? name).join.bind Signature.result } choice

/-- The steps of lowering a choice. -/
structure ChoiceRun (ctx : Context) (choice : Choice) (want : Option Ty)
    (work next : Workspace) (code : Code) (value : Value) where
  conditionCode : Code
  conditionValue : Value
  decided : Workspace
  decides : Runs (lowerExpr choice.condition (some .bool)) ctx work
    (conditionCode, conditionValue) decided
  isBool : conditionValue.IsScalar .bool
  slot? : Option ResultSlot
  slotted : Workspace
  slots : Runs (choiceSlot (predictedType ctx decided.scopes choice want)) ctx decided
    slot? slotted
  branched : Frame.Allocator
  checkpoint : Frame.CheckpointId
  branches : slotted.frame.checkpoint = .ok (branched, checkpoint)
  thenStart : Workspace
  thenStart_eq : thenStart = forked none { slotted with frame := branched }
  thenCode : Code
  thenResult : Value
  thenEnd : Workspace
  thenRuns : Runs (lowerBlock choice.thenBlock
      (predictedType ctx decided.scopes choice want)) ctx thenStart
    (thenCode, thenResult) thenEnd
  dropCode : Code
  thenKept : Value
  dropped : Workspace
  drops : Runs (if choice.otherwise.isNone then dropArm thenResult else pure ([], thenResult))
    ctx thenEnd (dropCode, thenKept) dropped
  thenMove : Code
  thenValue : Value
  resultSlot? : Option ResultSlot
  thenSettled : Workspace
  settlesFirst : Runs (settleFirst thenKept slot? choice.thenBlock.span) ctx dropped
    (thenMove, thenValue, resultSlot?) thenSettled
  rewound : Frame.Allocator
  rewindsFirst : thenSettled.frame.rewind checkpoint = .ok rewound
  elseStart : Workspace
  elseStart_eq : elseStart =
    forked none { thenSettled with frame := rewound, scopes := slotted.scopes }
  elseCode : Code
  elseResult : Value
  elseEnd : Workspace
  elseRuns : Runs (lowerAlternative choice.otherwise
      (predictedType ctx decided.scopes choice want)) ctx elseStart
    (elseCode, elseResult) elseEnd
  elseMove : Code
  elseValue : Value
  elseSettled : Workspace
  settlesSecond : Runs (settleSecond elseResult resultSlot? choice.span) ctx elseEnd
    (elseMove, elseValue) elseSettled
  rewoundTwice : Frame.Allocator
  rewindsSecond : elseSettled.frame.rewind checkpoint = .ok rewoundTwice
  restored : Frame.Allocator
  restores : rewoundTwice.restore checkpoint = .ok restored
  joined : Workspace
  joined_eq : joined = joinedArms thenSettled.scopes elseSettled.scopes thenValue.isNever
    elseValue.isNever { elseSettled with frame := restored }
  joins : Runs (joinValues thenValue elseValue choice.span) ctx joined value joined
  releases : Runs (releaseUnused resultSlot? value) ctx joined () next
  code_eq : code = conditionCode ++
    .ifElse (blockTypeOf value) (thenCode ++ dropCode ++ thenMove) (elseCode ++ elseMove) ::
      (if value.isNever then [.unreachable] else [])

theorem choiceRun_of_runs {choice want code value}
    (runs : Runs (lowerChoice choice want) ctx work (code, value) next) :
    Nonempty (ChoiceRun ctx choice want work next code value) := by
  obtain ⟨cond, thenBlock, otherwise, span⟩ := choice
  unfold lowerChoice at runs
  obtain ⟨⟨conditionCode, conditionValue⟩, decided, decides, runs⟩ := runs.bind
  obtain ⟨isBool, runs⟩ := runs_expectScalar_bind.mp runs
  obtain ⟨_, _, reads, runs⟩ := runs.bind
  obtain ⟨rfl, rfl⟩ := runs_typeEnv.mp reads
  obtain ⟨slot?, slotted, slots, runs⟩ := runs.bind
  obtain ⟨checkpoint, _, marks, runs⟩ := runs.bind
  obtain ⟨branched, branches, rfl⟩ := runs_onFrame.mp marks
  obtain ⟨_, _, forks, runs⟩ := runs.bind
  obtain ⟨rfl, rfl⟩ := runs_fork.mp forks
  obtain ⟨⟨thenCode, thenResult⟩, thenEnd, thenRuns, runs⟩ := runs.bind
  dsimp only at runs
  obtain ⟨⟨dropCode, thenKept⟩, dropped, drops, runs⟩ := runs_bind.mp (runs_ite_bind.mp runs)
  obtain ⟨⟨thenMove, thenValue, resultSlot?⟩, thenSettled, settlesFirst, runs⟩ := runs.bind
  obtain ⟨_, _, rewinds, runs⟩ := runs.bind
  obtain ⟨rewound, rewindsFirst, rfl⟩ := runs_updateFrame.mp rewinds
  replace runs := runs_get_bind.mp runs
  obtain ⟨_, _, restores, runs⟩ := runs.bind
  obtain rfl := runs_restoreScopes.mp restores
  obtain ⟨_, _, forks, runs⟩ := runs.bind
  obtain ⟨rfl, rfl⟩ := runs_fork.mp forks
  obtain ⟨⟨elseCode, elseResult⟩, elseEnd, elseRuns, runs⟩ := runs.bind
  obtain ⟨⟨elseMove, elseValue⟩, elseSettled, settlesSecond, runs⟩ := runs.bind
  obtain ⟨_, _, rewinds, runs⟩ := runs.bind
  obtain ⟨rewoundTwice, rewindsSecond, rfl⟩ := runs_updateFrame.mp rewinds
  obtain ⟨_, _, unmarks, runs⟩ := runs.bind
  obtain ⟨restored, restores, rfl⟩ := runs_updateFrame.mp unmarks
  replace runs := runs_get_bind.mp runs
  obtain ⟨_, joined, joinsArms, runs⟩ := runs.bind
  obtain ⟨_, _, joins, runs⟩ := runs.bind
  obtain ⟨-, rfl⟩ := eq_of_joinValues joins
  obtain ⟨_, releases, rfl, rfl⟩ := runs.bindPair
  exact ⟨{
    conditionCode, conditionValue, decided, decides, isBool, slot?, slotted, slots
    branched, checkpoint, branches
    thenStart := _, thenStart_eq := rfl
    thenCode, thenResult, thenEnd, thenRuns, dropCode, thenKept, dropped, drops
    thenMove, thenValue, resultSlot?, thenSettled, settlesFirst, rewound, rewindsFirst
    elseStart := _, elseStart_eq := rfl
    elseCode, elseResult, elseEnd, elseRuns, elseMove, elseValue, elseSettled, settlesSecond
    rewoundTwice, rewindsSecond, restored, restores
    joined
    joined_eq := (runs_joinArms.mp joinsArms).symm
    joins, releases
    code_eq := rfl }⟩

/-! ## Functions -/

/-- Position of the first parameter that is written. -/
def firstParam (sig : Signature) : Nat :=
  if sig.result.any Ty.isStruct then 1 else 0

/-- The parameters of a function with their types. -/
def paramsOf (decl : FunctionDecl) (sig : Signature) : List (String × Ty) :=
  (decl.params.map fun param => param.name.name).zip sig.params

/-- The steps of lowering a function. -/
structure DeclarationRun (ctx : Context) (decl : FunctionDecl) (sig : Signature)
    (work next : Workspace) (body : Body) where
  bound : Workspace
  binds : Runs (bindParams (firstParam sig) decl.span (paramsOf decl sig)) ctx work
    () bound
  code : Code
  value : Value
  lowered : Workspace
  lowers : Runs (lowerBlock decl.body sig.result) ctx bound (code, value) lowered
  resultCode : Code
  gives : Runs (lowerResult value decl.body.span) ctx lowered resultCode next
  resolves : next.frame.resolve = (body.frame, .ok ())
  unfinished : next.locals.finished = false
  locals_eq : body.locals = { next.locals with finished := true }
  code_eq : body.code = prologue ctx.framePointer ++ code ++ resultCode ++
    epilogue ctx.framePointer

theorem declarationRun_of_runs (runs : Runs (lowerDeclaration decl sig) ctx work body next) :
    Nonempty (DeclarationRun ctx decl sig work next body) := by
  replace runs := runs_read_bind.mp runs
  obtain ⟨_, bound, binds, runs⟩ := runs.bind
  obtain ⟨⟨code, value⟩, lowered, lowers, runs⟩ := runs.bind
  obtain ⟨resultCode, last, gives, runs⟩ := runs.bind
  replace runs := runs_get_bind.mp runs
  rcases resolves : last.frame.resolve with ⟨frame, out⟩
  simp only [resolves] at runs
  obtain ⟨_, _, checks, runs⟩ := runs.bind
  obtain ⟨resolved, rfl⟩ := runs_check.mp checks
  obtain ⟨⟨locals, groups⟩, _, checks, runs⟩ := runs.bind
  obtain ⟨finishes, rfl⟩ := runs_check.mp checks
  obtain ⟨rfl, rfl⟩ := runs.pure
  have finished : last.locals.finished = false ∧
      locals = { last.locals with finished := true } := by
    unfold LocalPool.finish at finishes
    split at finishes
    · cases finishes
    · rename_i unfinished
      injection finishes with same
      exact ⟨by simpa using unfinished, (Prod.mk.inj same).1.symm⟩
  have success : out = .ok () := by
    cases out with
    | ok value => rfl
    | error cause => cases resolved
  exact ⟨{
    bound, binds, code, value, lowered, lowers, resultCode, gives
    resolves := by rw [resolves, success]
    unfinished := finished.1
    locals_eq := finished.2
    code_eq := rfl }⟩

/-- What lowering a function can see. Its frame pointer is the first local. -/
def functionContext (config : Config) (layouts : Layouts)
    (signatures : List (String × Option Signature)) (sig : Signature) : Context :=
  { file := config.sourceName
    layouts
    signature? := (signatures.lookup ·)
    framePointer := { type := .i32, place := .slot 0 }
    result := resultPlan sig.result }

/-- The state in which a function starts. -/
def functionStart (config : Config) (sig : Signature) : Workspace :=
  { locals := { LocalPool.new sig.wasmType.params with
      slots := #[{ type := .i32, inUse := true }] }
    frame := .new config.freePolicy config.stackAlignment.toNat
    arena := .empty
    scopes := [[]]
    requests := [] }

section Function

theorem lowerFunction_eq : lowerFunction config layouts signatures decl sig =
      match ((lowerDeclaration decl sig).run (functionContext config layouts signatures sig)).run
          (functionStart config sig) with
      | .ok body work => { body := .ok body, requests := work.requests }
      | .error fault work => { body := .error fault, requests := work.requests } :=
  rfl

theorem runs_of_lowerFunction
    (lowered : (lowerFunction config layouts signatures decl sig).body = .ok body) :
    ∃ next, Runs (lowerDeclaration decl sig)
        (functionContext config layouts signatures sig) (functionStart config sig) body next ∧
      (lowerFunction config layouts signatures decl sig).requests = next.requests := by
  rw [lowerFunction_eq] at lowered ⊢
  split at lowered
  · rename_i found next ended
    injection lowered with same
    subst same
    exact ⟨next, ended, rfl⟩
  · cases lowered

theorem stops_of_lowerFunction
    (refused : (lowerFunction config layouts signatures decl sig).body = .error fault) :
    Stops (lowerDeclaration decl sig)
      (functionContext config layouts signatures sig) (functionStart config sig)
      fault := by
  rw [lowerFunction_eq] at refused
  split at refused
  · cases refused
  · rename_i found next ended
    injection refused with same
    subst same
    exact ⟨next, ended⟩

end Function

end StructWasm.Lowering

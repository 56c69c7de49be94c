import StructWasm.Proofs.Scalar.Expressions

/-!
# Scalar choices are lowered to code that follows them

A choice becomes a branch, of which the machine takes the arm that evaluation takes.
Neither arm has ownership to bring together or a structure to move, so the code of the
arms is all that the branch has.
-/

namespace StructWasm.Lowering

open Follows Choice

open Wasm (Constant executeCode codeUsesFloat)

variable {ctx : Context} {next : Workspace} {value : Value}

/-! ## Values of arms -/

variable {condition : Expr} {thenBlock : Block}

theorem Value.IsPlain.discard (plain : value.IsPlain)
    (runs : Runs (discard value) ctx work dropCode next) :
    work = next ∧ ∀ {α : Type} {left : α → List Constant} {fits : α → Prop} {given : α}
      (placing : Placing) (scopes : List Scope) (result : Option Scalar),
      resultValue result = value → fits given → left given = [] →
        Follows placing scopes scopes (resultWords result) dropCode left fits (pure given) := by
  rcases plain with ⟨type, rfl⟩ | rfl
  · obtain ⟨rfl, rfl⟩ := runs.pure
    refine ⟨rfl, ?_⟩
    intro α left fits given placing scopes result fit fitGiven left_eq
    cases result with
    | none => cases fit
    | some value =>
      refine instr (.ok given) ?_ ?_ nofun
      · intro stack locals globals
        rw [Except.map, left_eq]
        rfl
      · rintro _ ⟨⟩
        exact fitGiven
  · obtain ⟨rfl, rfl⟩ := runs.pure
    refine ⟨rfl, ?_⟩
    intro α left fits given placing scopes result fit fitGiven left_eq
    cases result with
    | none => exact .pure fitGiven left_eq
    | some value => cases fit

variable {span : Span} {otherwise : Option Alternative}

theorem Value.IsPlain.settleFirst {slot? resultSlot? : Option ResultSlot} (plain : value.IsPlain)
    (runs : Runs (settleFirst value slot? span) ctx work (move, settled, resultSlot?) next) :
    move = [] ∧ settled = value ∧ work = next := by
  rcases plain with ⟨type, rfl⟩ | rfl <;>
  · obtain ⟨⟨rfl, settles⟩, rfl⟩ := runs.pair
    exact ⟨rfl, (Prod.mk.inj settles).1.symm, rfl⟩

theorem Value.IsPlain.settleSecond {slot? : Option ResultSlot} (plain : value.IsPlain)
    (runs : Runs (settleSecond value slot? span) ctx work (move, settled) next) :
    move = [] ∧ settled = value ∧ work = next := by
  rcases plain with ⟨type, rfl⟩ | rfl <;>
  · obtain ⟨⟨rfl, rfl⟩, rfl⟩ := runs.pair
    exact ⟨rfl, rfl, rfl⟩

theorem Value.IsPlain.joinValues (firstPlain : first.IsPlain) (secondPlain : second.IsPlain)
    (runs : Runs (joinValues first second span) ctx work value next) :
    first = value ∧ second = value := by
  rcases firstPlain with ⟨left, rfl⟩ | rfl <;> rcases secondPlain with ⟨right, rfl⟩ | rfl
  · unfold Lowering.joinValues at runs
    dsimp only at runs
    split at runs
    · rename_i same
      obtain ⟨rfl, -⟩ := runs.pure
      exact ⟨rfl, by rw [same]⟩
    · exact runs.fail
  · exact runs.fail
  · exact runs.fail
  · obtain ⟨rfl, -⟩ := runs.pure
    exact ⟨rfl, rfl⟩

/-! ## Choices -/

theorem Value.IsPlain.dropFirst (plain : value.IsPlain)
    (runs : Runs (if otherwise.isNone then dropArm value else pure ([], value)) ctx work
      (dropCode, kept) next) :
    work = next ∧ kept.IsPlain ∧
      ∀ (placing : Placing) (scopes : List Scope) (result : Option Scalar),
        resultValue result = value →
          Follows placing scopes scopes (resultWords result) dropCode resultWords
            (fun result => resultValue result = kept)
            (pure (if otherwise.isNone then none else result)) := by
  cases otherwise with
  | none =>
    have reached : ¬value.isNever = true := by
      rcases plain with ⟨type, rfl⟩ | rfl <;> exact Bool.false_ne_true
    rw [Option.isNone_none, if_pos rfl, dropArm, if_neg reached] at runs
    obtain ⟨_, drops, rfl, rfl⟩ := runs.bindPair
    obtain ⟨rfl, follows⟩ := plain.discard drops
    refine ⟨rfl, .inr rfl, ?_⟩
    intro placing scopes result fit
    exact follows placing scopes result fit rfl rfl
  | some alternative =>
    obtain ⟨⟨rfl, rfl⟩, rfl⟩ := runs.pair
    refine ⟨rfl, plain, ?_⟩
    intro placing scopes result fit
    exact .pure fit rfl

section

variable (scalar : isScalar { condition, thenBlock, otherwise, span } = true)
include scalar

/-- A branch between code that follows the arms of a choice follows the choice. -/
theorem follows_choice
    (decides : Follows placing scopes scopes [] conditionCode resultWords
      (fun result => resultValue result = .scalar .bool) (condition.eval (some .bool)))
    (hint_eq : hint = (ctx.types scopes).armHint? want
      { condition, thenBlock, otherwise, span })
    (thenFollows : Follows placing scopes scopes [] thenCode resultWords
      (fun result => resultValue result = value) (do
        let value ← thenBlock.eval hint
        return if otherwise.isNone then none else value))
    (elseFollows : Follows placing scopes scopes [] elseCode resultWords
      (fun result => resultValue result = value) (evalAlternative otherwise hint)) :
    Follows placing scopes scopes []
      (conditionCode ++ [.ifElse (blockTypeOf value) thenCode elseCode]) resultWords
      (fun result => resultValue result = value)
      (eval { condition, thenBlock, otherwise, span } want) := by
  subst hint_eq
  rw [eval]
  refine decides.bind fun result fit => truth fit fun holds => ?_
  refine ofGet _ ?_ (ifElse thenFollows elseFollows (fun _ => types_resultWords) holds)
  intro base env locals agrees
  rw [armHint?_eq (agrees.variableType?_eq ctx) scalar]

/-- A choice becomes a branch between its arms. -/
theorem correct_choice (conditionCorrect : ∀ want, Correct ctx (lowerExpr condition want)
      (condition.eval want))
    (thenCorrect : ∀ want, Correct ctx (lowerBlock thenBlock want) (thenBlock.eval want))
    (otherwiseCorrect : ∀ want, Correct ctx (lowerAlternative otherwise want)
      (evalAlternative otherwise want)) :
    Correct ctx (lowerChoice { condition, thenBlock, otherwise, span } want)
      (eval { condition, thenBlock, otherwise, span } want) := by
  intro work next code value plain runs floatFree
  obtain ⟨run⟩ := choiceRun_of_runs runs
  obtain ⟨conditionFree, branchFree⟩ := Wasm.floatFree_append.mp (run.code_eq ▸ floatFree)
  obtain ⟨thenFree, elseFree⟩ : codeUsesFloat run.thenCode = false ∧
      codeUsesFloat run.elseCode = false := by
    simp only [codeUsesFloat, Wasm.Instr.usesFloat, Wasm.codeUsesFloat_append,
      Bool.or_eq_false_iff] at branchFree
    exact ⟨branchFree.1.1.1.1, branchFree.1.2.1⟩
  -- the condition
  have decided := conditionCorrect _ plain run.decides conditionFree
  have isBool := decided.isPlain.scalar_of_isScalar run.isBool
  have slotted := (slotwise_choiceSlot _).isCalm run.slots
  -- the first arm
  have thenStart : Plain ctx { run.slotted with frame := run.branched } :=
    decided.plain.of_eq slotted.locals_eq slotted.scopes_eq
  have thenRuns := run.thenRuns
  rw [run.thenStart_eq, thenStart.forked_eq] at thenRuns
  have thenLowered := thenCorrect _ thenStart thenRuns thenFree
  obtain ⟨dropped_eq, keptPlain, dropFollows⟩ := thenLowered.isPlain.dropFirst run.drops
  obtain ⟨thenMove_eq, thenValue_eq, thenSettled_eq⟩ := keptPlain.settleFirst run.settlesFirst
  -- the second arm
  have elseStart : Plain ctx
      { run.thenSettled with frame := run.rewound, scopes := run.slotted.scopes } :=
    thenLowered.plain.of_eq (by rw [dropped_eq, thenSettled_eq]) thenLowered.scopes_eq.symm
  have elseRuns := run.elseRuns
  rw [run.elseStart_eq, elseStart.forked_eq] at elseRuns
  have elseLowered := otherwiseCorrect _ elseStart elseRuns elseFree
  obtain ⟨elseMove_eq, elseValue_eq, elseSettled_eq⟩ :=
    elseLowered.isPlain.settleSecond run.settlesSecond
  -- the arms together
  obtain ⟨thenJoins, elseJoins⟩ := Value.IsPlain.joinValues (thenValue_eq ▸ keptPlain)
    (elseValue_eq ▸ elseLowered.isPlain) run.joins
  have bothPlain : Plain ctx { run.elseSettled with frame := run.restored } :=
    elseLowered.plain.of_eq (by rw [elseSettled_eq]) (by rw [elseSettled_eq])
  have joined_eq : run.joined = { run.elseSettled with frame := run.restored } := by
    refine run.joined_eq.trans (bothPlain.joinedArms_eq ?_ rfl _ _)
    rw [← thenSettled_eq, ← dropped_eq, ← elseSettled_eq, thenLowered.scopes_eq,
      elseLowered.scopes_eq]
  have released := (slotwise_releaseUnused _ _).isCalm run.releases
  rw [joined_eq] at released
  have scopes_eq : next.scopes = work.scopes := by
    rw [released.scopes_eq, ← elseSettled_eq]
    exact elseLowered.scopes_eq.trans (slotted.scopes_eq.trans decided.scopes_eq)
  have growsDecided : run.decided.locals.Extends run.thenEnd.locals := by
    rw [← slotted.locals_eq]
    exact thenLowered.grows
  have growsElse : run.thenEnd.locals.Extends next.locals := by
    rw [released.locals_eq, ← elseSettled_eq, dropped_eq, thenSettled_eq]
    exact elseLowered.grows
  refine ⟨bothPlain.of_eq released.locals_eq released.scopes_eq, scopes_eq,
    decided.grows.trans (growsDecided.trans growsElse), ?_, ?_, ?_⟩
  · intro _
    obtain ⟨isOpen, _, _, -, -, -, -, restored_eq⟩ := Frame.Allocator.restore_ok run.restores
    rw [released.frame.resolved_eq, restored_eq]
    exact isOpen
  · rw [← elseJoins, elseValue_eq]
    exact elseLowered.isPlain
  · intro placing serves
    have servesElse : placing.Serves ctx run.elseEnd := by
      rw [elseSettled_eq]
      exact ⟨serves.framePointer_eq, released.locals_eq ▸ serves.locals⟩
    have decides := decided.follows placing (serves.of_extends (growsDecided.trans growsElse))
    have thenFollows := thenLowered.follows placing (serves.of_extends growsElse)
    have elseFollows := elseLowered.follows placing servesElse
    have starts_eq : run.slotted.scopes = work.scopes :=
      slotted.scopes_eq.trans decided.scopes_eq
    have notNever : ¬value.isNever = true := by
      rw [← elseJoins, elseValue_eq]
      rcases elseLowered.isPlain with ⟨type, same⟩ | same <;> rw [same] <;> exact Bool.false_ne_true
    rw [run.code_eq, if_neg notNever, thenMove_eq, elseMove_eq, List.append_nil, List.append_nil]
    rw [isBool] at decides
    change Follows placing run.slotted.scopes run.slotted.scopes _ _ _ _ _ at thenFollows
    change Follows placing run.slotted.scopes run.slotted.scopes _ _ _ _ _ at elseFollows
    rw [starts_eq] at thenFollows elseFollows
    have hint_eq : predictedType ctx run.decided.scopes
          { condition, thenBlock, otherwise, span } want =
        (ctx.types work.scopes).armHint? want
          { condition, thenBlock, otherwise, span } := by
      rw [predictedType_eq, decided.scopes_eq]
    refine follows_choice scalar decides hint_eq ?_ ?_
    · rw [thenValue_eq.symm.trans thenJoins] at dropFollows
      exact thenFollows.bind fun result fit => dropFollows placing work.scopes result fit
    · rw [elseValue_eq.symm.trans elseJoins] at elseFollows
      exact elseFollows

end

end StructWasm.Lowering

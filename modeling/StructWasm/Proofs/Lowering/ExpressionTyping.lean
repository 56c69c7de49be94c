import StructWasm.Proofs.Lowering.StatementTyping

/-!
# Typing calls, branches and loops

What the code of a call, of a logical operator and of a loop leaves on the stack, given
what its parts leave there.
-/

namespace StructWasm.Lowering

open Wasm

/-! ## Calls -/

/-- What lowering arguments came to: code that leaves them on the stack. -/
structure ArgumentTyping (ctx : Context) (work next : Workspace) (code : Code)
    (types : List Ty) : Prop where
  supported : Supported ctx next next.scopes
  grows : Grows work next
  leaves : ∀ ⦃around : Surroundings codeRefs⦄, Covers around ctx next →
    ∀ labels before,
      CodeTyped around labels code before ((types.map Ty.valType).reverse ++ before)

variable {next : Workspace}

theorem wasmType_of_resultSlot {result? : Option Temporary}
    (runs : Runs (resultSlot sig) ctx work result? next) : sig.wasmType.params =
        (if result?.isSome then [.i32] else []) ++ sig.params.map Ty.valType ∧
      ∀ {before after : StackType}, (callValue sig result?).Leaves before after →
        after = sig.wasmType.results.reverse ++ before := by
  unfold resultSlot at runs
  unfold Signature.wasmType
  split at runs
  · rename_i noResult
    obtain ⟨rfl, -⟩ := runs.pure
    simp [noResult, callValue, Value.Leaves]
  · rename_i type result
    split at runs
    · rename_i isStruct
      obtain ⟨⟨slot, address⟩, allocates, rfl⟩ := runs.bindPure
      simp [*, callValue, Temporary.value, Value.Leaves]
    · rename_i notStruct
      obtain ⟨rfl, -⟩ := runs.pure
      simp [result, notStruct, callValue, Value.Leaves]

/-- A call takes its arguments, after the address of its result if that is a structure,
and leaves its value. -/
theorem typed_call {result? : Option Temporary} (runs : Runs (resultSlot sig) ctx work result? next)
    (called : around.functionType? name = some sig.wasmType) (pushes : ∀ temp ∈ result?,
      CodeTyped around labels temp.address.push before (.i32 :: before))
    (passes : ∀ stack, CodeTyped around labels args stack
      ((sig.params.map Ty.valType).reverse ++ stack))
    (left : (callValue sig result?).Leaves before after) : CodeTyped around labels
      ((result?.map fun temp => temp.address.push).getD [] ++ args ++ [.call name])
      before after := by
  obtain ⟨params_eq, results_eq⟩ := wasmType_of_resultSlot runs
  obtain rfl := results_eq left
  have calls : CodeTyped around labels [.call name]
      (sig.wasmType.params.reverse ++ before) _ := .singleton (.call called)
  refine CodeTyped.append ?_ calls
  rw [params_eq]
  cases result? with
  | none => simpa using passes before
  | some temp => simpa using (pushes temp rfl).append (passes (.i32 :: before))

/-! ## Branches and loops -/

theorem grows_forked (loan : Option Ownership.Loan) (work : Workspace) :
    Grows work (forked loan work) :=
  ⟨.refl _, fun _ mem => mem, .refl _⟩

theorem grows_joinedOptional (saved : List Scope) (work : Workspace) :
    Grows work (joinedOptional saved work) :=
  ⟨.refl _, fun _ mem => mem, .refl _⟩

theorem Supported.forked (supported : Supported ctx work work.scopes)
    (loan : Option Ownership.Loan) :
    Supported ctx (forked loan work) (forked loan work).scopes := by
  apply supported.mono (grows_forked loan work)
  exact ScopesWithin.mono (grows_forked loan work) (supported.scopes.of_same
    (sameScopes_forkedScopes loan work.scopes work.arena)
    fun _ _ same within => within.of_same same)

theorem typed_logicalCode (op : BinaryOp)
    (typed : CodeTyped around ([.i32] :: labels) right [] [.i32]) :
    CodeTyped around labels (logicalCode op right) (.i32 :: stack) (.i32 :: stack) := by
  have constant (value : Int32) :
      CodeTyped around ([.i32] :: labels) [.const (.i32 value)] [] [.i32] := .singleton .const
  have branches {thenCode elseCode : Code}
      (thenTyped : CodeTyped around ([.i32] :: labels) thenCode [] [.i32])
      (elseTyped : CodeTyped around ([.i32] :: labels) elseCode [] [.i32]) :
      CodeTyped around labels [.ifElse (.value .i32) thenCode elseCode] (.i32 :: stack)
        (.i32 :: stack) :=
    .singleton (.ifElse thenTyped elseTyped)
  unfold logicalCode
  split
  · exact branches typed (constant 0)
  · exact branches (constant 1) typed

/-- A loop leaves the stack as it is: its condition is put on the empty stack and
taken by the branch that leaves the loop. -/
theorem typed_loop {around : Surroundings codeRefs} {cond body : Code}
    {labels : List StackType} {stack : StackType}
    (decides : CodeTyped around ([] :: [] :: labels) cond [] [.i32])
    (repeats : CodeTyped around ([] :: [] :: labels) body [] []) : CodeTyped around labels
      [.block .empty [.loop .empty
        (cond ++ [.numeric .i32Eqz, .branchIf 1] ++ body ++ [.branch 0])]] stack stack := by
  have leaves : InstrTyped around ([] :: [] :: labels) (.branchIf 1) (.i32 :: ([] ++ []))
      ([] ++ []) := .branchIf rfl
  have again : InstrTyped around ([] :: [] :: labels) (.branch 0) ([] ++ []) [] := .branch rfl
  have tests : CodeTyped around ([] :: [] :: labels) [.numeric .i32Eqz, .branchIf 1] [.i32] [] :=
    .cons .numeric (.singleton leaves)
  have round := ((decides.append tests).append repeats).append (.singleton again)
  exact .singleton (.block (.singleton (.loop round)))

end StructWasm.Lowering

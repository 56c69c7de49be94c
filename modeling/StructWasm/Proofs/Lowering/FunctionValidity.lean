import StructWasm.Proofs.Lowering.FunctionFrame
import StructWasm.Proofs.Lowering.ExpressionTyping
import StructWasm.Proofs.Wasm.Module

/-!
# Function bodies are valid

A body starts with the parameters in scope and ends with the result of the function.
Its code is valid against the types of the parameters, the declared locals and the
functions that it asked for.
-/

namespace StructWasm

theorem Signature.params_wasmType (sig : Signature) : sig.wasmType.params =
      (if sig.result.any Ty.isStruct then [.i32] else []) ++ sig.params.map Ty.valType := by
  unfold wasmType
  cases result : sig.result with
  | none => simp
  | some type => cases isStruct : type.isStruct <;> simp [isStruct]

namespace Lowering

open Wasm

variable {next : Workspace}

theorem valTypes_resultPlan (sig : Signature) :
    (resultPlan sig.result).valTypes = sig.wasmType.results := by
  unfold resultPlan Signature.wasmType
  cases result : sig.result with
  | none => rfl
  | some type => cases isStruct : type.isStruct <;> simp [isStruct, ResultPlan.valTypes]

theorem getElem?_paramsOf (found : (paramsOf decl sig)[index]? = some entry) :
    sig.wasmType.params[firstParam sig + index]? = some entry.2.valType := by
  have given : sig.params[index]? = some entry.2 := by
    obtain ⟨_, typed⟩ := List.getElem?_zip_eq_some.mp found
    exact typed
  rw [sig.params_wasmType, firstParam]
  cases sig.result.any Ty.isStruct with
  | false => simp [given]
  | true => simp [given, Nat.add_comm 1 index]

theorem localType?_index {locals : LocalPool} (finished : locals.finished = true) {ref : LocalRef}
    (has : locals.Has ref) :
    ((locals.index ref).get.mapError Fault.deferred).toOption.bind (fun index =>
      (locals.params ++ expandGroups locals.groups)[index]?) = some ref.type := by
  obtain ⟨type, place⟩ := ref
  cases place with
  | param pos =>
    have mem : locals.params[pos]? = some type := has
    have inside := (List.getElem?_eq_some_iff.mp mem).1
    simp [LocalPool.index, Deferred.get, Except.mapError, Except.toOption,
      List.getElem?_append_left inside, mem]
  | slot id =>
    have found := LocalPool.getElem?_slotIndex has
    simpa [LocalPool.index, Deferred.get, Except.mapError, Except.toOption, finished] using found

section Function

theorem supported_functionStart : Supported (functionContext config layouts signatures sig)
      (functionStart config sig) (functionStart config sig).scopes where
  framePointer := ⟨rfl, rfl⟩
  result := by
    intro type place plan
    have params_eq := sig.params_wasmType
    change resultPlan sig.result = .struct type place at plan
    unfold resultPlan at plan
    split at plan
    · cases plan
    · rename_i found result
      split at plan
      · rename_i isStruct
        injection plan with _ same
        subst same
        refine ⟨?_, rfl⟩
        change sig.wasmType.params[0]? = some .i32
        simp [params_eq, result, isStruct]
      · cases plan
  scopes := by
    intro scope inScopes entry inScope
    obtain rfl : scope = [] := by simpa [functionStart] using inScopes
    cases inScope

variable {mod : Module Body} {functionIndex : String → Except Fault Nat}

/-- A module that has a stack pointer, a memory and the functions that a body calls has
all that the body refers to. -/
theorem DeclarationRun.covers (run : DeclarationRun ctx decl sig work next body)
    (plan : ctx.result = resultPlan sig.result)
    (params_eq : work.locals.params = sig.wasmType.params) (grows : Grows work next)
    (proper : next.frame.Proper)
    (stackPointer : mod.globals[0]? = some { isMutable := true, initial := .i32 top })
    (memory : mod.memory?.isSome = true) (calls : ∀ name ∈ next.requests, ∀ callee,
      ctx.signature? name = some (some callee) →
        (functionIndex name).toOption.bind mod.typeAt? = some callee.wasmType) :
    Covers (mod.surroundings (body.resolver functionIndex fun .stackPointer => 0)
      sig.wasmType body.locals.groups) ctx next := by
  have locals_eq := run.locals_eq
  constructor
  · intro ref has
    have bodyParams : body.locals.params = sig.wasmType.params := by
      rw [locals_eq, ← params_eq]
      exact grows.locals.params_eq
    have kept : body.locals.Has ref := by
      rw [locals_eq]
      exact has
    have finished : body.locals.finished = true := by rw [locals_eq]
    have typed := localType?_index finished kept
    rw [bodyParams] at typed
    exact typed
  · change (mod.globals[0]?).map _ = _
    rw [stackPointer]
    rfl
  · exact calls
  · exact fun number within => run.isOk_base proper within _ _
  · exact memory
  · rw [plan]
    exact (valTypes_resultPlan sig).symm

end Function

end Lowering
end StructWasm

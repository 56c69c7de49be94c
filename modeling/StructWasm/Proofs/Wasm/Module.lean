import StructWasm.Proofs.Wasm.Numbering
import StructWasm.Proofs.Wasm.SignatureTable
import StructWasm.Proofs.Wasm.Typing

/-!
# Types of the functions of a module

Signatures are only added while a module is put together. Once all imports are known, a
function is found at its index.
-/

namespace StructWasm.Wasm

open List Option

namespace Module

variable {body : Type}

/-- Type of the function at an index. -/
def typeAt? (mod : Module body) (index : Nat) : Option FuncType :=
  (mod.imports.map Import.typeIndex ++ mod.functions.map Function.typeIndex)[index]?.bind
    fun typeIndex => mod.types[typeIndex]?

/-- The surroundings of the code of a function: what the numbers in it stand for once
they are looked up. -/
def surroundings {refs : Refs} (mod : Module body) (resolver : Resolver refs) (type : FuncType)
    (locals : List (Nat × ValType)) : Surroundings refs where
  localType? := fun name => (resolver.localIndex name).toOption.bind fun index =>
    (type.params ++ expandGroups locals)[index]?
  globalType? := fun name => (resolver.globalIndex name).toOption.bind fun index =>
    (mod.globals[index]?).map fun entry => (entry.initial.type, entry.isMutable)
  functionType? := fun name => (resolver.functionIndex name).toOption.bind mod.typeAt?
  isPlaced := fun place => (resolver.base place).isOk
  hasMemory := mod.memory?.isSome
  results := type.results

/-! ## Growth -/

theorem getElem?_of_prefix {α : Type} {short long : List α} (isPrefix : short <+: long)
    {index : Nat} {entry : α} (found : short[index]? = some entry) : long[index]? = some entry := by
  obtain ⟨rest, rfl⟩ := isPrefix
  rw [getElem?_append_left (List.getElem?_eq_some_iff.mp found).1]
  exact found

/-- Registering a signature keeps those before it, and gives the index of the signature. -/
theorem registerType_spec (mod : Module body) (type : FuncType) :
    mod.types <+: (mod.registerType type).1.types ∧
      (mod.registerType type).1.types[(mod.registerType type).2]? = some type := by
  rw [registerType, mod.lookup_positions]
  split
  · rename_i pos found
    obtain ⟨inside, same, -⟩ := findIdx?_eq_some_iff_getElem.mp found
    refine ⟨prefix_rfl, ?_⟩
    rw [getElem?_eq_getElem inside]
    simpa using same
  · exact ⟨prefix_append _ _, getElem?_concat_length⟩

end Module
end StructWasm.Wasm

import StructWasm.Proofs.Wasm.Reading
import StructWasm.Wasm.Module

/-!
# Signatures under their bytes

The positions of signatures are kept under the bytes that stand for them. The bytes of a
signature are read back as the signature, so a search for its bytes finds the signature itself.
-/

namespace StructWasm

open List

/-- In a list of entries with their places, a search finds the place of the first entry. -/
theorem lookup_mapIdx {κ α β : Type} [BEq κ] [LawfulBEq κ] (keyOf : α → κ) (entries : List α)
    (key : κ) (place : Nat → β) :
    (entries.mapIdx fun pos entry => (keyOf entry, place pos)).lookup key =
      (entries.findIdx? fun entry => keyOf entry == key).map place := by
  induction entries generalizing place with
  | nil => rfl
  | cons entry entries ih =>
    rw [mapIdx_cons, lookup_cons, findIdx?_cons]
    by_cases here : keyOf entry = key
    · simp [here]
    · rw [beq_eq_false_iff_ne.mpr (Ne.symm here), beq_eq_false_iff_ne.mpr here]
      simp only [Bool.false_eq_true, if_false]
      rw [ih fun pos => place (pos + 1), Option.map_map]
      rfl

namespace Wasm

/-- Different signatures have different bytes. -/
theorem FuncType.encode_injective : Function.Injective FuncType.encode := by
  intro type other same
  have first := Reader.reads_funcType type []
  have second := Reader.reads_funcType other []
  rw [same, second] at first
  exact (congrArg Prod.fst (Option.some.inj first)).symm

namespace SignatureTable

def ofTypes (types : List FuncType) : SignatureTable :=
  { types, positions := _, inStep := rfl }

/-- A table is given by its signatures. -/
theorem eq_ofTypes (table : SignatureTable) : table = ofTypes table.types := by
  obtain ⟨types, positions, rfl⟩ := table
  rfl

/-- Searching for the bytes of a signature finds the signature. -/
theorem lookup_positions (table : SignatureTable) (type : FuncType) :
    table.positions.lookup type.encode = table.types.idxOf? type := by
  rw [table.inStep]
  refine (lookup_mapIdx FuncType.encode _ _ id).trans ?_
  rw [Option.map_id_apply, idxOf?]
  congr
  funext other
  rw [Bool.eq_iff_iff, beq_iff_eq, beq_iff_eq, FuncType.encode_injective.eq_iff]

end SignatureTable

end Wasm
end StructWasm

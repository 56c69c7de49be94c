import StructWasm.Proofs.Wasm.Module
import StructWasm.Proofs.Wasm.Registration

/-!
# Indices of signatures

Signatures are told apart by their bytes. Whatever calls build a module, its table lists no
signature twice, the index that a call gets for a signature stands for this signature from then
on, and two calls get the same index exactly if their signatures are equal.
-/

namespace StructWasm.Wasm.Module

open List Registration

variable {body : Type} {mod : Module body} {call : Registration body} {type : FuncType}

/-- The index of a signature that a call returns, or stores with its function. -/
def typeIndex? (mod : Module body) : Registration body → Option Nat
  | .registerType type => some (mod.registerType type).2
  | .importFunction moduleName name type =>
    (mod.importFunction moduleName name type).1.imports.getLast?.map Import.typeIndex
  | .createFunction name type =>
    (mod.createFunction name type).1.functions.getLast?.map Function.typeIndex
  | _ => none

theorem typeIndex?_eq (registers : call.signature? = some type) :
    mod.typeIndex? call = some (mod.registerType type).2 := by
  cases call <;> cases registers <;> simp [typeIndex?, importFunction, createFunction]

/-- A call changes the table only by the signature that it registers. -/
theorem types_register (mod : Module body) (call : Registration body) : (mod.register call).types =
      call.signature?.elim mod.types fun type => (mod.registerType type).1.types := by
  cases call with
  | defineFunction function data =>
    rw [register_define]
    rfl
  | addMemory minimum maximum =>
    rw [register_memory]
    rfl
  | addGlobal type isMutable initial =>
    rw [register, addGlobal]
    split <;> rfl
  | addExport name target =>
    rw [register, addExport]
    split <;> rfl
  | _ => rfl

theorem nodup_registerType (distinct : mod.types.Nodup) (type : FuncType) :
    (mod.registerType type).1.types.Nodup := by
  rw [registerType, mod.lookup_positions]
  split
  · exact distinct
  · rename_i absent
    show (mod.types ++ [type]).Nodup
    exact nodup_append_comm.mp (nodup_cons.mpr ⟨idxOf?_eq_none_iff.mp absent, distinct⟩)

/-- One call keeps the signatures distinct and where they are. -/
theorem types_step (mod : Module body) (call : Registration body) :
    mod.types <+: (mod.register call).types ∧
      (mod.types.Nodup → (mod.register call).types.Nodup) := by
  rw [types_register]
  cases call.signature? with
  | none => exact ⟨prefix_rfl, id⟩
  | some type =>
    exact ⟨(registerType_spec mod type).1, fun distinct => nodup_registerType distinct type⟩

/-- So do all calls of a run. -/
theorem types_run (mod : Module body) (calls : List (Registration body)) :
    mod.types <+: (calls.foldl register mod).types ∧
      (mod.types.Nodup → (calls.foldl register mod).types.Nodup) := by
  induction calls generalizing mod with
  | nil => exact ⟨prefix_rfl, id⟩
  | cons call calls ih =>
    have step := types_step mod call
    have run := ih (mod.register call)
    exact ⟨step.1.trans run.1, run.2 ∘ step.2⟩

theorem build_grows (embed : Bool) {calls more : List (Registration body)}
    (isPrefix : calls <+: more) : (build embed calls).types <+: (build embed more).types := by
  obtain ⟨rest, rfl⟩ := isPrefix
  rw [build, build, foldl_append]
  exact (types_run _ rest).1

theorem build_nodup (embed : Bool) (calls : List (Registration body)) :
    (build embed calls).types.Nodup :=
  (types_run _ calls).2 nodup_nil

/-- The index that a call gets stands for its signature in the table, then and later. -/
theorem exists_typeIndex (embed : Bool) {calls : List (Registration body)}
    (called : calls[pos]? = some call) (registers : call.signature? = some type) :
    ∃ index, (build embed (calls.take pos)).typeIndex? call = some index ∧
      ∀ count, pos < count → (build embed (calls.take count)).types[index]? = some type := by
  refine ⟨_, typeIndex?_eq registers, fun count later => ?_⟩
  refine getElem?_of_prefix (build_grows embed (take_prefix_take_left later)) ?_
  have step : (build embed (calls.take (pos + 1))).types =
      ((build embed (calls.take pos)).registerType type).1.types := by
    rw [take_add_one, called, build, foldl_append]
    exact (types_register _ call).trans (by rw [registers]; rfl)
  rw [step]
  exact (registerType_spec _ type).2

/-- The table of signatures after any calls: no signature is listed twice, every call gets an
index that stands for its signature from then on, two calls get the same index exactly if their
signatures are equal, and signatures are equal if their bytes are. -/
theorem signatures_indexed (embed : Bool) (calls : List (Registration body)) :
    (build embed calls).types.Nodup ∧
      (∀ position call type, calls[position]? = some call → call.signature? = some type →
        ∃ index, (build embed (calls.take position)).typeIndex? call = some index ∧
          ∀ count, position < count →
            (build embed (calls.take count)).types[index]? = some type) ∧
      (∀ first firstCall firstType second secondCall secondType,
        calls[first]? = some firstCall → firstCall.signature? = some firstType →
        calls[second]? = some secondCall → secondCall.signature? = some secondType →
        ((build embed (calls.take first)).typeIndex? firstCall =
          (build embed (calls.take second)).typeIndex? secondCall ↔ firstType = secondType)) ∧
      ∀ type other : FuncType, type.encode = other.encode → type = other := by
  refine ⟨build_nodup embed calls, fun _ _ _ => exists_typeIndex embed, ?_,
    fun _ _ same => FuncType.encode_injective same⟩
  intro first firstCall firstType second secondCall secondType called registers calledToo
    registersToo
  obtain ⟨index, index_eq, stands⟩ := exists_typeIndex embed called registers
  obtain ⟨other, other_eq, standsToo⟩ := exists_typeIndex embed calledToo registersToo
  have here := stands (first + second + 1) (by omega)
  have there := standsToo (first + second + 1) (by omega)
  rw [index_eq, other_eq, Option.some_inj]
  constructor
  · rintro rfl
    exact Option.some.inj (here.symm.trans there)
  · rintro rfl
    exact (getElem?_inj (List.getElem?_eq_some_iff.mp here).1 (build_nodup embed _)).mp
      (here.trans there.symm)

/-- A function of a registered signature shares its index, and one of another signature between
them does not. -/
theorem signatures_indexed_shared :
    (@build Unit false []).typeIndex? (.registerType ⟨[.i32], []⟩) =
        (@build Unit false [.registerType ⟨[.i32], []⟩,
          .importFunction "m" "f" ⟨[], [.i32]⟩]).typeIndex? (.createFunction "g" ⟨[.i32], []⟩) ∧
      (@build Unit false []).typeIndex? (.registerType ⟨[.i32], []⟩) ≠
        (@build Unit false [.registerType ⟨[.i32], []⟩]).typeIndex?
          (.importFunction "m" "f" ⟨[], [.i32]⟩) := by
  have indexed := (@signatures_indexed Unit false [.registerType ⟨[.i32], []⟩,
    .importFunction "m" "f" ⟨[], [.i32]⟩, .createFunction "g" ⟨[.i32], []⟩]).2.2.1
  exact ⟨(indexed 0 _ _ 2 _ _ rfl rfl rfl rfl).mpr rfl,
    fun same => absurd ((indexed 0 _ _ 1 _ _ rfl rfl rfl rfl).mp same) (by decide)⟩

end StructWasm.Wasm.Module

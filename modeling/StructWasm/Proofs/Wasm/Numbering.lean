import StructWasm.Proofs.Outcome
import StructWasm.Wasm.Numbering

/-!
# Cells that are set

Setting the cells of a module gives every reference one index: imports get their places,
other functions their places after all imports, globals their places. It fails only if
there are too many of them.
-/

namespace StructWasm

open List

/-- A number that fits passes, and the value does not matter. -/
@[simp] theorem Limit.check_eq_ok {what value passed} :
    Limit.check what value = .ok passed ↔ value < 0x100000000 := by
  unfold Limit.check
  split <;> simp_all

/-- A fault says that a number does not fit. -/
def Fault.TooLarge (fault : Fault) : Prop :=
  ∃ what value, 0x100000000 ≤ value ∧ fault = .limit (.exceeded what value)

theorem Limit.failsOnly_check (what : String) (value : Nat) :
    FailsOnly Fault.TooLarge (Limit.check what value) := by
  intro fault failed
  unfold Limit.check at failed
  split at failed
  · cases failed
  · rename_i large
    injection failed with same
    exact ⟨what, value, Nat.le_of_not_lt large, same.symm⟩

theorem bind_pure_eq_ok {ε α β : Type} {first : Except ε α} {change : α → β} {result} :
    (first >>= fun value => pure (change value)) = .ok result ↔
      ∃ value, first = .ok value ∧ change value = result := by
  simp only [bind_eq_ok, pure_eq_ok]

namespace Wasm

variable {cells : IndexCells}

theorem IndexCells.read_cell :
    (cells.cell reference).read = .ok index ↔ cells.lookup reference = some index := by
  simp only [cell, Deferred.read, Deferred.get]
  cases cells.lookup reference <;> simp [Except.mapError]

namespace CellUpdate

theorem set_eq (unset : reference ∉ cells.map Prod.fst) (index : Nat) :
    set reference index cells = .ok () ((reference, index) :: cells) := by
  have missing : cells.lookup reference = none := by
    rw [lookup_eq_none_iff]
    intro entry mem
    exact bne_iff_ne.mpr fun same => unset (same ▸ mem_map_of_mem mem)
  simp [set, IndexCells.cell, Deferred.resolve, missing]

variable {next : Nat}

/-- Functions that have no index get the indices from the next one on, unless there are
too many. -/
theorem numberFunctions_spec (distinct : functions.Nodup)
    (unset : ∀ function ∈ functions, .function function ∉ cells.map Prod.fst)
    (small : next < 0x100000000) :
    next + functions.length < 0x100000000 ∧ numberFunctions next functions cells =
        .ok () (((functions.map .function).zipIdx next).reverse ++ cells) ∨
      0x100000000 ≤ next + functions.length ∧ ∃ final,
        numberFunctions next functions cells = .error (.limit .functionCount) final := by
  induction functions generalizing next cells with
  | nil => exact .inl ⟨small, rfl⟩
  | cons function rest ih =>
    rw [nodup_cons] at distinct
    rw [forall_mem_cons] at unset
    have still : ∀ other ∈ rest,
        .function other ∉ ((.function function, next) :: cells : IndexCells).map Prod.fst := by
      intro other mem
      have ne := ne_of_mem_of_not_mem mem distinct.1
      simpa [ne] using unset.2 other mem
    rw [numberFunctions, length_cons, Nat.add_comm rest.length, ← Nat.add_assoc]
    change _ ∧ EStateM.bind _ _ cells = _ ∨ _ ∧ ∃ final, EStateM.bind _ _ cells = _
    rw [EStateM.bind, set_eq unset.1]
    dsimp only
    split
    · rename_i smaller
      rw [map_cons, zipIdx_cons, reverse_cons, append_assoc]
      exact ih distinct.2 still smaller
    · exact .inr ⟨by omega, _, rfl⟩

/-- Globals that have no index get their positions, unless one is too large. -/
theorem numberGlobals_spec (distinct : positions.Nodup)
    (unset : ∀ position ∈ positions, .global position ∉ cells.map Prod.fst) :
    (∀ position ∈ positions, position < 0x100000000) ∧ numberGlobals positions cells =
        .ok () ((positions.map fun position => (.global position, position)).reverse ++ cells) ∨
      ∃ position ∈ positions, 0x100000000 ≤ position ∧ ∃ final, numberGlobals positions cells =
        .error (.limit (.exceeded "global index" position)) final := by
  induction positions generalizing cells with
  | nil => exact .inl ⟨forall_mem_nil _, rfl⟩
  | cons position rest ih =>
    rw [nodup_cons] at distinct
    rw [forall_mem_cons] at unset
    have still : ∀ other ∈ rest,
        .global other ∉ ((.global position, position) :: cells : IndexCells).map Prod.fst := by
      intro other mem
      have ne := ne_of_mem_of_not_mem mem distinct.1
      simpa [ne] using unset.2 other mem
    rw [numberGlobals, forall_mem_cons, exists_mem_cons_iff]
    split
    · rename_i small
      change _ ∧ EStateM.bind _ _ cells = _ ∨ _ ∨ ∃ other ∈ rest, _ ∧ ∃ final,
        EStateM.bind _ _ cells = _
      rw [EStateM.bind, set_eq unset.1, map_cons, reverse_cons, append_assoc]
      dsimp only
      rcases ih distinct.2 still with ⟨others, done⟩ | failed
      · exact .inl ⟨⟨small, others⟩, done⟩
      · exact .inr (.inr failed)
    · rename_i large
      exact .inr (.inl ⟨Nat.le_of_not_lt large, _, rfl⟩)

end CellUpdate

namespace Module

open CellUpdate

variable {body : Type} {mod : Module body}

/-- The place of a function, imports first. -/
def functionIndex (mod : Module body) : FunctionRef → Nat
  | .imported pos => pos
  | .defined pos => mod.imports.length + pos

/-- A module has not too many functions and globals. -/
structure Countable (mod : Module body) : Prop where
  functions : mod.imports.length + mod.functions.length < 0x100000000
  globals : mod.globals.length ≤ 0x100000000

/-- The cells with the places of all references. -/
def numbered (mod : Module body) : IndexCells :=
  ((range mod.globals.length).map fun pos => (Reference.global pos, pos)).reverse ++
    ((if mod.memory?.isSome then [(.memory, 0)] else []) ++
      (mod.references.map Reference.function).zipIdx.reverse)

theorem nodup_references (mod : Module body) : mod.references.Nodup := by
  refine nodup_append.mpr ⟨?_, ?_, ?_⟩
  · exact nodup_range.map fun _ _ same => FunctionRef.imported.inj same
  · exact nodup_range.map fun _ _ same => FunctionRef.defined.inj same
  · rintro _ imported _ defined rfl
    obtain ⟨_, -, rfl⟩ := mem_map.mp imported
    obtain ⟨_, -, impossible⟩ := mem_map.mp defined
    cases impossible

theorem length_references (mod : Module body) :
    mod.references.length = mod.imports.length + mod.functions.length := by
  simp [references]

@[simp] theorem imported_mem_references {pos} :
    .imported pos ∈ mod.references ↔ pos < mod.imports.length := by
  simp [references]

@[simp] theorem defined_mem_references {pos} :
    .defined pos ∈ mod.references ↔ pos < mod.functions.length := by
  simp [references]

/-- All cells are set, unless there are too many. -/
theorem linearize_spec (mod : Module body) :
    mod.Countable ∧ mod.linearize [] = .ok () mod.numbered ∨
      ¬mod.Countable ∧ ∃ cause final, mod.linearize [] = .error (.limit cause) final := by
  have globals {cells : IndexCells}
      (few : mod.imports.length + mod.functions.length < 0x100000000)
      (unset : ∀ position ∈ range mod.globals.length, .global position ∉ cells.map Prod.fst)
      (all : ((range mod.globals.length).map fun pos => (Reference.global pos, pos)).reverse ++
        cells = mod.numbered) :
      mod.Countable ∧ numberGlobals (range mod.globals.length) cells = .ok () mod.numbered ∨
        ¬mod.Countable ∧ ∃ cause final,
          numberGlobals (range mod.globals.length) cells = .error (.limit cause) final := by
    rcases numberGlobals_spec nodup_range unset with
      ⟨small, done⟩ | ⟨pos, mem, large, final, failed⟩
    · refine .inl ⟨⟨few, Nat.le_of_not_lt fun many => ?_⟩, done.trans (congrArg _ all)⟩
      exact absurd (small _ (mem_range.mpr many)) (lt_irrefl _)
    · have inside := mem_range.mp mem
      exact .inr ⟨fun countable => by have := countable.globals; omega, _, final, failed⟩
  unfold linearize
  change _ ∧ EStateM.bind _ _ _ = _ ∨ _ ∧ ∃ cause final, EStateM.bind _ _ _ = _
  rw [EStateM.bind]
  rcases @numberFunctions_spec [] 0 _ mod.nodup_references (by simp) (by decide) with
    ⟨few, done⟩ | ⟨many, final, failed⟩
  · rw [length_references, Nat.zero_add] at few
    rw [done, append_nil]
    dsimp only
    cases memory : mod.memory?.isSome with
    | true =>
      rw [if_pos rfl]
      change _ ∧ EStateM.bind (set .memory 0) _ _ = _ ∨ _ ∧ ∃ cause final,
        EStateM.bind (set .memory 0) _ _ = _
      rw [EStateM.bind, set_eq (by simp [zipIdx_map_fst])]
      exact globals few (by simp [zipIdx_map_fst]) (by rw [numbered, memory]; rfl)
    | false =>
      rw [if_neg Bool.false_ne_true]
      exact globals few (by simp [zipIdx_map_fst]) (by rw [numbered, memory]; rfl)
  · rw [length_references, Nat.zero_add] at many
    rw [failed]
    exact .inr ⟨fun countable => absurd countable.functions (Nat.not_lt_of_le many), _, _, rfl⟩

theorem linearize_eq (few : mod.Countable) : mod.linearize [] = .ok () mod.numbered :=
  (mod.linearize_spec.resolve_right fun failed => failed.1 few).2

theorem countable_of_linearize {set cells} (numbered : mod.linearize [] = .ok set cells) :
    mod.Countable ∧ cells = mod.numbered := by
  rcases mod.linearize_spec with ⟨few, done⟩ | ⟨-, _, _, failed⟩
  · rw [done] at numbered
    injection numbered with _ cells_eq
    exact ⟨few, cells_eq.symm⟩
  · rw [failed] at numbered
    cases numbered

theorem getElem?_references {index : Nat} {function} : mod.references[index]? = some function ↔
      function ∈ mod.references ∧ mod.functionIndex function = index := by
  constructor
  · intro found
    refine ⟨mem_of_getElem? found, ?_⟩
    rw [references, getElem?_append, length_map, length_range] at found
    split at found
    · rename_i inside
      rw [getElem?_map, getElem?_range inside] at found
      cases found
      rfl
    · rw [getElem?_map, Option.map_eq_some_iff] at found
      obtain ⟨pos, found, rfl⟩ := found
      obtain ⟨_, pos_eq⟩ := List.getElem?_eq_some_iff.mp found
      rw [getElem_range] at pos_eq
      rw [functionIndex]
      omega
  · rintro ⟨mem, rfl⟩
    cases function with
    | imported pos =>
      have inside := imported_mem_references.mp mem
      rw [references, functionIndex, getElem?_append_left (by simpa using inside), getElem?_map,
        getElem?_range inside, Option.map_some]
    | defined pos =>
      have inside := defined_mem_references.mp mem
      rw [references, functionIndex, getElem?_append_right (by simp), length_map, length_range,
        Nat.add_sub_cancel_left, getElem?_map, getElem?_range inside, Option.map_some]

theorem read_numbered : (mod.numbered.cell reference).read = .ok index ↔
      (reference, index) ∈ mod.numbered := by
  have distinct : (mod.numbered.map Prod.fst).Nodup := by
    have functions := mod.nodup_references.map fun _ _ => Reference.function.inj
    have globals := (@nodup_range mod.globals.length).map fun _ _ => Reference.global.inj
    rw [numbered, map_append, map_append, map_reverse, map_reverse, zipIdx_map_fst, map_map]
    have keys : (Prod.fst ∘ fun pos => (Reference.global pos, pos)) = Reference.global := rfl
    rw [keys]
    cases mod.memory?.isSome <;> simp [nodup_append, functions, globals]
  rw [IndexCells.read_cell, lookup_eq_some_iff_mem distinct]

/-- A cell holds the place of its function. -/
theorem read_function : (mod.numbered.function function).read = .ok index ↔
      function ∈ mod.references ∧ mod.functionIndex function = index := by
  refine read_numbered.trans ?_
  rw [← getElem?_references, numbered]
  cases mod.memory?.isSome <;> simp [mk_mem_zipIdx_iff_getElem?]

theorem read_global : (mod.numbered.global pos).read = .ok index ↔
      pos < mod.globals.length ∧ pos = index := by
  refine read_numbered.trans ?_
  rw [numbered]
  cases mod.memory?.isSome <;> simp [mk_mem_zipIdx_iff_getElem?, and_comm, eq_comm]

theorem read_memory : mod.numbered.memory.read = .ok index ↔
      mod.memory?.isSome = true ∧ index = 0 := by
  refine read_numbered.trans ?_
  rw [numbered]
  cases mod.memory?.isSome <;> simp [mk_mem_zipIdx_iff_getElem?]

end Module
end Wasm
end StructWasm

import StructWasm.Proofs.Outcome
import StructWasm.Ownership.Shape

/-!
# Leaves of a shape

The leaves of a value are named by the fields that lead to them. If the fields of
every part have different names, then a path leads to one leaf only.
-/

namespace StructWasm

open List

variable {α : Type} {entries : List (String × α)}

theorem isSome_lookup_iff : (entries.lookup name).isSome = true ↔ name ∈ entries.map Prod.fst := by
  rw [lookup_isSome_iff, mem_map]
  simp only [beq_iff_eq, @eq_comm _ name]

theorem lookup_map {β : Type} (change : String → α → β) (entries : List (String × α))
    (name : String) : (entries.map fun entry => (entry.1, change entry.1 entry.2)).lookup name =
      (entries.lookup name).map (change name) := by
  induction entries with
  | nil => rfl
  | cons entry entries ih =>
    rw [map_cons, lookup_cons, lookup_cons]
    cases here : name == entry.1 with
    | true =>
      obtain rfl := beq_iff_eq.mp here
      rfl
    | false => exact ih

namespace Shape

/-! ## Distinct names -/

mutual

/-- The fields of every part have different names. -/
def Distinct : Shape → Prop
  | .composite fields => (fields.map Prod.fst).Nodup ∧ FieldsDistinct fields
termination_by structural shape => shape

/-- Names are different in all the shapes of some fields. -/
def FieldsDistinct : List (String × Shape) → Prop
  | [] => True
  | (_, shape) :: rest => shape.Distinct ∧ FieldsDistinct rest
termination_by structural fields => fields

end

theorem fieldsDistinct_iff {fields} :
    FieldsDistinct fields ↔ ∀ field ∈ fields, field.2.Distinct := by
  induction fields with
  | nil => simp [FieldsDistinct]
  | cons field fields ih => simp [FieldsDistinct, ih]

variable {shape : Shape} {name : String}

theorem Distinct.names (distinct : shape.Distinct) : (shape.fields.map Prod.fst).Nodup := by
  cases shape
  exact distinct.1

theorem Distinct.field (distinct : shape.Distinct) {field} (mem : field ∈ shape.fields) :
    field.2.Distinct := by
  cases shape
  exact fieldsDistinct_iff.mp distinct.2 field mem

variable {selects : List String → Bool}

theorem Distinct.field?_eq_some_iff {shape : Shape} (distinct : shape.Distinct) :
    shape.field? name = some part ↔ (name, part) ∈ shape.fields :=
  lookup_eq_some_iff_mem distinct.names

/-! ## Leaves -/

mutual

/-- Paths to the leaves of a shape, in the order of declaration. -/
def leaves : Shape → List (List String)
  | .composite fields => if fields.isEmpty then [[]] else fieldLeaves fields
termination_by structural shape => shape

/-- Paths to the leaves of some fields. -/
def fieldLeaves : List (String × Shape) → List (List String)
  | [] => []
  | (name, shape) :: rest => shape.leaves.map (name :: ·) ++ fieldLeaves rest
termination_by structural fields => fields

end

theorem fieldLeaves_eq (fields : List (String × Shape)) :
    fieldLeaves fields = fields.flatMap fun field => field.2.leaves.map (field.1 :: ·) := by
  induction fields with
  | nil => rfl
  | cons field fields ih =>
    rw [fieldLeaves, flatMap_cons, ih]

theorem leaves_of_isLeaf (isLeaf : shape.fields = []) : shape.leaves = [[]] := by
  cases shape with
  | composite fields =>
    obtain rfl : fields = [] := isLeaf
    rfl

theorem leaves_of_fields (hasFields : shape.fields ≠ []) :
    shape.leaves = shape.fields.flatMap fun field => field.2.leaves.map (field.1 :: ·) := by
  cases shape with
  | composite fields =>
    have nonempty : fields.isEmpty = false := by simpa [Shape.fields] using hasFields
    rw [leaves, nonempty, ← fieldLeaves_eq]
    rfl

theorem cons_mem_leaves :
    name :: rest ∈ shape.leaves ↔ ∃ part, (name, part) ∈ shape.fields ∧ rest ∈ part.leaves := by
  by_cases isLeaf : shape.fields = []
  · simp [leaves_of_isLeaf isLeaf, isLeaf]
  · rw [leaves_of_fields isLeaf]
    simp

theorem nil_mem_leaves {shape : Shape} : [] ∈ shape.leaves ↔ shape.fields = [] := by
  by_cases isLeaf : shape.fields = []
  · simp [leaves_of_isLeaf isLeaf, isLeaf]
  · simp [leaves_of_fields isLeaf, isLeaf]

mutual

variable {motive : Shape → Prop}

theorem induct (step : ∀ shape : Shape, (∀ field ∈ shape.fields, motive field.2) → motive shape) :
    (shape : Shape) → motive shape
  | .composite fields => step _ (inductFields step fields)

theorem inductFields
    (step : ∀ shape : Shape, (∀ field ∈ shape.fields, motive field.2) → motive shape) :
    (fields : List (String × Shape)) → ∀ field ∈ fields, motive field.2
  | [] => nofun
  | (_, shape) :: rest => by
    intro field mem
    rcases mem_cons.mp mem with rfl | mem
    · exact induct step shape
    · exact inductFields step rest field mem

end

theorem leaves_ne_nil (shape : Shape) : shape.leaves ≠ [] := by
  refine induct (motive := fun shape => shape.leaves ≠ []) ?_ shape
  intro shape ih
  cases fields_eq : shape.fields with
  | nil => simp [leaves_of_isLeaf fields_eq]
  | cons field rest =>
    have mem : field ∈ shape.fields := by simp [fields_eq]
    rw [leaves_of_fields (by simp [fields_eq]), fields_eq, flatMap_cons]
    simp [ih field mem]

theorem nodup_leaves (distinct : shape.Distinct) : shape.leaves.Nodup := by
  refine induct (motive := fun shape => shape.Distinct → shape.leaves.Nodup) ?_ shape distinct
  intro shape ih distinct
  by_cases isLeaf : shape.fields = []
  · rw [leaves_of_isLeaf isLeaf]
    exact nodup_singleton _
  · rw [leaves_of_fields isLeaf, nodup_flatMap]
    constructor
    · intro field mem
      exact (ih field mem (distinct.field mem)).map cons_injective
    · refine (pairwise_map.mp distinct.names).imp fun {left right} differs => ?_
      intro leaf inLeft inRight
      obtain ⟨_, -, rfl⟩ := mem_map.mp inLeft
      obtain ⟨_, -, same⟩ := mem_map.mp inRight
      exact differs (cons.inj same).1.symm

theorem filter_fieldLeaves (within : ∀ leaf, selects leaf = true → ∃ rest, leaf = name :: rest)
    {fields : List (String × Shape)} (names : (fields.map Prod.fst).Nodup)
    (mem : (name, part) ∈ fields) :
    (fields.flatMap fun field => (field.2.leaves.map (field.1 :: ·)).filter selects) =
      (part.leaves.filter fun rest => selects (name :: rest)).map (name :: ·) := by
  have other : ∀ field : String × Shape, field.1 ≠ name →
      (field.2.leaves.map (field.1 :: ·)).filter selects = [] := by
    intro field differs
    refine filter_eq_nil_iff.mpr fun leaf inField selected => ?_
    obtain ⟨_, -, rfl⟩ := mem_map.mp inField
    obtain ⟨_, same⟩ := within _ selected
    exact differs (cons.inj same).1
  induction fields with
  | nil => cases mem
  | cons field fields ih =>
    rw [map_cons, nodup_cons] at names
    rw [flatMap_cons]
    rcases mem_cons.mp mem with rfl | mem
    · have rest : (fields.flatMap fun field =>
          (field.2.leaves.map (field.1 :: ·)).filter selects) = [] := by
        refine flatMap_eq_nil_iff.mpr fun field listed => other field ?_
        rintro rfl
        exact names.1 (mem_map.mpr ⟨field, listed, rfl⟩)
      rw [rest, append_nil, filter_map]
      rfl
    · have differs : field.1 ≠ name := by
        rintro rfl
        exact names.1 (mem_map.mpr ⟨_, mem, rfl⟩)
      rw [other field differs, nil_append, ih names.2 mem]

theorem filter_leaves {shape : Shape} (distinct : shape.Distinct)
    (mem : (name, part) ∈ shape.fields)
    (within : ∀ leaf, selects leaf = true → ∃ rest, leaf = name :: rest) :
    shape.leaves.filter selects =
      (part.leaves.filter fun rest => selects (name :: rest)).map (name :: ·) := by
  rw [leaves_of_fields (ne_nil_of_mem mem), filter_flatMap]
  exact filter_fieldLeaves within distinct.names mem

theorem fieldLeafPaths_eq (fields : List (String × Shape)) (start : String) :
    fieldLeafPaths fields start =
      fields.flatMap fun field => field.2.leafPaths (extendPath start field.1) := by
  induction fields with
  | nil => rfl
  | cons field fields ih =>
    rw [fieldLeafPaths, flatMap_cons, ih]

theorem leafPaths_eq (shape : Shape) (start : String) :
    shape.leafPaths start = shape.leaves.map fun leaf => leaf.foldl extendPath start := by
  refine induct (motive := fun shape => ∀ start, shape.leafPaths start =
    shape.leaves.map fun leaf => leaf.foldl extendPath start) ?_ shape start
  intro shape ih start
  cases shape with
  | composite fields =>
    rw [leafPaths, leaves]
    split
    · rfl
    · rw [fieldLeafPaths_eq, fieldLeaves_eq, map_flatMap]
      refine flatMap_congr fun field mem => ?_
      rw [ih field mem, map_map]
      rfl

end Shape
end StructWasm

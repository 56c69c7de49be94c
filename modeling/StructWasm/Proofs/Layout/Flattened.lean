import StructWasm.Proofs.Layout.Walk
import StructWasm.Proofs.Outcome

/-!
# Primitives of a structure in a row

The primitives of a structure follow each other without overlap, however deep they are.
The offsets on the way to them stay below the bound on sizes, and the fields that
ownership knows of are those of the layout.
-/

namespace StructWasm.Layouts

open List

variable {layouts : Layouts} {type : Ty} {name : String} {layout : StructLayout}

/-- A primitive ends before the other one starts. -/
def LeafBefore (first second : Nat × Wasm.ValType) : Prop :=
  first.1 + first.2.size ≤ second.1

/-- The walk over the primitives, if every sum of offsets is checked. -/
def checkedLeavesIn : List StructLayout → Nat → Ty → Option (List (Nat × Wasm.ValType))
  | layout :: rest, start, .struct name =>
    if layout.name = name then do
      let parts ← layout.fields.mapM fun field => do
        checkedLeavesIn rest (← bounded? (start + field.offset)) field.type
      return parts.flatten
    else
      checkedLeavesIn rest start (.struct name)
  | _, start, type => some [(start, type.valType)]

/-- Names of the fields of a value, at all depths. -/
def namesIn : List StructLayout → Ty → Shape
  | layout :: rest, .struct name =>
    if layout.name = name then
      .composite (layout.fields.map fun field => (field.name, namesIn rest field.type))
    else
      namesIn rest (.struct name)
  | _, _ => .leaf

/-- The primitives of a value are in a row, and no sum on the way to them is too large. -/
theorem Built.leaves_in_row (built : layouts.Built) (known : layouts.Known type) (start : Nat) :
    (leavesIn layouts.structs start type).Pairwise LeafBefore ∧
      (start + layouts.size type < sizeLimit → checkedLeavesIn layouts.structs start type =
        some (leavesIn layouts.structs start type)) := by
  induction built generalizing type start with
  | empty =>
    cases type with
    | struct name => cases known name rfl
    | _ => exact ⟨pairwise_singleton _ _, fun _ => rfl⟩
  | @finish layouts name fields layout built fresh distinct inside placed ih =>
    cases type with
    | struct inner =>
      simp only [leavesIn, checkedLeavesIn]
      split
      · rename_i named
        obtain ⟨lie, before⟩ := built.aligned.lies_of_place? inside placed
        have found : get? { structs := layout :: layouts.structs } inner = some layout := by
          rw [get?_cons, if_pos named]
        refine ⟨pairwise_flatMap.mpr ⟨?_, ?_⟩, fun fits => ?_⟩
        · exact fun field mem => (ih (lie field mem).known _).1
        · refine before.imp_of_mem fun {first second} inFields inRest apart => ?_
          intro leaf mem other otherMember
          obtain ⟨bytes, leaf_eq, within, -⟩ :=
            built.leafLies (lie first inFields).known _ leaf mem
          obtain ⟨_, other_eq, -⟩ := built.leafLies (lie second inRest).known _ other otherMember
          unfold Before at apart
          unfold LeafBefore
          omega
        · rw [mapM_eq_pure fun field mem => ?_]
          · rw [flatMap_def]
            rfl
          · have within := (lie field mem).within
            have fits : start + layout.size < sizeLimit := by simpa [size, found] using fits
            rw [bounded?, if_pos (by omega)]
            exact (ih (lie field mem).known _).2 (by omega)
      · rename_i other
        have present := known inner rfl
        rw [get?_cons, if_neg other] at present
        simpa [size, get?_cons, other] using ih (known_struct present) start
    | _ => exact ⟨pairwise_singleton _ _, fun _ => rfl⟩

theorem map_fields_of_placeFields? {alignment}
    (places : layouts.placeFields? start alignment fields = some placed) :
    (placed.fields.map fun field => (field.name, field.type)) = fields := by
  induction fields generalizing start alignment placed with
  | nil =>
    obtain rfl := Option.some.inj places
    rfl
  | cons field rest ih =>
    simp only [Layouts.placeFields?, Option.bind_eq_bind, Option.bind_eq_some_iff] at places
    obtain ⟨offset, -, stop, -, others, places, same⟩ := places
    obtain rfl := Option.some.inj same
    exact congrArg (field :: ·) (ih places)

theorem fields_of_place? (placed : layouts.place? name fields = some layout) :
    layout.alignment ∣ layout.size ∧ layout.size < sizeLimit ∧ layout.shape =
      .composite (layout.fields.map fun field => (field.name, layouts.shape field.type)) := by
  simp only [place?, Option.bind_eq_bind, Option.bind_eq_some_iff, bounded?,
    Option.ite_none_right_eq_some] at placed
  obtain ⟨row, places, size, ⟨small, size_eq⟩, same⟩ := placed
  obtain rfl := Option.some.inj size_eq
  obtain rfl := Option.some.inj same
  refine ⟨dvd_nextMultiple _ _, small, congrArg Shape.composite ?_⟩
  rw [← map_fields_of_placeFields? places, map_map]
  rfl

theorem shape_cons (layout : StructLayout) (layouts : Layouts) (name : String) :
    shape { structs := layout :: layouts.structs } (.struct name) =
      if layout.name = name then layout.shape else layouts.shape (.struct name) := by
  simp only [shape, ofType?, Ty.structName?, Option.bind_some, get?_cons]
  split <;> rfl

/-- Ownership knows of the fields that the layouts have, at all depths. -/
theorem Built.namesIn_eq (built : layouts.Built) (type : Ty) :
    namesIn layouts.structs type = layouts.shape type := by
  induction built generalizing type with
  | empty => cases type <;> rfl
  | @finish layouts name fields layout built fresh distinct inside placed ih =>
    cases type with
    | struct inner =>
      rw [shape_cons, (fields_of_place? placed).2.2]
      simp only [namesIn, ih]
    | _ => rfl

theorem Built.size_of_get? (built : layouts.Built) (found : layouts.get? name = some layout) :
    layout.alignment ∣ layout.size ∧ layout.size < sizeLimit := by
  induction built with
  | empty => cases found
  | finish built fresh distinct known placed ih =>
    rw [get?_cons] at found
    split at found
    · obtain rfl := Option.some.inj found
      obtain ⟨multiple, small, -⟩ := fields_of_place? placed
      exact ⟨multiple, small⟩
    · exact ih found

/-- The primitives of a structure, in order: each starts after the end of those before it,
at a multiple of its size, and ends inside the structure. The size is a multiple of the
alignment, no sum of offsets on the way is too large, and ownership has the same fields. -/
theorem flattened_of_build {file : String} {decls : List StructDecl}
    (builds : build file decls = .ok layouts) (found : layouts.get? name = some layout) :
    ((layouts.leaves (.struct name)).Pairwise fun first second =>
        first.1 < second.1 ∧ first.1 + first.2.size ≤ second.1) ∧
      (∀ leaf ∈ layouts.leaves (.struct name),
        leaf.2.size ∣ leaf.1 ∧ leaf.1 + leaf.2.size ≤ layout.size) ∧
      layout.alignment ∣ layout.size ∧
      checkedLeavesIn layouts.structs 0 (.struct name) = some (layouts.leaves (.struct name)) ∧
      namesIn layouts.structs (.struct name) = layouts.shape (.struct name) := by
  have built := built_of_build builds
  have known := known_struct (Option.isSome_of_eq_some found)
  have size_eq : layouts.size (.struct name) = layout.size := by simp [size, found]
  obtain ⟨multiple, small⟩ := built.size_of_get? found
  obtain ⟨inRow, checked⟩ := built.leaves_in_row known 0
  have ordered {first second : Nat × Wasm.ValType} (before : LeafBefore first second) :
      first.1 < second.1 := by
    have positive : 0 < first.2.size := by cases first.2 <;> decide
    unfold LeafBefore at before
    omega
  refine ⟨inRow.imp fun before => ⟨ordered before, before⟩, fun leaf member => ?_, multiple,
    checked (by omega), built.namesIn_eq _⟩
  obtain ⟨bytes, leaf_eq, within, divides, -⟩ := built.leafLies known 0 leaf member
  rw [leaf_eq, Nat.zero_add]
  exact ⟨divides, size_eq ▸ within⟩

theorem flattened_nested :
    let span := Span.ofLines 1 1 1 1
    let field (name : String) (type : WrittenType) : TypedName :=
      { name := { name, span }, type := { type, span }, span }
    let decls : List StructDecl := [
      { name := { name := "Outer", span },
        fields := [field "x" .i32, field "y" (.named "Inner")], span },
      { name := { name := "Inner", span }, fields := [field "a" .i32, field "b" .i64], span }]
    ∃ layouts layout, build "nested" decls = .ok layouts ∧
      layouts.get? "Outer" = some layout ∧ layout.size = 24 ∧
      layouts.leaves (.struct "Outer") = [(0, .i32), (8, .i32), (16, .i64)] ∧
      checkedLeavesIn layouts.structs 0 (.struct "Outer") =
        some (layouts.leaves (.struct "Outer")) := by
  intro span field decls
  have facts : ((build "nested" decls).toOption.bind fun layouts =>
      (layouts.get? "Outer").map fun layout =>
        (layout.size, layouts.leaves (.struct "Outer"))) =
      some (24, [(0, .i32), (8, .i32), (16, .i64)]) := by cbv
  obtain ⟨layouts, builds, found⟩ := Option.bind_eq_some_iff.mp facts
  obtain ⟨layout, found, same⟩ := Option.map_eq_some_iff.mp found
  obtain ⟨size_eq, leaves_eq⟩ := Prod.mk.inj same
  have builds := eq_ok_of_toOption builds
  obtain ⟨-, -, -, checked, -⟩ := flattened_of_build builds found
  exact ⟨layouts, layout, builds, found, size_eq, leaves_eq, checked⟩

end StructWasm.Layouts

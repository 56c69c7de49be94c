import Mathlib
import StructWasm.Layout.Build

/-!
# Built tables of layouts

A table of layouts is built from nothing, one structure after the other: a structure is
added once the structures of its fields are in the table, and under a name that is not.
What the walk over the declarations of a program finds is always such a table.
-/

namespace StructWasm.Layouts

/-- Tables in which every structure was laid out over the structures before it. -/
inductive Built : Layouts → Prop
  | empty : Built .empty
  | finish {layouts : Layouts} {name : String} {fields : List (String × Ty)}
      {layout : StructLayout} (built : Built layouts) (fresh : layouts.get? name = none)
      (distinct : (fields.map Prod.fst).Nodup)
      (known : ∀ field inner, (field, Ty.struct inner) ∈ fields → (layouts.get? inner).isSome)
      (placed : layouts.place? name fields = some layout) :
      Built { structs := layout :: layouts.structs }

/-- Every structure of a table has the same layout in a greater one. -/
def Extends (before after : Layouts) : Prop :=
  ∀ name layout, before.get? name = some layout → after.get? name = some layout

variable {layouts : Layouts} {name : String} {fields : List (String × Ty)}

theorem name_of_place? (placed : layouts.place? name fields = some layout) :
    layout.name = name := by
  simp only [place?, Option.bind_eq_bind, Option.bind_eq_some_iff] at placed
  obtain ⟨_, _, _, _, made⟩ := placed
  injection made with made
  rw [← made]

theorem get?_cons (layout : StructLayout) (layouts : Layouts) (name : String) :
    get? { structs := layout :: layouts.structs } name =
      if layout.name = name then some layout else layouts.get? name := by
  unfold get?
  rw [List.find?_cons]
  by_cases same : layout.name = name
  · rw [beq_iff_eq.mpr same, if_pos same]
  · rw [beq_eq_false_iff_ne.mpr same, if_neg same]

theorem extends_cons (fresh : layouts.get? name = none)
    (placed : layouts.place? name fields = some layout) :
    layouts.Extends { structs := layout :: layouts.structs } := by
  intro other found mem
  rw [get?_cons, name_of_place? placed, if_neg]
  · exact mem
  · rintro rfl
    rw [fresh] at mem
    cases mem

/-- The type that is meant by a written one. -/
def typeOf : WrittenType → Ty
  | .named name => .struct name
  | .i32 => .i32
  | .i64 => .i64
  | .f32 => .f32
  | .f64 => .f64
  | .bool => .bool

/-- Names and types of the fields that are declared. -/
def typedFields (fields : List TypedName) : List (String × Ty) :=
  fields.map fun field => (field.name.name, typeOf field.type.type)

/-- The types that a walk over fields gives back: their names are new and distinct, and
their structures are in the table. -/
structure Typed (seen : List String) (layouts : Layouts) (fields : List (String × Ty)) : Prop where
  unseen : ∀ field ∈ fields, field.1 ∉ seen
  distinct : (fields.map Prod.fst).Nodup
  known : ∀ field inner, (field, Ty.struct inner) ∈ fields → (layouts.get? inner).isSome

/-! ## Alignment -/

/-- Every value of a table is aligned to a power of two. -/
def Aligned (layouts : Layouts) : Prop :=
  ∀ type, (layouts.alignment type).isPowerOfTwo

theorem isPowerOfTwo_max {left right : Nat} (leftPower : left.isPowerOfTwo)
    (rightPower : right.isPowerOfTwo) : (max left right).isPowerOfTwo := by
  rcases Nat.le_total left right with le | le
  · rw [Nat.max_eq_right le]
    exact rightPower
  · rw [Nat.max_eq_left le]
    exact leftPower

theorem Aligned.placeFields? (aligned : layouts.Aligned) {alignment}
    (power : alignment.isPowerOfTwo)
    (places : layouts.placeFields? start alignment fields = some placed) :
    placed.alignment.isPowerOfTwo := by
  induction fields generalizing start alignment placed with
  | nil =>
    injection places with same
    rw [← same]
    exact power
  | cons field rest ih =>
    simp only [Layouts.placeFields?, Option.bind_eq_bind, Option.bind_eq_some_iff] at places
    obtain ⟨_, _, stop, _, others, places, same⟩ := places
    injection same with same
    have power := ih (isPowerOfTwo_max power (aligned field.2)) places
    rw [← same]
    exact power

theorem aligned_of_structs (powers : ∀ name, (layouts.alignment (.struct name)).isPowerOfTwo) :
    layouts.Aligned := by
  intro type
  cases type with
  | struct name => exact powers name
  | i32 => exact ⟨2, rfl⟩
  | i64 => exact ⟨3, rfl⟩
  | f32 => exact ⟨2, rfl⟩
  | f64 => exact ⟨3, rfl⟩
  | bool => exact ⟨2, rfl⟩

theorem Built.aligned (built : layouts.Built) : layouts.Aligned := by
  induction built with
  | empty => exact aligned_of_structs fun name => ⟨0, rfl⟩
  | @finish layouts name fields layout _ _ _ _ placed ih =>
    apply aligned_of_structs
    intro inner
    change (((get? _ inner).map StructLayout.alignment).getD 1).isPowerOfTwo
    rw [get?_cons]
    split
    · simp only [place?, Option.bind_eq_bind, Option.bind_eq_some_iff] at placed
      obtain ⟨_, places, _, _, made⟩ := placed
      injection made with made
      rw [← made]
      exact ih.placeFields? ⟨0, rfl⟩ places
    · exact ih (.struct inner)

end StructWasm.Layouts

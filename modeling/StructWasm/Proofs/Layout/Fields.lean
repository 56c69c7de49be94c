import StructWasm.Proofs.Layout.Built

/-!
# Where fields lie

In a built table a field lies inside its structure, at a multiple of its alignment. So
do the primitives of a value, however deep they are, and each of them is at a multiple
of its size.
-/

namespace StructWasm.Layouts

open Option List Nat

variable {layouts : Layouts} {type : Ty}

/-- The structure of a type is in the table. -/
def Known (layouts : Layouts) (type : Ty) : Prop :=
  ∀ name, type = .struct name → (layouts.get? name).isSome = true

theorem known_of_not_struct (primitive : type.isStruct = false) : layouts.Known type := by
  rintro name rfl
  cases primitive

variable {name : String} {field : FieldLayout}

theorem known_struct (found : (layouts.get? name).isSome = true) :
    layouts.Known (.struct name) := by
  rintro _ ⟨⟩
  exact found

theorem name_of_get? (found : layouts.get? name = some layout) : layout.name = name := by
  simpa using find?_some found

theorem known_of_resolve (resolved : layouts.resolve written = .ok type) : layouts.Known type := by
  cases written with
  | named name =>
    simp only [resolve] at resolved
    split at resolved
    · rename_i layout found
      injection resolved with resolved
      subst resolved
      rw [name_of_get? found]
      exact known_struct (isSome_of_eq_some found)
    · cases resolved
  | _ =>
    injection resolved with resolved
    subst resolved
    exact known_of_not_struct rfl

theorem Extends.same (grows : layouts.Extends greater) (known : layouts.Known type) :
    greater.Known type ∧ greater.size type = layouts.size type ∧
      greater.alignment type = layouts.alignment type := by
  cases type with
  | struct name =>
    obtain ⟨layout, found⟩ := isSome_iff_exists.mp (known name rfl)
    have kept := grows name layout found
    refine ⟨known_struct (isSome_of_eq_some kept), ?_, ?_⟩
    · simp [size, found, kept]
    · simp [alignment, found, kept]
  | _ => exact ⟨known_of_not_struct rfl, rfl, rfl⟩

/-! ## Multiples -/

variable {alignment start : Nat} {leaf : Nat × Wasm.ValType}

theorem le_nextMultiple (positive : 0 < alignment) (value : Nat) :
    value ≤ nextMultiple value alignment := by
  have divided := div_add_mod (value + alignment - 1) alignment
  have small := mod_lt (value + alignment - 1) positive
  rw [mul_comm] at divided
  unfold nextMultiple
  omega

theorem dvd_nextMultiple (value alignment : Nat) : alignment ∣ nextMultiple value alignment :=
  dvd_mul_left _ _

theorem dvd_of_isPowerOfTwo {less more : Nat} (lessPower : less.isPowerOfTwo)
    (morePower : more.isPowerOfTwo) (le : less ≤ more) : less ∣ more := by
  obtain ⟨first, rfl⟩ := lessPower
  obtain ⟨second, rfl⟩ := morePower
  exact Nat.pow_dvd_pow 2 ((Nat.pow_le_pow_iff_right (by decide)).mp le)

/-! ## Fields -/

/-- A field that lies inside a structure of a size and an alignment. -/
structure Lies (layouts : Layouts) (size alignment : Nat) (field : FieldLayout) : Prop where
  known : layouts.Known field.type
  within : field.offset + layouts.size field.type ≤ size
  multiple : layouts.alignment field.type ∣ field.offset
  aligned : layouts.alignment field.type ∣ alignment

theorem Lies.of_extends {size} (lies : layouts.Lies size alignment field)
    (grows : layouts.Extends greater) : greater.Lies size alignment field := by
  obtain ⟨known, size_eq, alignment_eq⟩ := grows.same lies.known
  exact ⟨known, size_eq ▸ lies.within, alignment_eq ▸ lies.multiple, alignment_eq ▸ lies.aligned⟩

/-- A field ends before the other one starts. -/
def Before (layouts : Layouts) (first second : FieldLayout) : Prop :=
  first.offset + layouts.size first.type ≤ second.offset

/-- Fields are put one after the other. -/
theorem Aligned.lies_of_placeFields? (aligned : layouts.Aligned) (power : alignment.isPowerOfTwo)
    (known : ∀ field ∈ fields, layouts.Known field.2)
    (places : layouts.placeFields? start alignment fields = some placed) :
    start ≤ placed.stop ∧ alignment ≤ placed.alignment ∧
      (∀ field ∈ placed.fields, layouts.Lies placed.stop placed.alignment field) ∧
      (∀ field ∈ placed.fields, start ≤ field.offset) ∧ placed.fields.Pairwise layouts.Before := by
  induction fields generalizing start alignment placed with
  | nil =>
    injection places with same
    subst same
    simp
  | cons field rest ih =>
    obtain ⟨name, type⟩ := field
    have powers := isPowerOfTwo_max power (aligned type)
    simp only [Layouts.placeFields?, bind_eq_bind, bind_eq_some_iff, bounded?,
      ite_none_right_eq_some] at places
    obtain ⟨offset, ⟨-, offset_eq⟩, stop, ⟨-, stop_eq⟩, others, places, same⟩ := places
    obtain rfl := some.inj offset_eq
    obtain rfl := some.inj stop_eq
    obtain rfl := some.inj same
    obtain ⟨stops, raises, lie, starts, before⟩ := ih powers
      (fun field mem => known field (.tail _ mem)) places
    have raised := aligned.placeFields? powers places
    have fromStart := le_nextMultiple (pos_of_isPowerOfTwo (aligned type)) start
    refine ⟨by dsimp only; omega, le_trans (le_max_left _ _) raises,
      forall_mem_cons.mpr ⟨?_, lie⟩, forall_mem_cons.mpr ⟨fromStart, ?_⟩,
      pairwise_cons.mpr ⟨starts, before⟩⟩
    · refine ⟨known _ (.head _), stops, dvd_nextMultiple _ _, ?_⟩
      exact dvd_of_isPowerOfTwo (aligned type) raised (le_trans (le_max_right _ _) raises)
    · exact fun field mem =>
        le_trans (le_trans fromStart (le_add_right _ _)) (starts field mem)

theorem Aligned.lies_of_place? (aligned : layouts.Aligned)
    (known : ∀ field inner, (field, Ty.struct inner) ∈ fields → (layouts.get? inner).isSome)
    (places : layouts.place? name fields = some layout) :
    (∀ field ∈ layout.fields, layouts.Lies layout.size layout.alignment field) ∧
      layout.fields.Pairwise layouts.Before := by
  simp only [place?, bind_eq_bind, bind_eq_some_iff, bounded?, ite_none_right_eq_some] at places
  obtain ⟨placed, places, size, ⟨-, size_eq⟩, same⟩ := places
  obtain rfl := some.inj size_eq
  obtain rfl := some.inj same
  have power : (1 : Nat).isPowerOfTwo := ⟨0, rfl⟩
  have types : ∀ field ∈ fields, layouts.Known field.2 := by
    rintro ⟨field, _⟩ mem name rfl
    exact known field name mem
  obtain ⟨-, -, lie, -, before⟩ := aligned.lies_of_placeFields? power types places
  refine ⟨fun field mem => ?_, before⟩
  have lies := lie field mem
  have rounded := le_nextMultiple
    (pos_of_isPowerOfTwo (aligned.placeFields? power places)) placed.stop
  exact { lies with within := le_trans lies.within rounded }

theorem Built.lies (built : layouts.Built) (found : layouts.get? name = some layout) :
    ∀ field ∈ layout.fields, layouts.Lies layout.size layout.alignment field := by
  induction built with
  | empty => cases found
  | finish built fresh distinct known placed ih =>
    have grows := extends_cons fresh placed
    rw [get?_cons] at found
    split at found
    · obtain rfl := some.inj found
      intro field mem
      exact ((built.aligned.lies_of_place? known placed).1 field mem).of_extends grows
    · exact fun field mem => (ih found field mem).of_extends grows

theorem Built.lies_of_field? (built : layouts.Built)
    (found : layouts.field? type name = some field) :
    layouts.Lies (layouts.size type) (layouts.alignment type) field := by
  simp only [field?, bind_eq_bind, bind_eq_some_iff] at found
  obtain ⟨layout, layout_eq, found⟩ := found
  cases type with
  | struct inner =>
    have mem : layouts.get? inner = some layout := by
      simpa [ofType?, Ty.structName?] using layout_eq
    have lies := built.lies mem field (mem_of_find?_eq_some found)
    simpa [size, alignment, mem] using lies
  | _ => cases layout_eq

/-! ## Primitives -/

/-- A primitive that lies inside a value of a type which starts at a byte. -/
def LeafLies (layouts : Layouts) (type : Ty) (start : Nat) (leaf : Nat × Wasm.ValType) : Prop :=
  ∃ bytes, leaf.1 = start + bytes ∧ bytes + leaf.2.size ≤ layouts.size type ∧
    leaf.2.size ∣ bytes ∧ leaf.2.size ∣ layouts.alignment type

theorem leafLies_primitive (primitive : type.isStruct = false) (start : Nat) :
    layouts.LeafLies type start (start, type.valType) := by
  refine ⟨0, rfl, ?_, dvd_zero _, ?_⟩
  · cases type with
    | struct name => cases primitive
    | _ => exact le_of_eq (zero_add _)
  · cases type with
    | struct name => cases primitive
    | _ => exact dvd_refl _

theorem Lies.leafLies (lies : layouts.Lies (layouts.size type) (layouts.alignment type) field)
    (leafLies : layouts.LeafLies field.type (start + field.offset) leaf) :
    layouts.LeafLies type start leaf := by
  obtain ⟨bytes, leaf_eq, within, multiple, aligned⟩ := leafLies
  refine ⟨field.offset + bytes, by omega, ?_, ?_, aligned.trans lies.aligned⟩
  · have := lies.within
    omega
  · exact dvd_add (aligned.trans lies.multiple) multiple

theorem LeafLies.of_extends (leafLies : layouts.LeafLies type start leaf)
    (known : layouts.Known type) (grows : layouts.Extends greater) :
    greater.LeafLies type start leaf := by
  obtain ⟨-, size_eq, alignment_eq⟩ := grows.same known
  obtain ⟨bytes, leaf_eq, within, multiple, aligned⟩ := leafLies
  exact ⟨bytes, leaf_eq, size_eq ▸ within, multiple, alignment_eq ▸ aligned⟩

/-- The primitives of a value lie inside it. -/
theorem Built.leafLies (built : layouts.Built) (known : layouts.Known type) (start : Nat) :
    ∀ leaf ∈ leavesIn layouts.structs start type, layouts.LeafLies type start leaf := by
  induction built generalizing type start with
  | empty =>
    cases type with
    | struct name => cases known name rfl
    | _ =>
      intro leaf mem
      obtain rfl := mem_singleton.mp mem
      exact leafLies_primitive rfl start
  | @finish layouts name fields layout built fresh distinct inside placed ih =>
    have grows := extends_cons fresh placed
    cases type with
    | struct inner =>
      intro leaf mem
      simp only [leavesIn] at mem
      split at mem
      · rename_i named
        obtain ⟨field, inFields, mem⟩ := mem_flatMap.mp mem
        have lies := (built.aligned.lies_of_place? inside placed).1 field inFields
        have found : get? { structs := layout :: layouts.structs } inner = some layout := by
          rw [get?_cons, if_pos named]
        have below := (ih lies.known _ leaf mem).of_extends lies.known grows
        refine Lies.leafLies ?_ below
        simpa [size, alignment, found] using lies.of_extends grows
      · rename_i other
        have below : layouts.Known (.struct inner) := by
          have present := known inner rfl
          rw [get?_cons, if_neg other] at present
          exact known_struct present
        exact (ih below start leaf mem).of_extends below grows
    | _ =>
      intro leaf mem
      obtain rfl := mem_singleton.mp mem
      exact leafLies_primitive rfl start

end StructWasm.Layouts

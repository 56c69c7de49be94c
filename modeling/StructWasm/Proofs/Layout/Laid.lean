import StructWasm.Proofs.Layout.Measure

/-!
# Tables laid out from declarations

In such a table every structure was laid out as it is declared, over the structures before
it. So it takes the bytes that it would take over numbers without a bound, and two tables
have the same layout for a structure that both of them have.
-/

namespace StructWasm.Layouts

open List Option

/-- Tables in which every structure was laid out as it is declared. -/
inductive Laid (decls : List StructDecl) : Layouts → Prop
  | empty : Laid decls .empty
  | add {layouts : Layouts} {name : String} {decl : StructDecl} {layout : StructLayout}
      (laid : Laid decls layouts) (fresh : layouts.get? name = none)
      (declared : declaration? decls name = some decl)
      (typed : Typed [] layouts (typedFields decl.fields))
      (placed : layouts.place? name (typedFields decl.fields) = some layout) :
      Laid decls { structs := layout :: layouts.structs }

variable {decls : List StructDecl} {layouts others : Layouts} {name : String}
  {layout : StructLayout} {type : Ty}

theorem Laid.built (laid : Laid decls layouts) : layouts.Built := by
  induction laid with
  | empty => exact .empty
  | add _ fresh _ typed placed ih => exact .finish ih fresh typed.distinct typed.known placed

/-! ## Declarations -/

theorem declaration?_eq_some (found : declaration? decls name = some decl) :
    decl ∈ decls ∧ decl.name.name = name :=
  ⟨mem_reverse.mp (mem_of_find?_eq_some found), by simpa using find?_some found⟩

theorem isSome_declaration? :
    (declaration? decls name).isSome ↔ name ∈ decls.map fun decl => decl.name.name := by
  simp [declaration?]

theorem declaration?_of_mem (distinct : (decls.map fun decl => decl.name.name).Nodup)
    (mem : decl ∈ decls) : declaration? decls decl.name.name = some decl := by
  obtain ⟨other, found⟩ := isSome_iff_exists.mp
    (isSome_declaration?.mpr (mem_map.mpr ⟨decl, mem, rfl⟩))
  obtain ⟨otherMember, same⟩ := declaration?_eq_some found
  rw [found, inj_on_of_nodup_map distinct otherMember mem same]

theorem Typed.known_typeOf (typed : Typed seen layouts (typedFields fields))
    (mem : field ∈ fields) : layouts.Known (typeOf field.type.type) := by
  intro inner named
  refine typed.known field.name.name inner ?_
  rw [← named]
  exact mem_map_of_mem mem

/-! ## Sizes -/

/-- A structure is laid out as it is declared, over numbers without a bound. -/
structure Follows (decls : List StructDecl) (decl : StructDecl) (layout : StructLayout)
    (extent : WrittenType → Nat × Nat) : Prop where
  distinct : (decl.fields.map fun field => field.name.name).Nodup
  occupies : ∀ field ∈ decl.fields, Occupies decls field.type.type (extent field.type.type)
  extent_eq : (layout.size, layout.alignment) =
    (layOut 0 1 (decl.fields.map fun field => extent field.type.type)).extent
  fields_eq : (layout.fields.map fun field => (field.name, field.offset)) =
    (decl.fields.map fun field => field.name.name).zip
      (layOut 0 1 (decl.fields.map fun field => extent field.type.type)).offsets
  small : layout.size < sizeLimit

/-- Every structure of a table follows its declaration. -/
def Follow (decls : List StructDecl) (layouts : Layouts) : Prop :=
  ∀ name layout, layouts.get? name = some layout → ∃ decl extent,
    declaration? decls name = some decl ∧ Follows decls decl layout extent

theorem Follow.occupies (follow : Follow decls layouts) (known : layouts.Known (typeOf written)) :
    Occupies decls written (layouts.extent (typeOf written)) := by
  cases written with
  | named name =>
    obtain ⟨layout, found⟩ := isSome_iff_exists.mp (known name rfl)
    obtain ⟨decl, extent, declared, follows⟩ := follow name layout found
    have extent_eq : layouts.extent (.struct name) = (layout.size, layout.alignment) := by
      simp [Layouts.extent, size, alignment, found]
    rw [typeOf, extent_eq, follows.extent_eq]
    exact .struct extent declared follows.occupies
  | _ => exact .primitive rfl

theorem map_extent_typedFields (layouts : Layouts) (fields : List TypedName) :
    ((typedFields fields).map fun field => layouts.extent field.2) =
      fields.map fun field => layouts.extent (typeOf field.type.type) :=
  map_map

theorem Laid.follow (laid : Laid decls layouts) : Follow decls layouts := by
  induction laid with
  | empty => exact fun _ _ found => by cases found
  | @add layouts name decl layout laid fresh declared typed placed ih =>
    intro other found present
    rw [get?_cons] at present
    split at present
    · rename_i named
      rw [name_of_place? placed] at named
      subst named
      obtain rfl := some.inj present
      rw [laid.built.aligned.place?_eq, map_extent_typedFields] at placed
      split at placed
      · rename_i small
        obtain rfl := some.inj placed
        refine ⟨decl, fun written => layouts.extent (typeOf written), declared, ?_, ?_, rfl, ?_,
          small⟩
        · simpa [typedFields, Function.comp_def] using typed.distinct
        · exact fun field mem => ih.occupies (typed.known_typeOf mem)
        · simp [typedFields, map_zipWith, zipWith_map_left, zip]
      · cases placed
    · exact ih other found present

/-! ## Layouts of two tables -/

theorem extent_congr (same : layouts.ofType? type = others.ofType? type) :
    layouts.extent type = others.extent type ∧ layouts.shape type = others.shape type := by
  refine ⟨?_, by rw [shape, shape, same]⟩
  cases type with
  | struct name =>
    have same : layouts.get? name = others.get? name := same
    simp only [extent, size, alignment, same]
  | _ => rfl

/-- Fields of the same layouts are placed alike. -/
theorem Aligned.place?_congr (aligned : layouts.Aligned) (alsoAligned : others.Aligned)
    (same : ∀ field ∈ fields, layouts.ofType? field.2 = others.ofType? field.2) :
    layouts.place? name fields = others.place? name fields := by
  rw [aligned.place?_eq, alsoAligned.place?_eq,
    map_congr_left fun field mem => (extent_congr (same field mem)).1,
    map_congr_left fun field mem =>
      congrArg (Prod.mk field.1) (extent_congr (same field mem)).2]

theorem Extends.ofType?_eq (grows : layouts.Extends others) (known : layouts.Known type) :
    others.ofType? type = layouts.ofType? type := by
  cases type with
  | struct name =>
    obtain ⟨layout, found⟩ := isSome_iff_exists.mp (known name rfl)
    exact (grows name layout found).trans found.symm
  | _ => rfl

/-- A structure of a table is laid out over the table itself. -/
theorem Laid.placed (laid : Laid decls layouts) (found : layouts.get? name = some layout) :
    ∃ decl, declaration? decls name = some decl ∧
      (∀ field ∈ decl.fields, layouts.Known (typeOf field.type.type)) ∧
      layouts.place? name (typedFields decl.fields) = some layout := by
  induction laid with
  | empty => cases found
  | @add layouts added decl new laid fresh declared typed placed ih =>
    have grows := extends_cons fresh placed
    have aligned := (laid.add fresh declared typed placed).built.aligned
    obtain ⟨decl, declared, known, placed⟩ : ∃ decl, declaration? decls name = some decl ∧
        (∀ field ∈ decl.fields, layouts.Known (typeOf field.type.type)) ∧
        layouts.place? name (typedFields decl.fields) = some layout := by
      rw [get?_cons, name_of_place? placed] at found
      split at found
      · rename_i named
        obtain rfl := some.inj found
        exact ⟨decl, named ▸ declared, fun field => typed.known_typeOf, named ▸ placed⟩
      · exact ih found
    refine ⟨decl, declared, fun field mem => (grows.same (known field mem)).1, ?_⟩
    rw [← placed]
    refine aligned.place?_congr laid.built.aligned fun field mem => ?_
    obtain ⟨written, inFields, rfl⟩ := mem_map.mp mem
    exact grows.ofType?_eq (known written inFields)

theorem Laid.unique (same : declaration? decls = declaration? otherDecls)
    (laid : Laid decls layouts) (alsoLaid : Laid otherDecls others)
    (found : layouts.get? name = some layout) (alsoFound : others.get? name = some other) :
    layout = other := by
  induction laid generalizing name layout other with
  | empty => cases found
  | @add layouts added decl new laid fresh declared typed placed ih =>
    rw [get?_cons, name_of_place? placed] at found
    split at found
    · rename_i named
      subst named
      obtain rfl := some.inj found
      obtain ⟨otherDecl, otherDeclared, known, otherPlaced⟩ := alsoLaid.placed alsoFound
      obtain rfl := some.inj (declared.symm.trans (same ▸ otherDeclared))
      refine some.inj (placed.symm.trans (Eq.trans ?_ otherPlaced))
      refine laid.built.aligned.place?_congr alsoLaid.built.aligned fun field mem => ?_
      obtain ⟨written, inFields, rfl⟩ := mem_map.mp mem
      have known := known written inFields
      have alsoKnown := typed.known_typeOf inFields
      dsimp only
      cases inner : typeOf written.type.type with
      | struct name =>
        obtain ⟨first, isFirst⟩ := isSome_iff_exists.mp (alsoKnown name inner)
        obtain ⟨second, isSecond⟩ := isSome_iff_exists.mp (known name inner)
        show layouts.get? name = others.get? name
        rw [isFirst, isSecond, ih isFirst isSecond]
      | _ => rfl
    · exact ih found alsoFound

end StructWasm.Layouts

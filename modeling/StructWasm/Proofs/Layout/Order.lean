import StructWasm.Proofs.Layout.Acceptance
import StructWasm.Proofs.Outcome

/-!
# The order of declarations

The walk starts from the declarations in their order, but where the names are distinct
neither its verdict nor a layout depends on the order: both follow from the declaration
that a name has.
-/

namespace StructWasm.Layouts

open List Relation

variable {file : String} {decls reordered : List StructDecl}

theorem declaration?_of_perm (distinct : (decls.map fun decl => decl.name.name).Nodup)
    (permutes : decls ~ reordered) : declaration? decls = declaration? reordered := by
  have alsoDistinct := (permutes.map fun decl => decl.name.name).nodup distinct
  funext name
  cases found : declaration? decls name with
  | some decl =>
    obtain ⟨mem, rfl⟩ := declaration?_eq_some found
    exact (declaration?_of_mem alsoDistinct (permutes.subset mem)).symm
  | none =>
    cases other : declaration? reordered name with
    | none => rfl
    | some decl =>
      obtain ⟨mem, rfl⟩ := declaration?_eq_some other
      rw [declaration?_of_mem distinct (permutes.symm.subset mem)] at found
      cases found

theorem Occupies.congr (same : declaration? decls = declaration? reordered)
    (occupies : Occupies decls written taken) : Occupies reordered written taken := by
  induction occupies with
  | primitive primitive => exact .primitive primitive
  | struct extent declared _ ih => exact .struct extent (same ▸ declared) ih

theorem Sound.of_perm (sound : Sound decls) (permutes : decls ~ reordered) : Sound reordered := by
  have same := declaration?_of_perm sound.distinct permutes
  have names := permutes.map fun decl => decl.name.name
  refine ⟨names.nodup sound.distinct, ?_, ?_, ?_, ?_⟩
  · exact fun decl mem => sound.fieldsDistinct decl (permutes.symm.subset mem)
  · exact fun decl mem field inFields inner written => names.subset
      (sound.declared decl (permutes.symm.subset mem) field inFields inner written)
  · intro name cycle
    refine sound.acyclic name (cycle.lift id ?_)
    rintro outer inner ⟨decl, declared, contains⟩
    exact ⟨decl, same ▸ declared, contains⟩
  · exact fun decl mem size alignment occupies =>
      sound.small decl (permutes.symm.subset mem) size alignment (occupies.congr same.symm)

/-- Declarations of distinct names in any two orders both have layouts or both have none,
and every structure has the same layout. -/
theorem build_permute (distinct : (decls.map fun decl => decl.name.name).Nodup)
    (permutes : decls ~ reordered) (file : String) :
    ((∃ layouts, build file decls = .ok layouts) ↔
        ∃ layouts, build file reordered = .ok layouts) ∧
      ∀ layouts others, build file decls = .ok layouts → build file reordered = .ok others →
        ∀ decl ∈ decls, ∃ layout, layouts.get? decl.name.name = some layout ∧
          others.get? decl.name.name = some layout := by
  constructor
  · constructor
    · rintro ⟨layouts, builds⟩
      exact build_of_sound ((sound_of_build builds).of_perm permutes)
    · rintro ⟨layouts, builds⟩
      exact build_of_sound ((sound_of_build builds).of_perm permutes.symm)
  · intro layouts others builds alsoBuilds decl member
    obtain ⟨-, laid, complete⟩ := accepted_of_build builds
    obtain ⟨-, alsoLaid, alsoComplete⟩ := accepted_of_build alsoBuilds
    obtain ⟨layout, found⟩ := Option.isSome_iff_exists.mp (complete decl member)
    obtain ⟨other, alsoFound⟩ := Option.isSome_iff_exists.mp
      (alsoComplete decl (permutes.subset member))
    refine ⟨layout, found, ?_⟩
    rw [alsoFound, laid.unique (declaration?_of_perm distinct permutes) alsoLaid found alsoFound]

theorem build_permute_line :
    let span := Span.ofLines 1 1 1 1
    let field (name : String) (type : WrittenType) : TypedName :=
      { name := { name, span }, type := { type, span }, span }
    let line : StructDecl :=
      { name := { name := "Line", span },
        fields := [field "start" (.named "Point"), field "end" (.named "Point")], span }
    let point : StructDecl :=
      { name := { name := "Point", span },
        fields := [field "x" .i32, field "y" .i32], span }
    ∃ layouts others layout, build "line" [line, point] = .ok layouts ∧
      build "line" [point, line] = .ok others ∧ layouts.get? "Line" = some layout ∧
      others.get? "Line" = some layout ∧ layout.size = 16 := by
  intro span field line point
  have facts : ((build "line" [line, point]).toOption.bind fun layouts =>
      (layouts.get? "Line").map fun layout => layout.size) = some 16 := by cbv
  obtain ⟨layouts, builds, found⟩ := Option.bind_eq_some_iff.mp facts
  obtain ⟨layout, found, size_eq⟩ := Option.map_eq_some_iff.mp found
  have builds := eq_ok_of_toOption builds
  have permuted := build_permute (by decide) (.swap point line []) "line"
  obtain ⟨others, alsoBuilds⟩ := permuted.1.mp ⟨layouts, builds⟩
  obtain ⟨other, isOther, alsoFound⟩ := permuted.2 layouts others builds alsoBuilds line (by simp)
  obtain rfl := Option.some.inj (found.symm.trans isOther)
  exact ⟨layouts, others, layout, builds, alsoBuilds, found, alsoFound, size_eq⟩

end StructWasm.Layouts

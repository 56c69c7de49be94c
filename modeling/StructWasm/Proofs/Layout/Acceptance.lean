import StructWasm.Proofs.Layout.Walk

/-!
# Which declarations have layouts

The walk over the declarations notes a mistake exactly if there is one: a name that is
declared twice, a field of an unknown type, a structure inside itself, or one that is too
large.
-/

namespace StructWasm.Layouts

open List Relation

variable {file : String} {decls : List StructDecl} {layouts : Layouts} {name : String}
  {survey : Survey}

/-- Declarations without mistakes. -/
structure Sound (decls : List StructDecl) : Prop where
  distinct : (decls.map fun decl => decl.name.name).Nodup
  fieldsDistinct : ∀ decl ∈ decls, (decl.fields.map fun field => field.name.name).Nodup
  declared : ∀ decl ∈ decls, ∀ field ∈ decl.fields, ∀ inner, field.type.type = .named inner →
    inner ∈ decls.map fun decl => decl.name.name
  acyclic : ∀ name, ¬ TransGen (Contains decls) name name
  small : ∀ decl ∈ decls, ∀ size alignment,
    Occupies decls (.named decl.name.name) (size, alignment) → size < sizeLimit

theorem not_rel_self_of_acc {α : Type} {related : α → α → Prop} {entry} (acc : Acc related entry) :
    ¬ related entry entry := by
  induction acc with
  | intro entry _ ih => exact fun loop => ih entry loop loop

theorem acyclic_of_follow (follow : Follow decls layouts)
    (complete : ∀ decl ∈ decls, (layouts.get? decl.name.name).isSome) (name : String) :
    ¬ TransGen (Contains decls) name name := by
  intro cycle
  obtain ⟨_, ⟨decl, declared, -⟩, -⟩ := TransGen.head'_iff.mp cycle
  obtain ⟨mem, named⟩ := declaration?_eq_some declared
  have occupies : Occupies decls (.named name) _ :=
    follow.occupies (known_struct (named ▸ complete decl mem))
  exact not_rel_self_of_acc occupies.acc.transGen (TransGen.swap _ _ cycle)

/-! ## Mistakes -/

theorem Holds.contains {outer inner} (holds : Holds decls outer inner) :
    Contains decls outer inner := by
  obtain ⟨decl, field, declared, found, written, -⟩ := holds
  exact ⟨decl, declared, field, mem_of_find?_eq_some found, written⟩

theorem transGen_of_isChain {α : Type} {related : α → α → Prop} {first last between}
    (linked : (first :: between ++ [last]).IsChain related) : TransGen related first last := by
  induction between generalizing first with
  | nil => exact .single (isChain_pair.mp linked)
  | cons next rest ih =>
    obtain ⟨step, linked⟩ := isChain_cons_cons.mp linked
    exact .head step (ih linked)

theorem Loop.cycle (loop : Loop decls) : TransGen (Holds decls) loop.head loop.head :=
  transGen_of_isChain loop.linked

theorem Flaw.not_sound (flaw : Flaw decls mistake) : ¬ Sound decls := by
  intro sound
  cases flaw with
  | repeated mem again => exact again (sound.fieldsDistinct _ mem)
  | undeclared mem inFields written unknown =>
    exact unknown (isSome_declaration?.mpr (sound.declared _ mem _ inFields _ written))
  | large mem occupies large => exact large (sound.small _ mem _ _ occupies)

theorem duplicates_eq_nil : duplicates file seen decls = [] ↔
      (decls.map fun decl => decl.name.name).Nodup ∧ ∀ decl ∈ decls, decl.name.name ∉ seen := by
  induction decls generalizing seen with
  | nil => simp [duplicates]
  | cons decl rest ih =>
    simp only [duplicates, map_cons, nodup_cons, forall_mem_cons]
    by_cases again : decl.name.name ∈ seen
    · simp [again]
    · rw [if_neg (by simpa using again), ih]
      simp only [mem_cons, not_or, mem_map, not_exists, not_and]
      constructor
      · rintro ⟨distinct, fresh⟩
        exact ⟨⟨fun other mem same => (fresh other mem).1 same, distinct⟩, again,
          fun other mem => (fresh other mem).2⟩
      · rintro ⟨⟨apart, distinct⟩, -, fresh⟩
        exact ⟨distinct, fun other mem => ⟨apart other mem, fresh other mem⟩⟩

/-- A structure is refused only after a mistake, and only mistakes are noted. -/
structure Justified (decls : List StructDecl) (survey : Survey) : Prop where
  noted : survey.failed ≠ [] → survey.errors ≠ []
  flawed : Sound decls → survey.errors = []

theorem Surveyed.justified (surveyed : Surveyed file decls survey) : Justified decls survey := by
  obtain ⟨run, -, -⟩ := surveyed
  induction run with
  | refl =>
    refine ⟨fun some => absurd rfl some, fun sound => duplicates_eq_nil.mpr ⟨sound.distinct, ?_⟩⟩
    exact fun _ _ => not_mem_nil
  | tail _ event ih =>
    cases event with
    | note flaw span =>
      exact ⟨fun _ => concat_ne_nil _ _, fun sound => absurd sound flaw.not_sound⟩
    | loop loop fresh =>
      refine ⟨fun _ => concat_ne_nil _ _, fun sound => absurd ?_ (sound.acyclic loop.head)⟩
      exact loop.cycle.lift id fun _ _ => Holds.contains
    | refuse settled flawed => exact ⟨fun _ => flawed.elim id ih.noted, ih.flawed⟩
    | finish => exact ⟨ih.noted, ih.flawed⟩

section

variable (builds : build file decls = .ok layouts)
include builds

/-- What an accepted list of declarations is. -/
theorem accepted_of_build : (decls.map fun decl => decl.name.name).Nodup ∧ Laid decls layouts ∧
      ∀ decl ∈ decls, (layouts.get? decl.name.name).isSome := by
  obtain ⟨survey, surveyed, none, rfl⟩ := surveyed_of_build builds
  have unfailed : survey.failed = [] := not_not.mp fun some => surveyed.justified.noted some none
  have distinct : duplicates file [] decls = [] :=
    prefix_nil.mp (none ▸ (grows_of_run surveyed.run).errors)
  refine ⟨(duplicates_eq_nil.mp distinct).1, surveyed.laid, fun decl mem => ?_⟩
  have knows := surveyed.knows _ (isSome_declaration?.mpr (mem_map_of_mem mem))
  exact knows.resolve_right (unfailed ▸ not_mem_nil)

theorem follows_of_build (mem : decl ∈ decls) : ∃ layout extent,
      layouts.get? decl.name.name = some layout ∧ Follows decls decl layout extent := by
  obtain ⟨distinct, laid, complete⟩ := accepted_of_build builds
  obtain ⟨layout, found⟩ := Option.isSome_iff_exists.mp (complete decl mem)
  obtain ⟨other, extent, declared, follows⟩ := laid.follow _ layout found
  obtain rfl := Option.some.inj (declared.symm.trans (declaration?_of_mem distinct mem))
  exact ⟨layout, extent, found, follows⟩

theorem sound_of_build : Sound decls := by
  obtain ⟨distinct, laid, complete⟩ := accepted_of_build builds
  refine ⟨distinct, ?_, ?_, acyclic_of_follow laid.follow complete, ?_⟩
  · intro decl mem
    obtain ⟨_, _, -, follows⟩ := follows_of_build builds mem
    exact follows.distinct
  · intro decl mem field inFields inner written
    obtain ⟨_, _, -, follows⟩ := follows_of_build builds mem
    exact isSome_declaration?.mp (written ▸ follows.occupies field inFields).isDeclared
  · intro decl mem size alignment occupies
    obtain ⟨layout, extent, -, follows⟩ := follows_of_build builds mem
    have same := occupies.unique (.struct extent (declaration?_of_mem distinct mem)
      follows.occupies)
    rw [← follows.extent_eq] at same
    exact (Prod.mk.inj same).1 ▸ follows.small

end

theorem build_of_sound (sound : Sound decls) : ∃ layouts, build file decls = .ok layouts := by
  rw [build_eq]
  exact ⟨_, if_pos (isEmpty_iff.mpr ((surveyed file decls).justified.flawed sound))⟩

/-- Declarations have layouts exactly if they are without mistakes, and the layouts are
then those over numbers without a bound. -/
theorem build_accepts (file : String) (decls : List StructDecl) :
    ((∃ layouts, build file decls = .ok layouts) ↔ Sound decls) ∧
      ∀ layouts, build file decls = .ok layouts → ∀ decl ∈ decls, ∃ layout extent,
        layouts.get? decl.name.name = some layout ∧ Follows decls decl layout extent := by
  refine ⟨⟨?_, build_of_sound⟩, fun layouts builds decl => follows_of_build builds⟩
  rintro ⟨layouts, builds⟩
  exact sound_of_build builds

end StructWasm.Layouts

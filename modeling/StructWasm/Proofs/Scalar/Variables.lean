import StructWasm.Proofs.LocalPool.Held
import StructWasm.Proofs.Lowering.StatementTyping

/-!
# Variables in locals

While a scalar program is lowered every variable in scope has a local of its own, and
none of them is the frame pointer. Variables come and go with the blocks that declare
them, and their locals are used again.
-/

namespace StructWasm.Lowering

open List

/-- The local that holds a primitive variable. -/
def Binding.place? : Binding → Option LocalRef
  | .scalar _ place => some place
  | .struct _ => none

/-- The locals of the variables of a scope. -/
def scopePlaces (scope : Scope) : List LocalRef :=
  scope.filterMap fun entry => entry.2.place?

/-- The locals of all variables in scope. -/
def placesOf (scopes : List Scope) : List LocalRef :=
  scopes.flatMap scopePlaces

@[simp] theorem placesOf_cons (scope : Scope) (outer : List Scope) :
    placesOf (scope :: outer) = scopePlaces scope ++ placesOf outer :=
  rfl

@[simp] theorem scopePlaces_scalar (name : String) (type : Ty) (place : LocalRef) (scope : Scope) :
    scopePlaces ((name, .scalar type place) :: scope) = place :: scopePlaces scope :=
  rfl

/-- All names stand for primitive variables. -/
def AllScalar (scopes : List Scope) : Prop :=
  ∀ scope ∈ scopes, ∀ entry ∈ scope, ∃ type place, entry.2 = .scalar type place

namespace AllScalar

theorem head (scalar : AllScalar (scope :: scopes)) :
    ∀ entry ∈ scope, ∃ type place, entry.2 = .scalar type place :=
  scalar scope mem_cons_self

theorem tail (scalar : AllScalar scopes) : AllScalar scopes.tail :=
  fun scope mem => scalar scope (mem_of_mem_tail mem)

theorem of_lookup? (scalar : AllScalar scopes)
    (bound : lookup? scopes name = some binding) : ∃ type place, binding = .scalar type place := by
  obtain ⟨scope, inScopes, bound⟩ := exists_of_findSome?_eq_some bound
  obtain ⟨later, earlier, rfl, -⟩ := lookup_eq_some_iff.mp bound
  exact scalar _ inScopes (name, binding) (by simp)

theorem forkedScope_eq (scalar : ∀ entry ∈ scope, ∃ type place, entry.2 = .scalar type place)
    (loan : Option Ownership.Loan) (arena : Ownership.Arena) :
    forkedScope loan scope arena = (scope, arena) := by
  induction scope with
  | nil => rfl
  | cons entry rest ih =>
    obtain ⟨name, binding⟩ := entry
    obtain ⟨type, place, rfl⟩ := scalar _ mem_cons_self
    rw [forkedScope_cons, forkedBinding_scalar,
      ih fun other mem => scalar other (mem_cons_of_mem _ mem)]

theorem forkedScopes_eq (scalar : AllScalar scopes) (loan : Option Ownership.Loan)
    (arena : Ownership.Arena) : forkedScopes loan scopes arena = (scopes, arena) := by
  induction scopes with
  | nil => rfl
  | cons scope outer ih =>
    rw [forkedScopes_cons, forkedScope_eq scalar.head, ih scalar.tail]

theorem nodesOf_eq (scalar : AllScalar scopes) : nodesOf scopes = [] := by
  unfold nodesOf
  rw [flatMap_eq_nil_iff]
  intro scope inScopes
  rw [filterMap_eq_nil_iff]
  rintro ⟨name, binding⟩ inScope
  obtain ⟨type, place, rfl⟩ := scalar scope inScopes _ inScope
  rfl

end AllScalar

/-- Every variable in scope has a local of its own. -/
structure Plain (ctx : Context) (work : Workspace) : Prop where
  scalars : AllScalar work.scopes
  held : ∀ place ∈ ctx.framePointer :: placesOf work.scopes, work.locals.Holds place
  distinct : (ctx.framePointer :: placesOf work.scopes).Nodup
  ordered : work.locals.InOrder

namespace Plain

variable {ctx : Context} {work next : Workspace}

variable (plain : Plain ctx work)
include plain

theorem forked_eq (loan : Option Ownership.Loan) : forked loan work = work := by
  unfold forked
  rw [plain.scalars.forkedScopes_eq]

theorem joinedOptional_eq (saved_eq : saved = work.scopes) : joinedOptional saved work = work := by
  subst saved_eq
  unfold joinedOptional
  rw [plain.scalars.nodesOf_eq]
  rfl

theorem joinedArms_eq (first_eq : first = work.scopes)
    (second_eq : second = work.scopes) (firstNever secondNever : Bool) :
    joinedArms first second firstNever secondNever work = work := by
  subst first_eq second_eq
  unfold joinedArms
  rw [plain.scalars.nodesOf_eq]
  cases firstNever <;> cases secondNever <;> rfl

theorem of_eq (locals_eq : next.locals = work.locals)
    (scopes_eq : next.scopes = work.scopes) : Plain ctx next := by
  obtain ⟨scalars, held, distinct, ordered⟩ := plain
  rw [← scopes_eq] at scalars held distinct
  rw [← locals_eq] at held ordered
  exact ⟨scalars, held, distinct, ordered⟩

theorem pushScope : Plain ctx { work with scopes := [] :: work.scopes } where
  scalars := by
    intro scope inScopes entry inScope
    rcases mem_cons.mp inScopes with rfl | inScopes
    · cases inScope
    · exact plain.scalars scope inScopes entry inScope
  held := plain.held
  distinct := plain.distinct
  ordered := plain.ordered

/-- A name is entered with a local that no other variable has. -/
theorem enter (name : String) (type : Ty) (ordered : locals.InOrder)
    (held : locals.Holds place) (fresh : ∀ other ∈ ctx.framePointer :: placesOf work.scopes,
      locals.Holds other ∧ other ≠ place) :
    Plain ctx
      { work with locals, scopes := enter work.scopes name (.scalar type place) } := by
  obtain ⟨before, frame, arena, scopes, requests⟩ := work
  cases scopes with
  | nil =>
    exact ⟨plain.scalars, fun other mem => (fresh other mem).1, plain.distinct, ordered⟩
  | cons scope outer =>
    refine ⟨?_, ?_, ?_, ordered⟩
    · intro inner inScopes entry inScope
      rcases mem_cons.mp inScopes with rfl | inScopes
      · rcases mem_cons.mp inScope with rfl | inScope
        · exact ⟨type, place, rfl⟩
        · exact plain.scalars.head entry inScope
      · exact plain.scalars.tail inner inScopes entry inScope
    · intro other mem
      change other ∈ ctx.framePointer :: place :: placesOf (scope :: outer) at mem
      rcases mem_cons.mp mem with rfl | mem
      · exact (fresh _ mem_cons_self).1
      · rcases mem_cons.mp mem with rfl | mem
        · exact held
        · exact (fresh other (mem_cons_of_mem _ mem)).1
    · change (ctx.framePointer :: place :: placesOf (scope :: outer)).Nodup
      rw [(List.Perm.swap _ _ _).nodup_iff, nodup_cons]
      exact ⟨fun mem => (fresh place mem).2 rfl, plain.distinct⟩

theorem freeLocal (held : work.locals.Holds place)
    (unused : place ∉ ctx.framePointer :: placesOf work.scopes)
    (freed : work.locals.free place = .ok locals) : Plain ctx { work with locals } := by
  obtain ⟨ordered, others⟩ := plain.ordered.free held freed
  refine ⟨plain.scalars, ?_, plain.distinct, ordered⟩
  intro other mem
  refine others other (plain.held other mem) ?_
  rintro rfl
  exact unused mem

/-- The variables of a block that has ended give their locals back, and nothing of the
frame. -/
theorem releaseAll (scalar : ∀ entry ∈ entries, ∃ type place, entry.2 = .scalar type place)
    (held : ∀ place ∈ scopePlaces entries, work.locals.Holds place)
    (distinct : (scopePlaces entries ++ ctx.framePointer :: placesOf work.scopes).Nodup)
    (runs : Runs (entries.forM fun (_, binding) => releaseBinding binding) ctx work result
      next) : Plain ctx next ∧ next.frame = work.frame := by
  induction entries generalizing work with
  | nil =>
    obtain ⟨-, rfl⟩ := runs.pure
    exact ⟨plain, rfl⟩
  | cons entry rest ih =>
    obtain ⟨name, binding⟩ := entry
    obtain ⟨type, place, same⟩ := scalar _ mem_cons_self
    obtain rfl : binding = .scalar type place := same
    have scalarRest := fun other mem => scalar other (mem_cons_of_mem _ mem)
    rw [scopePlaces_scalar, cons_append, nodup_cons] at distinct
    unfold List.forM at runs
    obtain ⟨_, mid, releases, runs⟩ := runs.bind
    change Runs (if place.isParam then pure () else Lowering.freeLocal place) ctx work _ mid
      at releases
    split at releases
    · obtain ⟨-, rfl⟩ := releases.pure
      exact ih plain scalarRest
        (fun other mem => held other (mem_cons_of_mem _ mem)) distinct.2 runs
    · obtain ⟨locals, freed, rfl⟩ := runs_freeLocal.mp releases
      have here := held place mem_cons_self
      obtain ⟨-, others⟩ := plain.ordered.free here freed
      have unused : place ∉ ctx.framePointer :: placesOf work.scopes :=
        fun mem => distinct.1 (mem_append_right _ mem)
      have stillHeld (other : LocalRef) (mem : other ∈ scopePlaces rest) : locals.Holds other := by
        refine others other (held other (mem_cons_of_mem _ mem)) ?_
        rintro rfl
        exact distinct.1 (mem_append_left _ mem)
      obtain ⟨plainAfter, frame_eq⟩ := ih (plain.freeLocal here unused freed)
        scalarRest stillHeld distinct.2 runs
      exact ⟨plainAfter, frame_eq⟩

theorem popScope (runs : Runs popScope ctx work result next) :
    Plain ctx next ∧ next.frame = work.frame := by
  obtain ⟨before, frame, arena, scopes, requests⟩ := work
  unfold Lowering.popScope at runs
  replace runs := runs_get_bind.mp runs
  obtain ⟨_, mid, sets, runs⟩ := runs.bind
  obtain rfl := runs_set.mp sets
  cases scopes with
  | nil =>
    obtain ⟨-, rfl⟩ := runs.pure
    exact ⟨plain, rfl⟩
  | cons scope outer =>
    have distinct := plain.distinct
    rw [placesOf_cons] at distinct
    have apart : (scopePlaces scope ++ ctx.framePointer :: placesOf outer).Nodup :=
      perm_middle.nodup_iff.mpr distinct
    have outside : Plain ctx ⟨before, frame, arena, outer, requests⟩ := by
      refine ⟨plain.scalars.tail, ?_, (nodup_append.mp apart).2.1, plain.ordered⟩
      intro place mem
      rcases mem_cons.mp mem with rfl | mem
      · exact plain.held _ mem_cons_self
      · exact plain.held place (mem_cons_of_mem _ (mem_append_right _ mem))
    refine outside.releaseAll plain.scalars.head ?_ apart runs
    intro place mem
    exact plain.held place (mem_cons_of_mem _ (mem_append_left _ mem))

end Plain

end StructWasm.Lowering

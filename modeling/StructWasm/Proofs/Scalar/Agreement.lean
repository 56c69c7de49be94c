import StructWasm.Proofs.Scalar.Operators
import StructWasm.Proofs.Scalar.Variables

/-!
# Locals that hold the values of variables

When the code of a function is executed, the local of every variable in scope holds
its value, and the frame pointer keeps its own. A write to a local of one variable
leaves the others alone, since no two variables share a local.
-/

namespace StructWasm.Lowering

open List Environment

open Wasm (Constant)

/-- Where the locals of a function are once all of them are numbered. -/
structure Placing where
  /-- The locals. -/
  pool : LocalPool
  /-- The one that holds the address of the frame. -/
  framePointer : LocalRef
  /-- How numbers are looked up. -/
  resolver : Wasm.Resolver codeRefs
  /-- Index of a local. -/
  number : LocalRef → Nat
  localIndex_eq : ∀ {ref}, pool.Has ref → resolver.localIndex ref = .ok (number ref)
  injective : ∀ {ref other}, pool.Has ref → pool.Has other → number ref = number other →
    ref = other
  hasFramePointer : pool.Has framePointer

namespace Placing

variable {placing : Placing}

/-- A local holds the value of a variable. -/
structure Keeps (placing : Placing) (locals : List Constant) (entry : String × Binding)
    (held : String × Scalar) : Prop where
  name_eq : held.1 = entry.1
  kept : ∃ place, entry.2 = .scalar held.2.type place ∧ placing.pool.Has place ∧
    locals[placing.number place]? = some held.2.word

/-- The locals hold the values of all variables in scope. -/
structure Agrees (placing : Placing) (base : Constant) (scopes : List Scope)
    (env : Environment) (locals : List Constant) : Prop where
  sized : ∀ ref, placing.pool.Has ref → placing.number ref < locals.length
  base_eq : locals[placing.number placing.framePointer]? = some base
  keeps : List.Forall₂ (List.Forall₂ (placing.Keeps locals)) scopes env

variable {scopes : List Scope} {env : Environment} {locals : List Constant}

/-! ## Reading -/

/-- What a name stands for and the value that it has. -/
def Found (placing : Placing) (locals : List Constant) : Option Binding → Option Scalar → Prop
  | some binding, some value => ∃ place, binding = .scalar value.type place ∧
      placing.pool.Has place ∧ locals[placing.number place]? = some value.word
  | none, none => True
  | _, _ => False

theorem found_lookup (keeps : List.Forall₂ (placing.Keeps locals) scope held)
    (name : String) : placing.Found locals (scope.lookup name) (held.lookup name) := by
  induction keeps with
  | nil => trivial
  | @cons entry value _ _ head _ ih =>
    obtain ⟨entryName, binding⟩ := entry
    obtain ⟨heldName, value⟩ := value
    obtain ⟨rfl, kept⟩ := head
    rw [List.lookup_cons, List.lookup_cons]
    cases name == heldName with
    | true => exact kept
    | false => exact ih

theorem Agrees.found (agrees : placing.Agrees base scopes env locals) (name : String) :
    placing.Found locals (lookup? scopes name) (env.value? name) := by
  have keeps := agrees.keeps
  clear agrees
  unfold lookup? value?
  induction keeps with
  | nil => trivial
  | @cons scope held _ _ head _ ih =>
    have here := found_lookup head name
    rw [findSome?_cons, findSome?_cons]
    cases inScope : scope.lookup name with
    | some binding =>
      cases inHeld : held.lookup name with
      | some value => simpa only [inScope, inHeld] using here
      | none => simp [inScope, inHeld, Found] at here
    | none =>
      cases inHeld : held.lookup name with
      | some value => simp [inScope, inHeld, Found] at here
      | none => exact ih

theorem Agrees.types_eq (agrees : placing.Agrees base scopes env locals) :
    (fun name => (lookup? scopes name).map Binding.type) =
      fun name => (env.value? name).map Scalar.type := by
  funext name
  have found := agrees.found name
  cases bound : lookup? scopes name with
  | none =>
    cases held : env.value? name with
    | none => rfl
    | some value => simp [bound, held, Found] at found
  | some binding =>
    cases held : env.value? name with
    | none => simp [bound, held, Found] at found
    | some value =>
      rw [bound, held] at found
      obtain ⟨place, rfl, -⟩ := found
      rfl

/-! ## Writing -/

section Writing

variable {place : LocalRef}

theorem getElem?_set_of_ne (has : placing.pool.Has place)
    (hasOther : placing.pool.Has other) (ne : other ≠ place) :
    (locals.set (placing.number place) word)[placing.number other]? =
      locals[placing.number other]? := by
  refine getElem?_set_ne ?_
  exact fun same => ne (placing.injective has hasOther same).symm

theorem Keeps.write (keeps : placing.Keeps locals entry held)
    (has : placing.pool.Has place) (ne : entry.2.place? ≠ some place) :
    placing.Keeps (locals.set (placing.number place) word) entry held := by
  obtain ⟨name_eq, kept, binding_eq, hasKept, value_eq⟩ := keeps
  refine ⟨name_eq, kept, binding_eq, hasKept, ?_⟩
  rw [getElem?_set_of_ne has hasKept, value_eq]
  rintro rfl
  exact ne (by rw [binding_eq]; rfl)

variable {name : String}

theorem keeps_write_scope (keeps : List.Forall₂ (placing.Keeps locals) scope held)
    (has : placing.pool.Has place) (unused : place ∉ scopePlaces scope) :
    List.Forall₂ (placing.Keeps (locals.set (placing.number place) word)) scope held := by
  induction keeps with
  | nil => exact .nil
  | @cons entry _ rest _ head _ ih =>
    refine .cons (head.write has ?_) (ih ?_)
    · intro same
      exact unused (mem_filterMap.mpr ⟨entry, mem_cons_self, same⟩)
    · intro mem
      obtain ⟨other, inRest, same⟩ := mem_filterMap.mp mem
      exact unused (mem_filterMap.mpr ⟨other, mem_cons_of_mem _ inRest, same⟩)

theorem keeps_write_scopes (keeps : List.Forall₂ (List.Forall₂ (placing.Keeps locals)) scopes env)
    (has : placing.pool.Has place) (unused : place ∉ placesOf scopes) :
    List.Forall₂ (List.Forall₂ (placing.Keeps (locals.set (placing.number place) word)))
      scopes env := by
  induction keeps with
  | nil => exact .nil
  | cons head _ ih =>
    rw [placesOf_cons, mem_append, not_or] at unused
    exact .cons (keeps_write_scope head has unused.1) (ih unused.2)

theorem Agrees.write (agrees : placing.Agrees base scopes env locals) (has : placing.pool.Has place)
    (unused : place ∉ placing.framePointer :: placesOf scopes) (word : Constant) :
    placing.Agrees base scopes env (locals.set (placing.number place) word) where
  sized := fun ref hasRef => by
    rw [length_set]
    exact agrees.sized ref hasRef
  base_eq := by
    rw [getElem?_set_of_ne has placing.hasFramePointer, agrees.base_eq]
    rintro rfl
    exact unused mem_cons_self
  keeps := keeps_write_scopes agrees.keeps has fun mem => unused (mem_cons_of_mem _ mem)

theorem Agrees.declare (agrees : placing.Agrees base scopes env locals) (name : String)
    (value : Scalar) (has : placing.pool.Has place)
    (unused : place ∉ placing.framePointer :: placesOf scopes) :
    placing.Agrees base (enter scopes name (.scalar value.type place)) (env.declare name value)
      (locals.set (placing.number place) value.word) := by
  have written := agrees.write has unused value.word
  refine ⟨written.sized, written.base_eq, ?_⟩
  have keeps := written.keeps
  cases keeps with
  | nil => exact .nil
  | cons head tail =>
    refine .cons (.cons ⟨rfl, place, rfl, has, ?_⟩ head) tail
    exact getElem?_set_self (agrees.sized place has)

theorem mem_scopePlaces_of_lookup (bound : scope.lookup name = some (.scalar type place)) :
    place ∈ scopePlaces scope := by
  obtain ⟨later, earlier, rfl, -⟩ := lookup_eq_some_iff.mp bound
  exact mem_filterMap.mpr ⟨(name, .scalar type place), by simp, rfl⟩

theorem mem_placesOf_of_lookup? (bound : lookup? scopes name = some (.scalar type place)) :
    place ∈ placesOf scopes := by
  obtain ⟨scope, mem, bound⟩ := exists_of_findSome?_eq_some bound
  exact mem_flatMap.mpr ⟨scope, mem, mem_scopePlaces_of_lookup bound⟩

theorem keeps_assignIn (keeps : List.Forall₂ (placing.Keeps locals) scope held)
    (bound : scope.lookup name = some (.scalar value.type place))
    (distinct : (scopePlaces scope).Nodup) (has : placing.pool.Has place)
    (sized : placing.number place < locals.length) :
    List.Forall₂ (placing.Keeps (locals.set (placing.number place) value.word)) scope
      (assignIn name value held) := by
  induction keeps with
  | nil => cases bound
  | @cons entry first rest heldRest head tail ih =>
    obtain ⟨entryName, binding⟩ := entry
    obtain ⟨heldName, heldValue⟩ := first
    obtain ⟨rfl, kept, binding_eq, hasKept, value_eq⟩ := head
    obtain rfl : binding = .scalar heldValue.type kept := binding_eq
    rw [scopePlaces_scalar, nodup_cons] at distinct
    rw [List.lookup_cons] at bound
    unfold assignIn
    cases named : name == heldName with
    | true =>
      rw [named] at bound
      injection bound with same
      injection same with type_eq place_eq
      subst place_eq
      rw [if_pos rfl]
      refine .cons ⟨rfl, kept, by rw [type_eq], has, getElem?_set_self sized⟩ ?_
      exact keeps_write_scope tail has distinct.1
    | false =>
      rw [named] at bound
      rw [if_neg (by simp)]
      refine .cons ?_ (ih bound distinct.2)
      refine Keeps.write ⟨rfl, kept, rfl, hasKept, value_eq⟩ has ?_
      rintro ⟨⟩
      exact distinct.1 (mem_scopePlaces_of_lookup bound)

theorem keeps_assign (keeps : List.Forall₂ (List.Forall₂ (placing.Keeps locals)) scopes env)
    (bound : lookup? scopes name = some (.scalar value.type place))
    (distinct : (placesOf scopes).Nodup) (has : placing.pool.Has place)
    (sized : placing.number place < locals.length) :
    ∃ changed, assign? name value env = some changed ∧ List.Forall₂ (List.Forall₂
        (placing.Keeps (locals.set (placing.number place) value.word))) scopes changed := by
  unfold lookup? at bound
  induction keeps with
  | nil => cases bound
  | @cons scope held outer rest head tail ih =>
    rw [placesOf_cons, nodup_append] at distinct
    obtain ⟨distinctHead, distinctTail, apart⟩ := distinct
    have here := found_lookup head name
    rw [findSome?_cons] at bound
    unfold assign?
    cases inScope : scope.lookup name with
    | some binding =>
      obtain rfl : binding = .scalar value.type place := by simpa [inScope] using bound
      cases inHeld : held.lookup name with
      | none => simp [inScope, inHeld, Found] at here
      | some other =>
        refine ⟨_, if_pos rfl, .cons ?_ ?_⟩
        · exact keeps_assignIn head inScope distinctHead has sized
        · refine keeps_write_scopes tail has fun mem => ?_
          exact apart place (mem_scopePlaces_of_lookup inScope) place mem rfl
    | none =>
      cases inHeld : held.lookup name with
      | some other => simp [inScope, inHeld, Found] at here
      | none =>
        replace bound : outer.findSome? (fun scope => scope.lookup name) =
            some (.scalar value.type place) := by simpa [inScope] using bound
        obtain ⟨changed, assigned, keeps⟩ := ih bound distinctTail
        refine ⟨held :: changed, by simp [assigned], .cons ?_ keeps⟩
        refine keeps_write_scope head has fun mem => ?_
        exact apart place mem place (mem_placesOf_of_lookup? bound) rfl

theorem Agrees.assign (agrees : placing.Agrees base scopes env locals)
    (bound : lookup? scopes name = some (.scalar value.type place))
    (distinct : (placing.framePointer :: placesOf scopes).Nodup) (has : placing.pool.Has place) :
    ∃ changed, assign? name value env = some changed ∧
      placing.Agrees base scopes changed (locals.set (placing.number place) value.word) := by
  obtain ⟨notPointer, distinctPlaces⟩ := nodup_cons.mp distinct
  obtain ⟨changed, assigned, keeps⟩ :=
    keeps_assign agrees.keeps bound distinctPlaces has (agrees.sized place has)
  refine ⟨changed, assigned, ?_, ?_, keeps⟩
  · intro ref hasRef
    rw [length_set]
    exact agrees.sized ref hasRef
  · rw [getElem?_set_of_ne has placing.hasFramePointer, agrees.base_eq]
    rintro rfl
    exact notPointer (mem_placesOf_of_lookup? bound)

end Writing

end Placing
end StructWasm.Lowering

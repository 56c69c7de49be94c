import StructWasm.Proofs.Lowering.Steps
import StructWasm.Proofs.Ownership.Loans

/-!
# Names that keep their meaning

Branches give variables copies of their ownership, and afterwards the variables may
be left with the copies. Apart from that a name stands for the same thing before
and after an expression.
-/

namespace StructWasm.Lowering

open List

open Ownership (Arena NodeId)

/-- Bindings that differ at most in their ownership, and there in a known way. -/
inductive SameBinding (related : NodeId → NodeId → Prop) : Binding → Binding → Prop where
  | scalar (type : Ty) (place : LocalRef) :
      SameBinding related (.scalar type place) (.scalar type place)
  | struct (entry : StructVariable) (node : NodeId) (nodes : related entry.node node) :
      SameBinding related (.struct entry) (.struct { entry with node })

/-- A name with bindings that differ at most in their ownership. -/
def SameEntry (related : NodeId → NodeId → Prop) (first second : String × Binding) : Prop :=
  second.1 = first.1 ∧ SameBinding related first.2 second.2

/-- Scopes that differ at most in the ownership of their variables. -/
def SameScopes (related : NodeId → NodeId → Prop) (first second : List Scope) : Prop :=
  List.Forall₂ (List.Forall₂ (SameEntry related)) first second

/-- A node of a later arena that carries a loan if a node of an earlier one did. -/
def Lending (before after : Arena) (old new : NodeId) : Prop :=
  before.Lent old → after.Lent new

variable {related nextRelated overall : NodeId → NodeId → Prop}

theorem SameEntry.trans
    (chain : ∀ {old mid new}, related old mid → nextRelated mid new → overall old new)
    (left : SameEntry related first second)
    (right : SameEntry nextRelated second third) : SameEntry overall first third := by
  obtain ⟨name, binding⟩ := first
  obtain ⟨_, other⟩ := second
  obtain ⟨_, last⟩ := third
  obtain ⟨rfl, left⟩ := left
  obtain ⟨rfl, right⟩ := right
  refine ⟨rfl, ?_⟩
  cases left with
  | scalar type place =>
    cases right
    exact .scalar type place
  | struct entry node nodes =>
    cases right with
    | struct _ other nodesToo => exact .struct entry other (chain nodes nodesToo)

theorem SameEntry.imp (implies : ∀ old new, related old new → overall old new)
    (same : SameEntry related first second) : SameEntry overall first second := by
  obtain ⟨name, binding⟩ := first
  obtain ⟨_, other⟩ := second
  obtain ⟨rfl, sameBinding⟩ := same
  refine ⟨rfl, ?_⟩
  cases sameBinding with
  | scalar type place => exact .scalar type place
  | struct held node nodes => exact .struct held node (implies _ _ nodes)

theorem forall₂_trans {α : Type} {related nextRelated overall : α → α → Prop}
    (chain : ∀ first second third,
      related first second → nextRelated second third → overall first third) {first second third}
    (left : List.Forall₂ related first second) (right : List.Forall₂ nextRelated second third) :
    List.Forall₂ overall first third := by
  induction left generalizing third with
  | nil =>
    cases right
    exact .nil
  | cons head _ ih =>
    cases right with
    | cons nextHead nextTail => exact .cons (chain _ _ _ head nextHead) (ih nextTail)

namespace SameScopes

variable {after : Arena} {scopes : List Scope}

theorem refl (arena : Arena) (scopes : List Scope) :
    SameScopes (Lending arena arena) scopes scopes := by
  refine forall₂_same.mpr fun _ _ => forall₂_same.mpr fun entry _ => ⟨rfl, ?_⟩
  cases entry.2 with
  | scalar type place => exact .scalar type place
  | struct held => exact .struct held held.node fun lent => lent

theorem trans (left : SameScopes (Lending before mid) first second)
    (right : SameScopes (Lending mid after) second third) :
    SameScopes (Lending before after) first third := by
  refine forall₂_trans ?_ left right
  intro _ _ _ left right
  refine forall₂_trans ?_ left right
  intro _ _ _ left right
  exact SameEntry.trans (fun lending more lent => more (lending lent)) left right

theorem imp (implies : ∀ old new, related old new → overall old new)
    (same : SameScopes related first second) : SameScopes overall first second :=
  List.Forall₂.imp (fun _ _ => List.Forall₂.imp fun _ _ => SameEntry.imp implies) same

theorem later (same : SameScopes (Lending before mid) first second)
    (leads : mid.Leads after) : SameScopes (Lending before after) first second :=
  same.imp fun _ _ lending lent => leads.keepsLoans (lending lent)

end SameScopes

/-! ## Looking names up -/

theorem rel_lookup (same : List.Forall₂ (SameEntry related) first second) (name : String) :
    Option.Rel (SameBinding related) (first.lookup name) (second.lookup name) := by
  induction same with
  | nil => exact .none
  | @cons entry other _ _ head _ ih =>
    rw [lookup_cons, lookup_cons, head.1]
    cases name == entry.1 with
    | true => exact .some head.2
    | false => exact ih

theorem SameScopes.rel_lookup? (same : SameScopes related first second) (name : String) :
    Option.Rel (SameBinding related) (lookup? first name) (lookup? second name) := by
  induction same with
  | nil => exact .none
  | cons head _ ih =>
    unfold lookup? at ih ⊢
    have rel := rel_lookup head name
    rw [findSome?_cons, findSome?_cons]
    generalize lookup name _ = before at rel ⊢
    generalize lookup name _ = after at rel ⊢
    cases rel with
    | none => exact ih
    | some sameBinding => exact .some sameBinding

theorem SameScopes.lookup?_eq (same : SameScopes related first second)
    (found : lookup? first name = some (.struct entry)) :
    ∃ node, lookup? second name = some (.struct { entry with node }) ∧ related entry.node node := by
  have rel := same.rel_lookup? name
  rw [found] at rel
  generalize lookup? second name = after at rel ⊢
  cases rel with
  | some sameBinding =>
    cases sameBinding with
    | struct _ node nodes => exact ⟨node, rfl, nodes⟩

/-! ## What all names stand for -/

/-- All that the names of some scopes stand for has a property. -/
def AllBindings (holds : Binding → Prop) (scopes : List Scope) : Prop :=
  ∀ scope ∈ scopes, ∀ entry ∈ scope, holds entry.2

theorem mem_of_lookup {α : Type} {entries : List (String × α)} {name value}
    (found : entries.lookup name = some value) : (name, value) ∈ entries := by
  obtain ⟨before, behind, rfl, -⟩ := lookup_eq_some_iff.mp found
  exact mem_append_right _ mem_cons_self

namespace AllBindings

variable {holds weaker : Binding → Prop} {scopes : List Scope} {binding : Binding}

variable (all : AllBindings holds scopes)
include all

theorem imp (implies : ∀ binding, holds binding → weaker binding) : AllBindings weaker scopes :=
  fun scope inScopes entry inScope => implies _ (all scope inScopes entry inScope)

theorem of_same (same : SameScopes related scopes others)
    (kept : ∀ binding other, SameBinding related binding other → holds binding → holds other) :
    AllBindings holds others := by
  intro other inOthers entry inOther
  obtain ⟨scope, inScopes, sameScope⟩ := exists_of_forall₂ same inOthers
  obtain ⟨first, inScope, -, sameBinding⟩ := exists_of_forall₂ sameScope inOther
  exact kept _ _ sameBinding (all scope inScopes first inScope)

theorem lookup {name} (found : lookup? scopes name = some binding) : holds binding := by
  obtain ⟨scope, inScopes, inScope⟩ := exists_of_findSome?_eq_some found
  exact all scope inScopes (name, binding) (mem_of_lookup inScope)

theorem enter (held : holds binding) (name : String) :
    AllBindings holds (enter scopes name binding) := by
  cases scopes with
  | nil => exact all
  | cons scope outer =>
    intro other inScopes entry inScope
    rcases mem_cons.mp inScopes with rfl | inOuter
    · rcases mem_cons.mp inScope with rfl | inOld
      · exact held
      · exact all scope mem_cons_self entry inOld
    · exact all other (mem_cons_of_mem _ inOuter) entry inScope

end AllBindings

/-! ## Copies of ownership -/

/-- A binding with a copy of its ownership, and the copy. -/
def forkedBinding (loan : Option Ownership.Loan) (entry : String × Binding)
    (arena : Ownership.Arena) : (String × Binding) × Ownership.Arena :=
  StateT.run (forkBinding loan entry) arena

/-- A scope with copies of the ownership of its variables, and the copies. -/
def forkedScope (loan : Option Ownership.Loan) (scope : Scope)
    (arena : Ownership.Arena) : Scope × Ownership.Arena :=
  StateT.run (List.mapM (forkBinding loan) scope) arena

section

variable (loan : Option Ownership.Loan)
include loan

theorem forkedScope_cons (entry : String × Binding) (rest : Scope) (arena : Ownership.Arena) :
    forkedScope loan (entry :: rest) arena = ((forkedBinding loan entry arena).1 ::
        (forkedScope loan rest (forkedBinding loan entry arena).2).1,
        (forkedScope loan rest (forkedBinding loan entry arena).2).2) := by
  unfold forkedScope
  rw [mapM_cons]
  rfl

theorem forkedScopes_cons (scope : Scope) (rest : List Scope) (arena : Ownership.Arena) :
    forkedScopes loan (scope :: rest) arena = ((forkedScope loan scope arena).1 ::
        (forkedScopes loan rest (forkedScope loan scope arena).2).1,
        (forkedScopes loan rest (forkedScope loan scope arena).2).2) := by
  unfold forkedScopes
  rw [mapM_cons]
  rfl

theorem forkedBinding_scalar (name : String) (type : Ty)
    (place : LocalRef) (arena : Ownership.Arena) :
    forkedBinding loan (name, .scalar type place) arena = ((name, .scalar type place), arena) :=
  rfl

theorem leads_forkedBinding (entry : String × Binding)
    (arena : Arena) : arena.Leads (forkedBinding loan entry arena).2 := by
  obtain ⟨name, binding⟩ := entry
  cases binding with
  | scalar type place => exact .refl arena
  | struct held =>
    have cloned := (Arena.Leads.refl arena).call (.cloneValue held.node)
    cases loan with
    | none => exact cloned
    | some loan => exact cloned.call (.borrow _ (some loan))

theorem leads_forkedScope (scope : Scope) (arena : Arena) :
    arena.Leads (forkedScope loan scope arena).2 := by
  induction scope generalizing arena with
  | nil => exact .refl arena
  | cons entry rest ih =>
    rw [forkedScope_cons]
    exact (leads_forkedBinding loan entry arena).trans (ih _)

theorem leads_forkedScopes (scopes : List Scope) (arena : Arena) :
    arena.Leads (forkedScopes loan scopes arena).2 := by
  induction scopes generalizing arena with
  | nil => exact .refl arena
  | cons scope rest ih =>
    rw [forkedScopes_cons]
    exact (leads_forkedScope loan scope arena).trans (ih _)

end

/-- A node of a copy carries a loan if the copy was made with one, or of a node with one. -/
def Copied (loan : Option Ownership.Loan) (before after : Arena) (old new : NodeId) : Prop :=
  loan.isSome ∨ before.Lent old → after.Lent new

theorem Copied.mono {loan before earlier later after} (first : before.KeepsLoans earlier)
    (last : later.KeepsLoans after) (old new : NodeId)
    (copied : Copied loan earlier later old new) : Copied loan before after old new :=
  fun lent => last (copied (lent.imp_right fun oldLent => first oldLent))

section

variable (loan : Option Ownership.Loan)
include loan

theorem sameEntry_forkedBinding (entry : String × Binding) (arena : Arena) :
    SameEntry (Copied loan arena (forkedBinding loan entry arena).2) entry
      (forkedBinding loan entry arena).1 := by
  obtain ⟨name, binding⟩ := entry
  cases binding with
  | scalar type place => exact ⟨rfl, .scalar type place⟩
  | struct held =>
    obtain ⟨root_eq, planted⟩ := Arena.planted_plant none (arena.tree held.node) arena
    refine ⟨rfl, .struct held _ fun lent => ?_⟩
    cases loan with
    | none =>
      change ((Arena.plant _ _ _).1.node (Arena.plant _ _ _).2).loan.isSome
      rw [root_eq, planted.state_eq, Arena.state_tree]
      exact lent.resolve_left Bool.false_ne_true
    | some loan =>
      have inside := planted.inside
      rw [← root_eq] at inside
      change ((Arena.borrow _ _ (some loan)).node _).loan.isSome
      rw [Arena.borrow, Arena.node_modify_self inside]
      rfl

theorem sameEntries_forkedScope (scope : Scope) (arena : Arena) :
    List.Forall₂ (SameEntry (Copied loan arena (forkedScope loan scope arena).2)) scope
      (forkedScope loan scope arena).1 := by
  induction scope generalizing arena with
  | nil => exact .nil
  | cons entry rest ih =>
    rw [forkedScope_cons]
    have first := (leads_forkedBinding loan entry arena).keepsLoans
    have last := (leads_forkedScope loan rest (forkedBinding loan entry arena).2).keepsLoans
    refine .cons ((sameEntry_forkedBinding loan entry arena).imp (.mono (.refl _) last)) ?_
    exact (ih _).imp fun _ _ => SameEntry.imp (.mono first (.refl _))

theorem sameScopes_forkedScopes (scopes : List Scope) (arena : Arena) :
    SameScopes (Copied loan arena (forkedScopes loan scopes arena).2) scopes
      (forkedScopes loan scopes arena).1 := by
  induction scopes generalizing arena with
  | nil => exact .nil
  | cons scope rest ih =>
    rw [forkedScopes_cons]
    have first := (leads_forkedScope loan scope arena).keepsLoans
    have last := (leads_forkedScopes loan rest (forkedScope loan scope arena).2).keepsLoans
    refine .cons ?_ ((ih _).imp (.mono first (.refl _)))
    exact (sameEntries_forkedScope loan scope arena).imp fun _ _ =>
      SameEntry.imp (.mono (.refl _) last)

theorem lending_forkedScopes (scopes : List Scope) (arena : Arena) :
    SameScopes (Lending arena (forkedScopes loan scopes arena).2) scopes
      (forkedScopes loan scopes arena).1 :=
  (sameScopes_forkedScopes loan scopes arena).imp fun _ _ copied lent => copied (.inr lent)

end

end StructWasm.Lowering

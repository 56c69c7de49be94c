import StructWasm.Proofs.Layout.Acceptance

/-!
# Structures inside themselves

A loop is reported exactly if there is one. Not every loop is: the structures of a loop are
refused at once, and a refused structure is not entered again. So no structure is the head
of two loops, and as long as no loop was found, whatever the walk is done with has only
structures inside it that it was done with before.
-/

namespace StructWasm.Layouts

open List Relation

variable {file : String} {decls : List StructDecl} {survey : Survey}

/-- The reports of loops. -/
def loopReports (errors : List Diagnostic) : List Diagnostic :=
  errors.filter fun error => error.code = .recursiveStructure

/-- Loops of different heads, in the order of their reports. -/
structure Reported (file : String) (decls : List StructDecl) (survey : Survey)
    (loops : List (Loop decls)) : Prop where
  reports_eq : loopReports survey.errors = loops.map fun loop => loop.report file
  distinct : (loops.map Loop.head).Nodup
  failed : ∀ loop ∈ loops, loop.head ∈ survey.failed

theorem code_of_flaw (flaw : Flaw decls mistake) : mistake.code ≠ .recursiveStructure := by
  cases flaw with
  | repeated => exact (by decide : DiagnosticCode.duplicateField ≠ .recursiveStructure)
  | undeclared => exact (by decide : DiagnosticCode.unknownType ≠ .recursiveStructure)
  | large => exact (by decide : DiagnosticCode.structureTooLarge ≠ .recursiveStructure)

theorem loopReports_duplicates (seen : List String) :
    loopReports (duplicates file seen decls) = [] := by
  induction decls generalizing seen with
  | nil => rfl
  | cons decl rest ih =>
    rw [duplicates]
    split
    · exact ih _
    · exact ih _

section

variable (run : ReflTransGen (Event file decls) (.start file decls) survey)
include run

theorem reported_of_run : ∃ loops, Reported file decls survey loops := by
  induction run with
  | refl => exact ⟨[], loopReports_duplicates _, nodup_nil, fun _ mem => by cases mem⟩
  | tail _ event ih =>
    obtain ⟨loops, reports_eq, distinct, failed⟩ := ih
    cases event with
    | note flaw span =>
      refine ⟨loops, ?_, distinct, failed⟩
      rw [← reports_eq]
      simp [loopReports, Survey.note, Mistake.report, Diagnostic.error, code_of_flaw flaw]
    | loop loop fresh =>
      refine ⟨loops ++ [loop], ?_, ?_, ?_⟩
      · rw [map_append, ← reports_eq]
        simp [loopReports, Survey.note, Survey.fail, Loop.report, Mistake.report, Diagnostic.error,
          Mistake.code]
      · rw [map_append]
        refine nodup_append.mpr ⟨distinct, nodup_singleton _, ?_⟩
        rintro _ mem _ single rfl
        obtain rfl := mem_singleton.mp single
        obtain ⟨other, mem, same⟩ := mem_map.mp mem
        exact fresh (same ▸ failed other mem)
      · intro other mem
        rcases mem_append.mp mem with mem | mem
        · exact mem_append_left _ (failed other mem)
        · obtain rfl := mem_singleton.mp mem
          exact mem_append_right _ mem_cons_self
    | refuse => exact ⟨loops, reports_eq, distinct, fun loop mem =>
        mem_append_left _ (failed loop mem)⟩
    | finish => exact ⟨loops, reports_eq, distinct, failed⟩

/-- As long as no loop was found, the structures inside known ones are known to a finite
depth. -/
theorem acc_of_run (none : loopReports survey.errors = []) (knows : survey.Knows name) :
    Acc (fun inner outer => Holds decls outer inner) name := by
  induction run generalizing name with
  | refl => rcases knows with found | found <;> cases found
  | @tail mid after _ event ih =>
    have earlier : loopReports mid.errors = [] := by
      have grown := event.grows.errors.filter fun error => decide (error.code = .recursiveStructure)
      exact prefix_nil.mp (none ▸ grown)
    cases event with
    | note => exact ih earlier knows
    | loop loop =>
      have last : loop.report file ∈ loopReports (mid.note (loop.report file)).errors :=
        mem_filter.mpr ⟨mem_append_right _ mem_cons_self, rfl⟩
      exact absurd none (ne_nil_of_mem last)
    | refuse settled =>
      rcases knows with found | found
      · exact ih earlier (.inl found)
      · rcases mem_append.mp found with found | found
        · exact ih earlier (.inr found)
        · obtain rfl := mem_singleton.mp found
          exact ⟨_, fun inner holds => ih earlier (settled inner holds)⟩
    | @finish added decl layout fresh declared typed placed =>
      by_cases same : added = name
      · subst same
        refine ⟨_, ?_⟩
        rintro inner ⟨other, field, isOther, found, written, -⟩
        obtain rfl := Option.some.inj (declared.symm.trans isOther)
        have known := typed.known_typeOf (mem_of_find?_eq_some found)
        exact ih earlier (.inl (known inner (by rw [written]; rfl)))
      · refine ih earlier (knows.imp_left fun found => ?_)
        change (get? { structs := layout :: mid.layouts.structs } name).isSome at found
        rwa [get?_cons, name_of_place? placed, if_neg same] at found

end

/-- The mistakes that are reported in place of layouts. -/
def reports (file : String) (decls : List StructDecl) : List Diagnostic :=
  match build file decls with
  | .ok _ => []
  | .error errors => errors

theorem reports_eq (file : String) (decls : List StructDecl) :
    reports file decls = (visitAll file decls decls (.start file decls)).errors := by
  rw [reports, build_eq]
  dsimp only
  split
  · rename_i ok
    split at ok
    · rename_i none
      exact (isEmpty_iff.mp none).symm
    · cases ok
  · rename_i errors failed
    split at failed
    · cases failed
    · exact (Except.error.inj failed).symm

/-- A loop is reported exactly if some structure contains itself. What is reported are
loops, of which no two have the same head. -/
theorem loops_reported (file : String) (decls : List StructDecl) :
    ∃ loops : List (Loop decls),
      loopReports (reports file decls) = (loops.map fun loop => loop.report file) ∧
      (loops.map Loop.head).Nodup ∧
      (loops ≠ [] ↔ ∃ name, TransGen (Holds decls) name name) := by
  have surveyed := surveyed file decls
  obtain ⟨loops, found, distinct, -⟩ := reported_of_run surveyed.run
  refine ⟨loops, by rw [reports_eq, found], distinct, fun some => ?_, ?_⟩
  · obtain ⟨loop, member⟩ := exists_mem_of_ne_nil loops some
    exact ⟨loop.head, loop.cycle⟩
  · rintro ⟨name, cycle⟩ rfl
    obtain ⟨_, ⟨decl, _, declared, -⟩, -⟩ := TransGen.head'_iff.mp cycle
    have acc := acc_of_run surveyed.run found
      (surveyed.knows name (Option.isSome_of_eq_some declared))
    exact not_rel_self_of_acc acc.transGen (TransGen.swap _ _ cycle)

end StructWasm.Layouts

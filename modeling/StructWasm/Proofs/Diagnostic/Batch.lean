import Mathlib
import StructWasm.Diagnostic.Batch

/-!
# What a batch holds

However a batch is gathered, by single diagnostics or by whole batches, and these again in
the same way, it is the image of one sequence of errors and one of warnings: of the errors it
keeps the first twenty and counts them all, and of the warnings it keeps all.
-/

namespace StructWasm.Diagnostic

open List

namespace Batch

/-- Errors are kept as long as there is room, and all are counted. -/
theorem pushErrors_eq (batch : Batch) (errors : List Diagnostic) : batch.pushErrors errors =
      { batch with
        errors := batch.errors ++ errors.take (errorLimit - batch.errors.length)
        totalErrors := batch.totalErrors + errors.length } := by
  induction errors generalizing batch with
  | nil => simp [pushErrors]
  | cons error errors ih =>
    refine (ih (batch.pushError error)).trans ?_
    have total_eq : batch.totalErrors + 1 + errors.length =
        batch.totalErrors + (errors.length + 1) := by
      omega
    rw [pushError, length_cons]
    simp only [total_eq]
    congr 1
    split
    · rename_i room
      rw [show errorLimit - batch.errors.length = errorLimit -
        (batch.errors.length + 1) + 1 by omega,
        take_succ_cons, length_append, length_singleton, append_assoc, singleton_append]
    · rename_i full
      rw [show errorLimit - batch.errors.length = 0 by omega, take_zero, take_zero]

theorem totalErrors_pushErrors (batch : Batch) (errors : List Diagnostic) :
    (batch.pushErrors errors).totalErrors = batch.totalErrors + errors.length := by
  rw [pushErrors_eq]

theorem pushErrors_append (batch : Batch) (first second : List Diagnostic) :
    (batch.pushErrors first).pushErrors second = batch.pushErrors (first ++ second) :=
  foldl_append.symm

theorem foldl_pushWarning (batch : Batch) (warnings : List Diagnostic) :
    warnings.foldl pushWarning batch =
      { batch with
        warnings := batch.warnings ++ warnings
        totalWarnings := batch.totalWarnings + warnings.length } := by
  induction warnings generalizing batch with
  | nil => simp
  | cons warning warnings ih =>
    rw [foldl_cons, ih]
    simp [pushWarning, Nat.add_assoc, Nat.add_comm 1]

/-- Taking a start of a sequence piece by piece. -/
theorem take_pieces (limit : Nat) (first second : List Diagnostic) :
    first.take limit ++ second.take (limit - (first.take limit).length) =
      (first ++ second).take limit := by
  rw [take_append, length_take]
  congr 2
  omega

/-- Errors that are counted without being kept. -/
def countErrors (batch : Batch) (count : Nat) : Batch :=
  { batch with totalErrors := batch.totalErrors + count }

/-- A batch whose count covers what it keeps is added diagnostic by diagnostic, after the
errors that it dropped are counted. -/
theorem extend_eq_foldl (covered : other.errors.length ≤ other.totalErrors)
    (batch : Batch) : batch.extend other = other.warnings.foldl pushWarning
        ((batch.countErrors (other.totalErrors - other.errors.length)).pushErrors
          other.errors) := by
  rw [foldl_pushWarning, pushErrors_eq]
  simp only [extend, countErrors]
  congr 1
  omega

end Batch

/-- How a batch is gathered. -/
inductive Gathering where
  | empty
  | pushError (before : Gathering) (error : Diagnostic)
  | pushWarning (before : Gathering) (warning : Diagnostic)
  | extend (before other : Gathering)

namespace Gathering

def batch : Gathering → Batch
  | empty => .empty
  | pushError before error => before.batch.pushError error
  | pushWarning before warning => before.batch.pushWarning warning
  | extend before other => before.batch.extend other.batch

/-- All errors that were pushed, in their order, those of another batch where it was added. -/
def errors : Gathering → List Diagnostic
  | empty => []
  | pushError before error => before.errors ++ [error]
  | pushWarning before _ => before.errors
  | extend before other => before.errors ++ other.errors

def warnings : Gathering → List Diagnostic
  | empty => []
  | pushError before _ => before.warnings
  | pushWarning before warning => before.warnings ++ [warning]
  | extend before other => before.warnings ++ other.warnings

/-- A batch is what its two sequences make of it. -/
theorem batch_eq (gathering : Gathering) : gathering.batch =
      { errors := gathering.errors.take Batch.errorLimit
        warnings := gathering.warnings
        totalErrors := gathering.errors.length
        totalWarnings := gathering.warnings.length } := by
  induction gathering with
  | empty => rfl
  | pushError before error ih =>
    -- One error is pushed as a list of one is.
    refine (Batch.pushErrors_eq before.batch [error]).trans ?_
    rw [ih]
    simp only [Batch.take_pieces, errors, warnings, length_append]
  | pushWarning before warning ih =>
    rw [batch, ih]
    simp [errors, warnings, Batch.pushWarning]
  | extend before other beforeIh otherIh =>
    rw [batch, beforeIh, otherIh]
    simp only [Batch.extend, take_take, Nat.min_eq_left (Nat.sub_le _ _), Batch.take_pieces, errors,
      warnings, length_append]

/-- However a batch was gathered, its errors are the first twenty of the whole sequence, its
count is the length of the sequence and its warnings are all there. So it never keeps more
errors than it counts, and adding it to another batch amounts to counting the errors that it
dropped and pushing what it keeps. -/
theorem batch_image (gathering : Gathering) :
    gathering.batch.errors = gathering.errors.take 20 ∧
      gathering.batch.totalErrors = gathering.errors.length ∧
      gathering.batch.warnings = gathering.warnings ∧
      gathering.batch.totalWarnings = gathering.warnings.length ∧
      gathering.batch.errors.length ≤ gathering.batch.totalErrors ∧
      ∀ target : Batch, target.extend gathering.batch =
        gathering.batch.warnings.foldl Batch.pushWarning
          ((target.countErrors
            (gathering.batch.totalErrors - gathering.batch.errors.length)).pushErrors
              gathering.batch.errors) := by
  have covered : gathering.batch.errors.length ≤ gathering.batch.totalErrors := by
    rw [batch_eq]
    exact length_take_le' _ _
  refine ⟨?_, ?_, ?_, ?_, covered, Batch.extend_eq_foldl covered⟩ <;> rw [batch_eq]
  rfl

end Gathering
end StructWasm.Diagnostic

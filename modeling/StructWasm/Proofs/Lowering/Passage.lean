import StructWasm.Proofs.Lowering.Callees

/-!
# From a part to the top

Whatever stops lowering at a part that it comes to stops it at the top.
-/

namespace StructWasm.Lowering

open List

variable {α β : Type}

theorem Begins.stops {inner : Emit β} {step : Emit α} (begins : Begins inner step)
    (stops : Stops inner ctx work fault) : Stops step ctx work fault := by
  induction begins with
  | here => exact stops
  | first _ _ ih => exact ih.first

/-- What stops lowering at a part that is called stops the caller. -/
theorem Calls.stops {part inner} (calls : Calls ctx (part, work) (inner, mid))
    (stops : Stops inner.lower ctx mid fault) : Stops part.lower ctx work fault := by
  cases calls with simp only [Part.lower] at stops ⊢
  | literal finds allocates =>
    rw [lowerExpr]
    exact stops_after finds (stops_after allocates stops.first)
  | call asks allocates =>
    rw [lowerExpr]
    exact stops_after asks (stops_after allocates stops.first)
  | object | not =>
    rw [lowerExpr]
    exact stops.first
  | logicalLeft logical =>
    rw [lowerExpr, if_pos logical]
    exact stops.first
  | logicalRight logical decides checks forks =>
    rw [lowerExpr, if_pos logical]
    exact stops_after decides (stops_after checks (stops_after forks stops.first))
  | operandLeft numeric hints =>
    rw [lowerExpr, if_neg numeric]
    exact stops_after hints stops.first
  | operandRight numeric hints computes checks =>
    rw [lowerExpr, if_neg numeric]
    exact stops_after hints (stops_after computes (stops_after checks stops.first))
  | negate notLiteral hints =>
    rw [lowerExpr]
    · exact stops_after hints stops.first
    · exact notLiteral
  | choice | block | parens =>
    rw [lowerExpr]
    exact stops
  | fieldSkipped unknown =>
    rw [lowerFields, unknown]
    exact stops
  | fieldValue known advances =>
    rw [lowerFields, known]
    exact stops_after (runs_check.mpr ⟨advances, rfl⟩)
      ((begins_storeInto _ _ _ _).stops stops).first
  | fieldRest known advances stores =>
    rw [lowerFields, known]
    exact stops_after (runs_check.mpr ⟨advances, rfl⟩) (stops_after stores stops.first)
  | argument =>
    rw [lowerArguments]
    exact stops.first
  | argumentRest computes passes =>
    rw [lowerArguments]
    exact stops_after computes (stops_after passes stops.first)
  | @condition choice want _ =>
    rw [lowerChoice_eq]
    exact ((begins_enterChoice choice want).stops stops).first
  | firstArm enters =>
    rw [lowerChoice_eq]
    exact stops_after enters ((begins_finishFirst _ _).stops stops).first
  | secondArm enters finishes =>
    rw [lowerChoice_eq]
    exact stops_after enters (stops_after finishes ((begins_finishSecond _ _ _).stops stops).first)
  | otherwiseBlock | otherwiseChoice =>
    rw [lowerAlternative]
    exact stops
  | blockStatements opens =>
    rw [lowerBlock_eq]
    exact stops_after opens stops.first
  | blockTail opens lowers =>
    rw [lowerBlock_eq]
    exact stops_after opens (stops_after lowers stops.first)
  | tail =>
    rw [lowerTail]
    exact stops.first
  | statement =>
    rw [lowerStatements]
    exact stops.first
  | statementRest lowers =>
    rw [lowerStatements]
    exact stops_after lowers stops.first
  | initial resolves =>
    rw [lowerStatement]
    exact stops_after resolves stops.first
  | @assigned _ _ _ target _ _ finds =>
    rw [lowerStatement]
    refine stops_after finds ?_
    cases target with
    | scalar type place => exact stops.first
    | part type address node => exact ((begins_storeInto _ _ _ _).stops stops).first
  | guard enters =>
    rw [lowerStatement_loop]
    exact stops_after enters ((begins_lowerGuard _ _).stops stops).first
  | round enters decides =>
    rw [lowerStatement_loop]
    exact stops_after enters (stops_after decides ((begins_lowerRound _).stops stops).first)
  | left =>
    rw [lowerStatement]
    exact stops_after (runs_read.mpr ⟨rfl, rfl⟩) stops.first
  | evaluated =>
    rw [lowerStatement]
    exact stops.first

theorem Reaches.stops {start inner} (reaches : Reaches ctx start inner)
    (stops : Stops inner.1.lower ctx inner.2 fault) : Stops start.1.lower ctx start.2 fault := by
  induction reaches using Relation.ReflTransGen.head_induction_on with
  | refl => exact stops
  | head calls _ ih => exact calls.stops ih

end StructWasm.Lowering

import StructWasm.Proofs.Lowering.Emitted

/-!
# Writes to the frame pointer and returns

Emitted code never writes the frame pointer, nor any local with its number, and it leaves
the function only right after an epilogue, however deep in blocks and loops.
-/

namespace StructWasm.Lowering

open Wasm List

variable {code : Code}

/-- Whether an instruction neither leaves nor writes a local, and has no code inside. -/
def isFlat : Instr codeRefs → Bool
  | .block _ _ | .loop _ _ | .ifElse _ _ _ | .leave | .localSet _ | .localTee _ => false
  | _ => true

/-- Code inside an instruction. -/
def bodiesOf : Instr codeRefs → List Code
  | .block _ body | .loop _ body => [body]
  | .ifElse _ thenBody elseBody => [thenBody, elseBody]
  | _ => []

/-- Code inside code: the code itself, and the code inside its instructions. -/
inductive Inside (code : Code) : Code → Prop where
  | whole : Inside code code
  | deeper {outer inner : Code} {instr : Instr codeRefs} (inside : Inside code outer)
      (mem : instr ∈ outer) (holds : inner ∈ bodiesOf instr) :
      Inside code inner

/-- The function is left only right after its epilogue, and no local is written that has the
number of the frame pointer. -/
structure Disciplined (number : LocalRef → Nat) (framePointer : LocalRef) (code : Code) :
    Prop where
  leaves : ∀ inner, Inside code inner → ∀ before after, inner = before ++ .leave :: after →
    epilogue framePointer <:+ before
  writes : ∀ inner, Inside code inner → ∀ name, .localSet name ∈ inner ∨ .localTee name ∈ inner →
    number name ≠ number framePointer

theorem Inside.of_append {first second inner} (inside : Inside (first ++ second) inner) :
    inner = first ++ second ∨ Inside first inner ∨ Inside second inner := by
  induction inside with
  | whole => exact .inl rfl
  | deeper _ mem holds ih =>
    right
    rcases ih with rfl | inFirst | inSecond
    · rcases mem_append.mp mem with inFirst | inSecond
      · exact .inl (.deeper .whole inFirst holds)
      · exact .inr (.deeper .whole inSecond holds)
    · exact .inl (.deeper inFirst mem holds)
    · exact .inr (.deeper inSecond mem holds)

theorem Inside.of_singleton {instr inner} (inside : Inside [instr] inner) :
    inner = [instr] ∨ ∃ body ∈ bodiesOf instr, Inside body inner := by
  induction inside with
  | whole => exact .inl rfl
  | @deeper _ inner _ _ mem holds ih =>
    right
    rcases ih with rfl | ⟨body, inInstr, inBody⟩
    · obtain rfl := mem_singleton.mp mem
      exact ⟨inner, holds, .whole⟩
    · exact ⟨body, inInstr, .deeper inBody mem holds⟩

theorem Inside.eq_of_noBodies {inner} (inside : Inside code inner)
    (noBodies : ∀ instr ∈ code, bodiesOf instr = []) : inner = code := by
  induction inside with
  | whole => rfl
  | deeper _ mem holds ih =>
    rw [ih] at mem
    rw [noBodies _ mem] at holds
    cases holds

namespace Disciplined

variable {number : LocalRef → Nat}

theorem append (inFirst : Disciplined number framePointer first)
    (inSecond : Disciplined number framePointer second) :
    Disciplined number framePointer (first ++ second) where
  leaves := by
    intro inner inside before after split_eq
    rcases inside.of_append with rfl | inside | inside
    · rcases append_eq_append_iff.mp split_eq with
        ⟨mid, rfl, second_eq⟩ | ⟨mid, first_eq, rest_eq⟩
      · exact (inSecond.leaves _ .whole _ _ second_eq).trans (suffix_append _ _)
      · cases mid with
        | nil =>
          rw [append_nil] at first_eq
          have nothing := inSecond.leaves _ .whole [] after rest_eq.symm
          rw [suffix_nil] at nothing
          cases nothing
        | cons instr mid =>
          rw [cons_append] at rest_eq
          obtain ⟨rfl, -⟩ := List.cons.inj rest_eq
          exact inFirst.leaves _ .whole before mid first_eq
    · exact inFirst.leaves _ inside before after split_eq
    · exact inSecond.leaves _ inside before after split_eq
  writes := by
    intro inner inside name written
    rcases inside.of_append with rfl | inside | inside
    · simp only [mem_append] at written
      rcases written with (inFirst' | inSecond') | (inFirst' | inSecond')
      · exact inFirst.writes _ .whole name (.inl inFirst')
      · exact inSecond.writes _ .whole name (.inl inSecond')
      · exact inFirst.writes _ .whole name (.inr inFirst')
      · exact inSecond.writes _ .whole name (.inr inSecond')
    · exact inFirst.writes _ inside name written
    · exact inSecond.writes _ inside name written

theorem single (stays : instr ≠ .leave)
    (writes : ∀ name, instr = .localSet name ∨ instr = .localTee name →
      number name ≠ number framePointer)
    (bodies : ∀ body ∈ bodiesOf instr, Disciplined number framePointer body) :
    Disciplined number framePointer [instr] where
  leaves := by
    intro inner inside before after split_eq
    rcases inside.of_singleton with rfl | ⟨body, holds, inside⟩
    · cases before with
      | nil => exact absurd (List.cons.inj split_eq).1 stays
      | cons other before => simp at split_eq
    · exact (bodies body holds).leaves _ inside before after split_eq
  writes := by
    intro inner inside name written
    rcases inside.of_singleton with rfl | ⟨body, holds, inside⟩
    · exact writes name (by simpa [eq_comm] using written)
    · exact (bodies body holds).writes _ inside name written

theorem flat (flat : ∀ instr ∈ code, isFlat instr = true) :
    Disciplined number framePointer code := by
  have noBodies : ∀ instr ∈ code, bodiesOf instr = [] := by
    intro instr mem
    have isFlat := flat instr mem
    cases instr <;> first | rfl | cases isFlat
  refine ⟨fun inner inside before after split_eq => ?_, fun inner inside name written => ?_⟩
  · rw [inside.eq_of_noBodies noBodies] at split_eq
    cases flat .leave (split_eq ▸ by simp)
  · rw [inside.eq_of_noBodies noBodies] at written
    rcases written with written | written
    · cases flat _ written
    · cases flat _ written

theorem epilogueThenLeave :
    Disciplined number framePointer (epilogue framePointer ++ [.leave]) := by
  have noBodies : ∀ instr ∈ epilogue framePointer ++ [.leave], bodiesOf instr = [] := by
    simp [epilogue, bodiesOf]
  refine ⟨fun inner inside before after split_eq => ?_, fun inner inside name written => ?_⟩
  · rw [inside.eq_of_noBodies noBodies] at split_eq
    rcases append_eq_append_iff.mp split_eq with
      ⟨mid, before_eq, rest_eq⟩ | ⟨mid, starts, rest_eq⟩
    · cases mid with
      | nil => simp [before_eq]
      | cons instr mid => simp at rest_eq
    · cases mid with
      | nil => simp [starts]
      | cons instr mid =>
        obtain ⟨rfl, -⟩ := List.cons.inj rest_eq
        have leaves : Instr.leave ∈ epilogue framePointer := by simp [starts]
        simp [epilogue] at leaves
  · rw [inside.eq_of_noBodies noBodies] at written
    simp [epilogue] at written

end Disciplined

/-- Emitted code leaves right after the epilogue, and writes no local with the number of
the frame pointer. -/
theorem Emitted.disciplined {number : LocalRef → Nat} (emitted : Emitted ctx passed work code)
    (ne : ∀ ref, work.locals.Has ref → ref ≠ ctx.framePointer →
      number ref ≠ number ctx.framePointer) : Disciplined number ctx.framePointer code := by
  induction emitted with
  | plain plain =>
    refine .flat fun instr mem => ?_
    have isPlain := plain instr mem
    cases instr <;> first | rfl | cases isPlain
  | append _ _ inFirst inSecond => exact inFirst.append inSecond
  | localSet has other =>
    refine .single (by simp) ?_ (by simp [bodiesOf])
    rintro name (same | same)
    · injection same with same
      exact same ▸ ne _ has other
    · cases same
  | load permits => exact .flat (by simp [isFlat])
  | store permits puts _ inCode =>
    rw [← singleton_append, append_assoc]
    exact .append (.flat (by simp [isFlat])) (inCode.append (.flat (by simp [isFlat])))
  | leave => exact .epilogueThenLeave
  | repeats _ _ inCondition inBody =>
    have tests : Disciplined number ctx.framePointer [.numeric .i32Eqz, .branchIf 1] :=
      .flat (by simp [isFlat])
    have again : Disciplined number ctx.framePointer [.branch 0] := .flat (by simp [isFlat])
    have round := ((inCondition.append tests).append inBody).append again
    have loop : Disciplined number ctx.framePointer [.loop .empty _] :=
      .single (by simp) (by simp) (by simpa [bodiesOf] using round)
    exact .single (by simp) (by simp) (by simpa [bodiesOf] using loop)
  | ifElse _ _ inThen inElse =>
    exact .single (by simp) (by simp) (by simpa [bodiesOf] using ⟨inThen, inElse⟩)

end StructWasm.Lowering

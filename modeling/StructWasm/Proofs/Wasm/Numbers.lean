import StructWasm.Proofs.Wasm.Module

/-!
# Numbers in valid code

Validation looks up whatever code refers to. So the numbers in valid code are known,
and encoding it can only fail because a number is too large.
-/

namespace StructWasm.Wasm

open List Instr

variable {refs : Refs} {resolver : Resolver refs}

/-- An offset whose base can be looked up. -/
def Offset.Known (offset : Offset refs.base) (resolver : Resolver refs) : Prop :=
  ∀ place, offset.base? = some place → (resolver.base place).isOk = true

/-- A piece whose number can be looked up. -/
def Piece.Known (resolver : Resolver refs) : Piece refs → Prop
  | .known _ => True
  | .localIndex name => (resolver.localIndex name).isOk = true
  | .globalIndex name => (resolver.globalIndex name).isOk = true
  | .functionIndex name => (resolver.functionIndex name).isOk = true
  | .offset distance => distance.Known resolver
  | .offsetConst distance => distance.Known resolver

theorem not_isOk_error {ε α : Type} {cause} : (.error cause : Except ε α).isOk ≠ true :=
  Bool.false_ne_true

/-! ## What can go wrong -/

theorem limit_of_value_error {offset : Offset refs.base} {fault} (known : offset.Known resolver)
    (failed : offset.value resolver.base = .error fault) : ∃ cause, fault = .limit cause := by
  have summed : ∀ start, Offset.checkedSum start offset.addend = .error fault →
      ∃ cause, fault = .limit cause := by
    intro start failed
    unfold Offset.checkedSum at failed
    split at failed
    · cases failed
    · injection failed with same
      exact ⟨_, same.symm⟩
  unfold Offset.value at failed
  dsimp only at failed
  split at failed
  · exact summed 0 failed
  · rename_i place base_eq
    rcases bind_eq_error.mp failed with failed | ⟨start, -, failed⟩
    · have found := known place base_eq
      rw [failed] at found
      exact absurd found not_isOk_error
    · exact summed start failed

theorem limit_of_piece_error {piece : Piece refs} {fault} (known : piece.Known resolver)
    (failed : piece.encode resolver = .error fault) : ∃ cause, fault = .limit cause := by
  -- An index that is known is written as it is.
  have indexed : ∀ out : Except Fault Nat, out.isOk = true →
      (out >>= fun index => pure (Leb128.encodeUnsigned index)) ≠ .error fault := by
    intro out isOk failed
    rcases bind_eq_error.mp failed with rfl | ⟨_, -, impossible⟩
    · exact not_isOk_error isOk
    · exact pure_ne_error impossible
  cases piece with
  | known bytes => cases failed
  | localIndex name => exact absurd failed (indexed _ known)
  | globalIndex name => exact absurd failed (indexed _ known)
  | functionIndex name => exact absurd failed (indexed _ known)
  | offset distance =>
    rcases bind_eq_error.mp failed with failed | ⟨_, -, impossible⟩
    · exact limit_of_value_error known failed
    · exact absurd impossible pure_ne_error
  | offsetConst distance =>
    rcases bind_eq_error.mp failed with failed | ⟨value, -, failed⟩
    · exact limit_of_value_error known failed
    · unfold encodeOffsetConst at failed
      split at failed
      · cases failed
      · injection failed with same
        exact ⟨_, same.symm⟩

theorem limit_of_pieces_error {pieces} (known : ∀ piece ∈ pieces, piece.Known resolver)
    (failed : encodePieces resolver pieces = .error stop) : ∃ cause, stop.cause = .limit cause := by
  induction pieces generalizing stop with
  | nil => cases failed
  | cons piece rest ih =>
    unfold encodePieces at failed
    split at failed
    · rename_i fault first
      injection failed with same
      subst same
      exact limit_of_piece_error (known piece mem_cons_self) first
    · split at failed
      · cases failed
      · rename_i inner later
        injection failed with same
        obtain ⟨cause, limit_eq⟩ :=
          ih (fun other mem => known other (.tail _ mem)) later
        rw [← same]
        exact ⟨cause, limit_eq⟩

/-! ## Valid code -/

section Valid

variable {body : Type} {mod : Module body}

theorem forall_mem_pair {α : Type} {holds : α → Prop} {first second} :
    (∀ entry ∈ [first, second], holds entry) ↔ holds first ∧ holds second := by
  simp

theorem isOk_of_toOption_bind {α β : Type} {out : Except Fault α} {next : α → Option β}
    {result} (found : out.toOption.bind next = some result) : out.isOk = true := by
  cases out with
  | ok value => rfl
  | error cause => cases found

mutual

theorem known_of_instrTyped {labels instr before after}
    (typed : InstrTyped (mod.surroundings resolver type locals) labels instr before after) :
    ∀ piece ∈ instr.pieces, piece.Known resolver := by
  cases typed with
  | block bodyTyped | loop bodyTyped =>
    simp only [pieces, forall_mem_cons, forall_mem_append]
    exact ⟨trivial, known_of_codeTyped bodyTyped, trivial, nofun⟩
  | ifElse thenTyped elseTyped =>
    simp only [pieces, forall_mem_cons, forall_mem_append]
    refine ⟨trivial, ⟨known_of_codeTyped thenTyped, ?_⟩, trivial, nofun⟩
    split
    · exact forall_mem_cons.mpr ⟨trivial, known_of_codeTyped elseTyped⟩
    · exact nofun
  | load _ _ knows => exact forall_mem_pair.mpr ⟨trivial, knows⟩
  | store _ _ knows => exact forall_mem_pair.mpr ⟨trivial, knows⟩
  | localGet found => exact forall_mem_pair.mpr ⟨trivial, isOk_of_toOption_bind found⟩
  | localSet found => exact forall_mem_pair.mpr ⟨trivial, isOk_of_toOption_bind found⟩
  | localTee found => exact forall_mem_pair.mpr ⟨trivial, isOk_of_toOption_bind found⟩
  | globalGet found => exact forall_mem_pair.mpr ⟨trivial, isOk_of_toOption_bind found⟩
  | globalSet found => exact forall_mem_pair.mpr ⟨trivial, isOk_of_toOption_bind found⟩
  | call found => exact forall_mem_pair.mpr ⟨trivial, isOk_of_toOption_bind found⟩
  | offsetConst knows => exact forall_mem_singleton.mpr knows
  | _ => simp [pieces, Piece.Known]

theorem known_of_codeTyped {labels code before after}
    (typed : CodeTyped (mod.surroundings resolver type locals) labels code before after) :
    ∀ piece ∈ bodyPieces code, piece.Known resolver := by
  cases typed with
  | nil => exact nofun
  | cons first rest =>
    rw [bodyPieces, forall_mem_append]
    exact ⟨known_of_instrTyped first, known_of_codeTyped rest⟩

end

theorem limit_of_encode_error {labels} {data : FunctionBody refs} {before after fault}
    (typed : CodeTyped (mod.surroundings resolver type locals) labels data.code before after)
    (failed : data.encode resolver = .error fault) : ∃ cause, fault = .limit cause := by
  rcases bind_eq_error.mp failed with failed | ⟨_, -, failed⟩
  · obtain ⟨what, value, -, rfl⟩ := Limit.failsOnly_check _ _ _ failed
    exact ⟨_, rfl⟩
  · split at failed
    · cases failed
    · rename_i stop stopped
      injection failed with same
      subst same
      exact limit_of_pieces_error (known_of_codeTyped typed) stopped

end Valid

end StructWasm.Wasm

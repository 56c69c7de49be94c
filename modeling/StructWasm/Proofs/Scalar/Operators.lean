import StructWasm.Proofs.Lowering.Steps
import StructWasm.Proofs.Scalar.Evaluation

/-!
# Operators and literals on words

Arithmetic on words gives what arithmetic on integers gives, brought back into the
type. The instruction that an operator is lowered to does to the words of its operands
what the operator does to their values, and the constant that a literal is lowered to
is the word of its number.
-/

namespace StructWasm

open Nat Except Wasm Int32 Int64 BinaryOp Int

/-! ## Division -/

theorem tdiv_eq_bound_iff (least : -bound ≤ left) (below : left < bound) :
    left.tdiv right = bound ↔ left = -bound ∧ right = -1 := by
  constructor
  · intro quotient_eq
    have magnitudes : left.natAbs / right.natAbs = bound.natAbs := by
      rw [← quotient_eq, Int.natAbs_tdiv]
      rfl
    have positive : 0 < left.natAbs := by
      rcases Nat.eq_zero_or_pos left.natAbs with none | some
      · rw [none, Nat.zero_div] at magnitudes
        omega
      · exact some
    have single : right.natAbs = 1 := by
      rcases Nat.lt_trichotomy right.natAbs 1 with zero | one | more
      · rw [Nat.lt_one_iff.mp zero, Nat.div_zero] at magnitudes
        omega
      · exact one
      · have := Nat.div_lt_self positive more
        omega
    rcases Int.natAbs_eq right with plus | minus
    · rw [plus, single, Int.natCast_one, Int.tdiv_one] at quotient_eq
      omega
    · rw [minus, single, Int.natCast_one, Int.tdiv_neg, Int.tdiv_one] at quotient_eq
      omega
  · rintro ⟨rfl, rfl⟩
    rw [Int.tdiv_neg, Int.tdiv_one, Int.neg_neg]

section Words

variable {word : Type} [DecidableEq word] [OfNat word 0] [OfNat word 1] [Neg word] [Add word]
  [Sub word] [Mul word] [Div word] [Mod word]

/-- What an arithmetic operator gives for words of which one is the least. -/
def BinaryOp.computeWords (least : word) : BinaryOp → word → word → Except Halt word
  | add, left, right => .ok (left + right)
  | subtract, left, right => .ok (left - right)
  | multiply, left, right => .ok (left * right)
  | divide, left, right => Wasm.quotient least left right
  | remainder, left, right => Wasm.remainder left right
  | _, _, _ => .error .stuck

/-- Words of a width stand for integers and wrap around. -/
structure Words (width : Nat) (least : word) (ofInt : Int → word) (toInt : word → Int) : Prop where
  eq_zero : toInt right = 0 ↔ right = 0
  overflows : (toInt left).tdiv (toInt right) = 2 ^ (width - 1) ↔ left = least ∧ right = -1
  add : ofInt (toInt left + toInt right) = left + right
  sub : ofInt (toInt left - toInt right) = left - right
  mul : ofInt (toInt left * toInt right) = left * right
  div : ofInt ((toInt left).tdiv (toInt right)) = left / right
  mod : ofInt ((toInt left).tmod (toInt right)) = left % right

/-- Arithmetic on words is arithmetic on integers, brought back into the width. -/
theorem Words.compute_eq {op : BinaryOp} {ofInt : Int → word} {toInt : word → Int}
    (words : Words width least ofInt toInt) : op.computeWords least left right =
      (op.compute width (toInt left) (toInt right)).map ofInt := by
  cases op with
  | add => exact congrArg _ words.add.symm
  | subtract => exact congrArg _ words.sub.symm
  | multiply => exact congrArg _ words.mul.symm
  | divide =>
    simp only [computeWords, quotient, compute, words.eq_zero, words.overflows]
    split
    · rfl
    · rw [Except.map, words.div]
  | remainder =>
    simp only [computeWords, Wasm.remainder, compute, words.eq_zero]
    split
    · rfl
    · rw [Except.map, words.mod]
  | _ => rfl

end Words

theorem words32 : Words 32 Int32.minValue Int32.ofInt Int32.toInt where
  eq_zero := Int32.toInt_inj (y := 0)
  overflows {left _} := by
    rw [tdiv_eq_bound_iff left.le_toInt left.toInt_lt, ← Int32.toInt_inj, ← Int32.toInt_inj]
    rfl
  add := by simp [Int32.ofInt_add]
  sub := by simp [Int32.ofInt_sub]
  mul := by simp [Int32.ofInt_mul]
  div {left right} := by
    rw [Int32.ofInt_tdiv left.minValue_le_toInt left.toInt_le right.minValue_le_toInt
      right.toInt_le, Int32.ofInt_toInt, Int32.ofInt_toInt]
  mod {left right} := by
    rw [Int32.ofInt_tmod left.minValue_le_toInt left.toInt_le right.minValue_le_toInt
      right.toInt_le, Int32.ofInt_toInt, Int32.ofInt_toInt]

theorem words64 : Words 64 Int64.minValue Int64.ofInt Int64.toInt where
  eq_zero := Int64.toInt_inj (y := 0)
  overflows {left _} := by
    rw [tdiv_eq_bound_iff left.le_toInt left.toInt_lt, ← Int64.toInt_inj, ← Int64.toInt_inj]
    rfl
  add := by simp [Int64.ofInt_add]
  sub := by simp [Int64.ofInt_sub]
  mul := by simp [Int64.ofInt_mul]
  div {left right} := by
    rw [Int64.ofInt_tdiv left.minValue_le_toInt left.toInt_le right.minValue_le_toInt
      right.toInt_le, Int64.ofInt_toInt, Int64.ofInt_toInt]
  mod {left right} := by
    rw [Int64.ofInt_tmod left.minValue_le_toInt left.toInt_le right.minValue_le_toInt
      right.toInt_le, Int64.ofInt_toInt, Int64.ofInt_toInt]

/-! ## Operators -/

/-- An outcome that is a value of a type or a trap. -/
def Halt.Allows (type : Ty) : Except Halt Scalar → Prop
  | .ok value => value.type = type
  | .error halt => halt = .trap

namespace Lowering

section Instructions

variable (rest : List Wasm.Constant)

theorem execute_arithmeticOp32 (found : arithmeticOp? op .i32 = some instr) (left right : Int32) :
    instr.execute (.i32 right :: .i32 left :: rest) =
      (op.computeWords Int32.minValue left right).map (.i32 · :: rest) := by
  cases op <;> cases found <;> rfl

theorem execute_arithmeticOp64 (found : arithmeticOp? op .i64 = some instr) (left right : Int64) :
    instr.execute (.i64 right :: .i64 left :: rest) =
      (op.computeWords Int64.minValue left right).map (.i64 · :: rest) := by
  cases op <;> cases found <;> rfl

theorem execute_comparisonOp32 (found : comparisonOp? op .i32 = some instr) (left right : Int32) :
    instr.execute (.i32 right :: .i32 left :: rest) =
      .ok (Wasm.truthWord (op.holds left.toInt right.toInt) :: rest) := by
  cases op <;> cases found <;> change Except.ok (Wasm.truthWord (decide _) :: rest) = _ <;>
    simp only [BinaryOp.holds, Int32.toInt_inj, Int32.lt_iff_toInt_lt, Int32.le_iff_toInt_le, ne_eq,
      gt_iff_lt, ge_iff_le]

theorem execute_comparisonOp64 (found : comparisonOp? op .i64 = some instr) (left right : Int64) :
    instr.execute (.i64 right :: .i64 left :: rest) =
      .ok (Wasm.truthWord (op.holds left.toInt right.toInt) :: rest) := by
  cases op <;> cases found <;> change Except.ok (Wasm.truthWord (decide _) :: rest) = _ <;>
    simp only [BinaryOp.holds, Int64.toInt_inj, Int64.lt_iff_toInt_lt, Int64.le_iff_toInt_le, ne_eq,
      gt_iff_lt, ge_iff_le]

theorem execute_comparisonOpBool (found : comparisonOp? op .bool = some instr) (left right : Bool) :
    instr.execute (truthWord right :: truthWord left :: rest) =
        (op.apply (.bool left) (.bool right)).map (fun value => value.word :: rest) ∧
      Halt.Allows .bool (op.apply (.bool left) (.bool right)) := by
  cases op <;> cases found <;> cases left <;> cases right <;> exact ⟨rfl, rfl⟩

end Instructions

theorem allows_compute {make : Int → Scalar} (found : arithmeticOp? op type = some instr)
    (typed : ∀ integer, (make integer).type = type) :
    Halt.Allows type ((op.compute width left right).map make) := by
  cases op with
  | divide | remainder =>
    rw [compute]
    split
    · rfl
    · exact typed _
  | add | subtract | multiply => exact typed _
  | _ => cases type <;> cases found

/-- The instruction for an operator does to words what the operator does to values. -/
theorem execute_binaryOp
    (found : binaryOp? op left.type = some (instr, result)) (same : right.type = left.type)
    (rest : List Wasm.Constant) : instr.execute (right.word :: left.word :: rest) =
        (op.apply left right).map (fun value => value.word :: rest) ∧
      Halt.Allows result (op.apply left right) := by
  unfold binaryOp? at found
  split at found
  · rename_i comparison
    rw [Option.map_eq_some_iff] at found
    obtain ⟨_, found, given⟩ := found
    obtain ⟨rfl, rfl⟩ := Prod.mk.inj given
    cases left with
    | i32 left =>
      cases right with
      | i32 right =>
        rw [apply, if_pos comparison]
        exact ⟨execute_comparisonOp32 rest found left right, rfl⟩
      | i64 | bool => cases same
    | i64 left =>
      cases right with
      | i64 right =>
        rw [apply, if_pos comparison]
        exact ⟨execute_comparisonOp64 rest found left right, rfl⟩
      | i32 | bool => cases same
    | bool left =>
      cases right with
      | bool right => exact execute_comparisonOpBool rest found left right
      | i32 | i64 => cases same
  · rename_i arithmetic
    rw [Option.map_eq_some_iff] at found
    obtain ⟨_, found, given⟩ := found
    obtain ⟨rfl, rfl⟩ := Prod.mk.inj given
    cases left with
    | i32 left =>
      cases right with
      | i32 right =>
        rw [apply, if_neg arithmetic]
        refine ⟨(execute_arithmeticOp32 rest found left right).trans ?_,
          allows_compute found fun _ => rfl⟩
        rw [words32.compute_eq]
        cases op.compute 32 left.toInt right.toInt <;> rfl
      | i64 | bool => cases same
    | i64 left =>
      cases right with
      | i64 right =>
        rw [apply, if_neg arithmetic]
        refine ⟨(execute_arithmeticOp64 rest found left right).trans ?_,
          allows_compute found fun _ => rfl⟩
        rw [words64.compute_eq]
        cases op.compute 64 left.toInt right.toInt <;> rfl
      | i32 | bool => cases same
    | bool left => cases op <;> cases found

theorem execute_negate32 (value : Int32) (rest : List Wasm.Constant) :
    Wasm.NumericOp.i32Sub.execute (.i32 value :: .i32 0 :: rest) =
      .ok (.i32 (Int32.ofInt (-value.toInt)) :: rest) := by
  rw [Int32.ofInt_neg, Int32.ofInt_toInt, ← Int32.zero_sub]
  rfl

theorem execute_negate64 (value : Int64) (rest : List Wasm.Constant) :
    Wasm.NumericOp.i64Sub.execute (.i64 value :: .i64 0 :: rest) =
      .ok (.i64 (Int64.ofInt (-value.toInt)) :: rest) := by
  rw [Int64.ofInt_neg, Int64.ofInt_toInt, ← Int64.zero_sub]
  rfl

/-! ## Literals -/

theorem toInteger_eq_ok (converted : Literal.toInteger number = .ok integer) :
    number.integer? = some integer ∧ -2 ^ 63 ≤ integer ∧ integer < 2 ^ 63 := by
  unfold Literal.toInteger at converted
  split at converted
  · cases converted
  · rename_i found
    split at converted
    · rename_i inside
      injection converted with same
      subst same
      exact ⟨found, by simpa using inside⟩
    · cases converted

/-- A constant that is not a float is the word of the number of a literal. -/
theorem ofInt?_of_literalConstant (converted : literalConstant number type = .ok constant)
    (floatFree : constant.type.isFloat = false) : ∃ integer scalar, number.integer? = some integer ∧
      Scalar.ofInt? integer type = some scalar ∧ scalar.word = constant ∧ scalar.type = type := by
  cases type with
  | i32 =>
    obtain ⟨value, narrowed, same⟩ := bind_eq_ok.mp converted
    obtain rfl := pure_eq_ok.mp same
    replace narrowed := bind_eq_ok.mp narrowed
    obtain ⟨integer, widened, narrowed⟩ := narrowed
    split at narrowed
    · rename_i inside
      obtain rfl := pure_eq_ok.mp narrowed
      refine ⟨integer, .i32 (ofInt integer), (toInteger_eq_ok widened).1, ?_, rfl, rfl⟩
      exact if_pos (by simpa using inside)
    · cases narrowed
  | i64 =>
    obtain ⟨value, widened, same⟩ := bind_eq_ok.mp converted
    obtain rfl := pure_eq_ok.mp same
    replace widened := bind_eq_ok.mp widened
    obtain ⟨integer, widened, same⟩ := widened
    obtain rfl := pure_eq_ok.mp same
    obtain ⟨found, inside⟩ := toInteger_eq_ok widened
    exact ⟨integer, .i64 (ofInt integer), found, if_pos inside, rfl, rfl⟩
  | f32 =>
    obtain ⟨value, -, same⟩ := bind_eq_ok.mp converted
    obtain rfl := pure_eq_ok.mp same
    cases floatFree
  | f64 | bool | struct =>
    injection converted with same
    subst same
    cases floatFree

/-- A literal that is lowered as an integer is lowered to the word of its number. -/
theorem literalScalar_of_lowerNumber
    (runs : Runs (lowerNumber number want span) ctx work (code, value) next)
    (floatFree : Wasm.codeUsesFloat code = false) :
    ∃ scalar, literalScalar number.integer? want = .ok scalar ∧
      code = [.const scalar.word] ∧ value = .scalar scalar.type ∧ work = next := by
  unfold lowerNumber at runs
  obtain ⟨type, typed, types, runs⟩ := runs.bind
  obtain ⟨constant, _, checks, runs⟩ := runs.bind
  obtain ⟨converted, rfl⟩ := runs_check.mp checks
  obtain ⟨⟨rfl, rfl⟩, rfl⟩ := runs.pair
  have notFloat : constant.type.isFloat = false := by
    simpa [Wasm.codeUsesFloat, Wasm.Instr.usesFloat] using floatFree
  replace converted : literalConstant number type = .ok constant := by
    cases out : literalConstant number type with
    | ok found => simpa [out, Except.mapError] using converted
    | error cause => simp [out, Except.mapError] at converted
  obtain ⟨integer, scalar, found, made, rfl, rfl⟩ := ofInt?_of_literalConstant converted notFloat
  have wanted : want.getD .i32 = scalar.type ∧ work = typed := by
    unfold literalType at types
    split at types
    · split at types
      · obtain ⟨rfl, same⟩ := types.pure
        exact ⟨rfl, same⟩
      · exact types.fail
    · split at types
      · obtain ⟨same, rfl⟩ := types.pure
        exact ⟨same, rfl⟩
      · obtain ⟨same, rfl⟩ := types.pure
        cases scalar <;> cases same
  refine ⟨scalar, ?_, rfl, rfl, wanted.2⟩
  simp only [literalScalar, found, wanted.1, Option.bind_some, made]

end Lowering

/-! ## Negative literals -/

namespace Binary64

variable (word : Binary64)
include word

theorem toNat_bits_negate :
    word.negate.bits.toNat = (if word.negative then 0 else 2 ^ 63) + word.bits.toNat % 2 ^ 63 := by
  have bound : word.bits.toNat < 2 ^ 64 := word.bits.toNat_lt
  have bits_eq : word.negate.bits.toNat = word.bits.toNat ^^^ 2 ^ 63 := by
    simp [negate, UInt64.toNat_xor]
  have low : (word.bits.toNat ^^^ 2 ^ 63) % 2 ^ 63 = word.bits.toNat % 2 ^ 63 := by
    rw [xor_mod_two_pow, mod_self, xor_zero]
  have high : (word.bits.toNat ^^^ 2 ^ 63) / 2 ^ 63 = if word.negative then 0 else 1 := by
    rw [xor_div_two_pow]
    by_cases large : 2 ^ 63 ≤ word.bits.toNat
    · rw [show word.bits.toNat / 2 ^ 63 = 1 by omega,
        if_pos (show word.negative = true from decide_eq_true large)]
      rfl
    · rw [show word.bits.toNat / 2 ^ 63 = 0 by omega, if_neg (by simpa [negative] using large)]
      rfl
  rw [bits_eq, ← div_add_mod (word.bits.toNat ^^^ 2 ^ 63) (2 ^ 63), low, high]
  split <;> rfl

theorem negative_negate : word.negate.negative = !word.negative := by
  have bits_eq := word.toNat_bits_negate
  have small := mod_lt word.bits.toNat (show 0 < 2 ^ 63 by decide)
  unfold negative at bits_eq ⊢
  by_cases large : 0x8000000000000000 ≤ word.bits.toNat
  · simp only [large, decide_true, if_true, Bool.not_true] at bits_eq ⊢
    simp
    omega
  · simp only [large, decide_false, Bool.false_eq_true, if_false, Bool.not_false] at bits_eq ⊢
    simp
    omega

theorem exponentField_negate : word.negate.exponentField = word.exponentField := by
  unfold exponentField
  rw [toNat_bits_negate]
  split <;> omega

theorem fraction_negate : word.negate.fraction = word.fraction := by
  unfold fraction
  rw [toNat_bits_negate]
  split <;> omega

theorem signed_negate (magnitude : Nat) :
    word.negate.signed magnitude = -word.signed magnitude := by
  unfold signed
  rw [negative_negate]
  cases word.negative <;> simp

theorem integer?_negate : word.negate.integer? = word.integer?.map fun number => -number := by
  have exponent_eq : word.negate.exponent = word.exponent := by
    rw [exponent, exponentField_negate, exponent]
  have significand_eq : word.negate.significand = word.significand := by
    rw [significand, exponentField_negate, fraction_negate, significand]
  have isFinite_eq : word.negate.isFinite = word.isFinite := by
    rw [isFinite, exponentField_negate, isFinite]
  simp only [integer?, isFinite_eq, exponent_eq, significand_eq, signed_negate]
  split
  · split
    · rfl
    · split <;> rfl
  · rfl

end Binary64
end StructWasm

import Mathlib
import StructWasm.Literal

/-!
# Exact values of literals

A floating-point word stands for a rational number, an infinity or no number at all. The
conversion of a literal to an integer succeeds exactly if the word stands for an integer in
range, and gives that integer; it tells words that stand for no integer from integers that are
out of range, and a refused literal leaves the buffer as it was.
-/

namespace StructWasm

/-- What a floating-point word stands for. -/
inductive Reading where
  | finite (value : ℚ)
  | infinite (negative : Bool)
  | nan

namespace Binary64

/-- Sign of a word. -/
def sign (word : Binary64) : ℚ :=
  if word.negative then -1 else 1

/-- A word is read by its fields: the exponents 0 and 2047 are those of the subnormal numbers
and of what is no finite number, and all other numbers have a leading 1. -/
def reading (word : Binary64) : Reading :=
  if word.exponentField = 2047 then
    if word.fraction = 0 then .infinite word.negative else .nan
  else if word.exponentField = 0 then
    .finite (word.sign * 2 ^ (-1022 : ℤ) * (word.fraction / 2 ^ 52))
  else
    .finite (word.sign * 2 ^ ((word.exponentField : ℤ) - 1023) * (1 + word.fraction / 2 ^ 52))

variable {word : Binary64}

theorem isFinite_iff : word.isFinite = true ↔ word.exponentField ≠ 2047 := by
  have : word.exponentField < 2048 := Nat.mod_lt _ (by decide)
  simp only [isFinite, decide_eq_true_eq]
  omega

theorem reading_of_isFinite (isFinite : word.isFinite = true) :
    word.reading = .finite (word.sign * (word.significand * 2 ^ word.exponent)) := by
  unfold reading significand exponent
  rw [if_neg (isFinite_iff.mp isFinite)]
  split
  · have split : (2 : ℚ) ^ (-1022 : ℤ) = 2 ^ (-1074 : ℤ) * 2 ^ 52 := by
      rw [← zpow_natCast, ← zpow_add₀ two_ne_zero]
      rfl
    rw [split]
    congr 1
    field_simp
  · have split : (2 : ℚ) ^ ((word.exponentField : ℤ) - 1023) =
        2 ^ ((word.exponentField : ℤ) - 1075) * 2 ^ 52 := by
      rw [← zpow_natCast, ← zpow_add₀ two_ne_zero]
      congr 1
      omega
    rw [split]
    congr 1
    push_cast
    field_simp
    ring

theorem signed_cast (magnitude : Nat) : (word.signed magnitude : ℚ) = word.sign * magnitude := by
  unfold signed sign
  split <;> simp

theorem dvd_signed : (unit : ℤ) ∣ word.signed magnitude ↔ (unit : ℤ) ∣ magnitude := by
  unfold signed
  split <;> simp

/-- The integer of a word is its exact value. -/
theorem integer?_eq_some_iff : word.integer? = some value ↔ word.reading = .finite value := by
  unfold integer?
  split
  · rename_i isFinite
    rw [reading_of_isFinite isFinite, Reading.finite.injEq]
    split
    · rename_i shifted
      obtain ⟨places, places_eq⟩ := Int.eq_ofNat_of_zero_le shifted
      rw [places_eq, Option.some_inj, Int.toNat_natCast, zpow_natCast, Nat.shiftLeft_eq,
        ← @Int.cast_inj ℚ, signed_cast]
      push_cast
      rfl
    · rename_i divided
      obtain ⟨places, places_eq⟩ := Int.eq_ofNat_of_zero_le (show 0 ≤ -word.exponent by omega)
      have scaled : word.sign * (word.significand * 2 ^ word.exponent) =
          word.sign * word.significand / (2 ^ places : Nat) := by
        rw [← neg_neg word.exponent, places_eq, zpow_neg, zpow_natCast]
        push_cast
        ring
      rw [scaled, places_eq, Int.toNat_natCast, Nat.shiftLeft_eq, Nat.one_mul,
        div_eq_iff (by positivity)]
      dsimp only
      split
      · rename_i multiple
        obtain ⟨quotient, significand_eq⟩ := Nat.dvd_of_mod_eq_zero multiple
        rw [significand_eq, Nat.mul_div_cancel_left _ (by positivity), Option.some_inj,
          ← @Int.cast_inj ℚ, signed_cast, Nat.cast_mul, mul_left_comm, mul_comm (value : ℚ),
          mul_right_inj' (by positivity)]
      · rename_i fractional
        simp only [reduceCtorEq, false_iff]
        intro equal
        refine fractional (Nat.mod_eq_zero_of_dvd (Int.natCast_dvd_natCast.mp ?_))
        rw [← signed_cast] at equal
        have whole : word.signed word.significand = value * (2 ^ places : Nat) := by
          exact_mod_cast equal
        rw [← dvd_signed, whole]
        exact dvd_mul_left _ _
  · rename_i notFinite
    have special : word.exponentField = 2047 := by
      by_contra other
      exact notFinite (isFinite_iff.mpr other)
    unfold reading
    rw [if_pos special]
    split <;> simp

end Binary64

namespace Literal

/-- A conversion of a literal succeeds exactly if the literal stands for an integer from `low`
on and below `high`, and then with a result that means this integer. Otherwise it tells words
that stand for no integer from integers that are out of range. -/
structure Converts {α : Type} (literal : Binary64) (low high : ℤ) (meaning : α → ℤ)
    (outcome : Except LiteralError α) : Prop where
  ok_iff : ∀ result, outcome = .ok result ↔
    literal.reading = .finite (meaning result) ∧ low ≤ meaning result ∧ meaning result < high
  accepts : ∀ value : ℤ, literal.reading = .finite value → low ≤ value → value < high →
    ∃ result, outcome = .ok result
  nonInteger_iff : outcome = .error (.nonInteger literal) ↔
    ∀ value : ℤ, literal.reading ≠ .finite value
  outOfRange_iff : (∃ kind, outcome = .error (.outOfRange literal kind)) ↔
    ∃ value : ℤ, literal.reading = .finite value ∧ ¬(low ≤ value ∧ value < high)

variable {α : Type} {literal : Binary64} {meaning : α → ℤ}

theorem toInteger_cases (literal : Binary64) : (∃ value : ℤ, literal.reading = .finite value ∧
      toInteger literal = if -2 ^ 63 ≤ value ∧ value < 2 ^ 63 then .ok value
        else .error (.outOfRange literal .i64)) ∨
    (∀ value : ℤ, literal.reading ≠ .finite value) ∧
      toInteger literal = .error (.nonInteger literal) := by
  unfold toInteger
  cases found : literal.integer? with
  | none =>
    refine .inr ⟨fun value reads => ?_, rfl⟩
    rw [Binary64.integer?_eq_some_iff.mpr reads] at found
    cases found
  | some value =>
    refine .inl ⟨value, Binary64.integer?_eq_some_iff.mp found, ?_⟩
    simp only [Bool.and_eq_true, decide_eq_true_eq]
    rfl

/-- A conversion that goes on from the integer of a literal, with a smaller range. -/
theorem Converts.of_toInteger (kind : NumberKind) {check : ℤ → Except LiteralError α}
    (injective : Function.Injective meaning) (lowest : -2 ^ 63 ≤ low) (highest : high ≤ 2 ^ 63)
    (accepts : ∀ value, low ≤ value → value < high →
      ∃ result, check value = .ok result ∧ meaning result = value)
    (refuses : ∀ value, -2 ^ 63 ≤ value → value < 2 ^ 63 → ¬(low ≤ value ∧ value < high) →
      check value = .error (.outOfRange literal kind)) :
    Converts literal low high meaning (toInteger literal >>= check) := by
  rcases toInteger_cases literal with ⟨value, reads, outcome_eq⟩ | ⟨none, outcome_eq⟩
  · have unique (other : ℤ) : literal.reading = .finite other ↔ other = value := by
      rw [reads, Reading.finite.injEq, Int.cast_inj, eq_comm]
    by_cases within : low ≤ value ∧ value < high
    · obtain ⟨result, checked, means⟩ := accepts value within.1 within.2
      rw [outcome_eq, if_pos ⟨lowest.trans within.1, within.2.trans_le highest⟩]
      change Converts literal low high meaning (check value)
      rw [checked]
      constructor
      · intro other
        rw [Except.ok.injEq, unique, ← means, injective.eq_iff, eq_comm]
        constructor
        · rintro rfl
          exact ⟨rfl, means ▸ within⟩
        · exact And.left
      · exact fun _ _ _ _ => ⟨result, rfl⟩
      · simpa using ⟨value, reads⟩
      · simp only [reduceCtorEq, exists_false, unique, false_iff, not_exists]
        rintro other ⟨rfl, beyond⟩
        exact beyond within
    · have refused : ∃ kind, (toInteger literal >>= check) = .error (.outOfRange literal kind) := by
        rw [outcome_eq]
        split
        · rename_i inside
          exact ⟨kind, refuses value inside.1 inside.2 within⟩
        · exact ⟨.i64, rfl⟩
      obtain ⟨reason, refused_eq⟩ := refused
      rw [refused_eq]
      constructor
      · intro other
        simp only [reduceCtorEq, unique, false_iff]
        rintro ⟨rfl, inside⟩
        exact within inside
      · intro other readsToo fromLow toHigh
        cases (unique other).mp readsToo
        exact absurd ⟨fromLow, toHigh⟩ within
      · simpa using ⟨value, reads⟩
      · exact ⟨fun _ => ⟨value, reads, within⟩, fun _ => ⟨reason, rfl⟩⟩
  · rw [outcome_eq]
    change Converts literal low high meaning (.error (.nonInteger literal))
    constructor
    · simp [none]
    · exact fun value reads => absurd reads (none value)
    · simp [none]
    · simp [none]

theorem converts_toInteger (literal : Binary64) :
    Converts literal (-2 ^ 63) (2 ^ 63) id (toInteger literal) := by
  rw [← bind_pure (toInteger literal)]
  exact .of_toInteger .i64 Function.injective_id le_rfl le_rfl (fun value _ _ => ⟨value, rfl, rfl⟩)
    fun value fromLow toHigh beyond => absurd ⟨fromLow, toHigh⟩ beyond

theorem converts_toInt64 (literal : Binary64) :
    Converts literal (-2 ^ 63) (2 ^ 63) Int64.toInt (toInt64 literal) := by
  refine .of_toInteger .i64 (fun _ _ => Int64.toInt_inj.mp) le_rfl le_rfl ?_
    fun value fromLow toHigh beyond => absurd ⟨fromLow, toHigh⟩ beyond
  intro value fromLow toHigh
  exact ⟨_, rfl, Int64.toInt_ofInt_of_le fromLow toHigh⟩

theorem converts_toInt32 (literal : Binary64) :
    Converts literal (-2 ^ 31) (2 ^ 31) Int32.toInt (toInt32 literal) := by
  refine .of_toInteger .i32 (fun _ _ => Int32.toInt_inj.mp) (by decide) (by decide) ?_ ?_
  · intro value fromLow toHigh
    refine ⟨Int32.ofInt value, if_pos ?_, Int32.toInt_ofInt_of_le fromLow toHigh⟩
    simpa using ⟨fromLow, toHigh⟩
  · intro value _ _ beyond
    refine if_neg ?_
    simpa using beyond

theorem converts_toUnsigned (literal : Binary64) :
    Converts literal 0 (2 ^ 63) Nat.cast (toUnsigned literal) := by
  refine .of_toInteger .u64 Nat.cast_injective (by decide) le_rfl ?_ ?_
  · intro value fromLow _
    exact ⟨value.toNat, if_pos fromLow, Int.toNat_of_nonneg fromLow⟩
  · intro value _ toHigh beyond
    exact if_neg fun fromLow => beyond ⟨fromLow, toHigh⟩

/-- How a write ends: a literal that is refused leaves the buffer as it was. -/
def writeEnd (encode : α → Bytes) (buffer : Bytes) :
    Except LiteralError α → EStateM.Result LiteralError Bytes Unit
  | .ok value => .ok () (buffer ++ encode value)
  | .error cause => .error cause buffer

theorem write_eq (encode : α → Bytes) (converted : Except LiteralError α) (buffer : Bytes) :
    write encode converted buffer = writeEnd encode buffer converted := by
  cases converted <;> rfl

/-- Every conversion of a literal to an integer is exact for the integers of its range and
refuses all other words, and only an accepted literal is written. -/
theorem conversions_exact (literal : Binary64) :
    Converts literal (-2 ^ 63) (2 ^ 63) id (toInteger literal) ∧
      Converts literal (-2 ^ 63) (2 ^ 63) Int64.toInt (toInt64 literal) ∧
      Converts literal (-2 ^ 31) (2 ^ 31) Int32.toInt (toInt32 literal) ∧
      Converts literal 0 (2 ^ 63) Nat.cast (toUnsigned literal) ∧
      ∀ buffer, writeUnsigned literal buffer =
          writeEnd Leb128.encodeUnsigned buffer (toUnsigned literal) ∧
        writeSigned literal buffer = writeEnd Leb128.encodeSigned buffer (toInteger literal) :=
  ⟨converts_toInteger literal, converts_toInt64 literal, converts_toInt32 literal,
    converts_toUnsigned literal, fun _ => ⟨write_eq _ _ _, write_eq _ _ _⟩⟩

end Literal
end StructWasm

import Mathlib
import StructWasm.Leb128

/-!
# Numbers in groups of seven bits

The groups of a numeral write a number of any size, as it stands or in two's complement of
as many bits. Reading an unsigned number accepts the numerals of up to ten groups whose
number has 64 bits; reading a signed one accepts all numerals of up to ten groups and
keeps 64 bits of the number. No numeral is shorter than what is written for its number.
-/

namespace StructWasm.Leb128

open List Nat Int

/-- Bytes of which the last one, and no other, ends a number. -/
def Numeral : Bytes → Prop
  | [] => False
  | byte :: rest => if continues byte then Numeral rest else rest = []

/-- The number that the groups of a numeral write. -/
def magnitude : Bytes → Nat
  | [] => 0
  | byte :: rest => groupOf byte + 128 * magnitude rest

/-- The number that the groups of a numeral write in two's complement. -/
def twosComplement (bytes : Bytes) : Int :=
  Int.bmod (magnitude bytes) (128 ^ bytes.length)

variable {byte : UInt8} {bytes rest : Bytes} {groups offset value group : Nat}

theorem groupOf_lt (byte : UInt8) : groupOf byte < 128 :=
  mod_lt _ (by decide)

theorem magnitude_lt (bytes : Bytes) : magnitude bytes < 128 ^ bytes.length := by
  induction bytes with
  | nil => exact one_pos
  | cons byte rest ih =>
    have small := groupOf_lt byte
    rw [magnitude, length_cons, pow_succ]
    omega

theorem Numeral.length_pos (numeral : Numeral bytes) : 0 < bytes.length := by
  cases bytes with
  | nil => cases numeral
  | cons => exact succ_pos _

/-- A numeral at the front of bytes goes on after the first byte if that byte says so. -/
theorem exists_numeral_cons {holds : Bytes → Prop} :
    (∃ numeral, numeral <+: byte :: rest ∧ Numeral numeral ∧ holds numeral) ↔ if continues byte then
        ∃ tail, tail <+: rest ∧ Numeral tail ∧ holds (byte :: tail)
      else
        holds [byte] := by
  constructor
  · rintro ⟨numeral, front, isNumeral, holds⟩
    obtain rfl | ⟨tail, rfl, behind⟩ := prefix_cons_iff.mp front
    · cases isNumeral
    · rw [Numeral] at isNumeral
      split at isNumeral
      · rw [if_pos (by assumption)]
        exact ⟨tail, behind, isNumeral, holds⟩
      · rw [if_neg (by assumption)]
        exact isNumeral ▸ holds
  · intro found
    split at found
    · rename_i more
      obtain ⟨tail, front, isNumeral, holds⟩ := found
      exact ⟨byte :: tail, cons_prefix_cons.mpr ⟨rfl, front⟩, by rwa [Numeral, if_pos more], holds⟩
    · rename_i last
      exact ⟨[byte], cons_prefix_cons.mpr ⟨rfl, nil_prefix⟩, by rw [Numeral, if_neg last], found⟩

/-! ## Reading -/

theorem shiftLeft_groups (group groups : Nat) : group <<< (7 * groups) = group * 128 ^ groups := by
  rw [Nat.shiftLeft_eq, Nat.pow_mul]

/-- A group above smaller ones. -/
theorem add_group_lt (byte : UInt8) (small : value < 128 ^ groups) :
    value + groupOf byte * 128 ^ groups < 128 ^ (groups + 1) := by
  have bound : (groupOf byte + 1) * 128 ^ groups ≤ 128 * 128 ^ groups :=
    mul_le_mul_right _ (groupOf_lt byte)
  rw [succ_mul] at bound
  rw [pow_succ]
  omega

theorem add_magnitude_cons (byte : UInt8) (rest : Bytes) :
    value + magnitude (byte :: rest) * 128 ^ groups =
      value + groupOf byte * 128 ^ groups + magnitude rest * 128 ^ (groups + 1) := by
  rw [magnitude]
  ring

theorem decodeUnsignedFrom_eq_ok (small : value < 128 ^ groups) {result} :
    decodeUnsignedFrom (7 * groups) offset value bytes = .ok result ↔
      ∃ numeral, numeral <+: bytes ∧ Numeral numeral ∧ groups + numeral.length ≤ 10 ∧
        value + magnitude numeral * 128 ^ groups < 2 ^ 64 ∧
        result = (value + magnitude numeral * 128 ^ groups, offset + numeral.length) := by
  induction bytes generalizing groups offset value with
  | nil => simp [decodeUnsignedFrom, Numeral]
  | cons byte rest ih =>
    have raised := add_group_lt byte small
    simp only [exists_numeral_cons, decodeUnsignedFrom, shiftLeft_groups, add_magnitude_cons,
      length_cons]
    by_cases refused : 64 ≤ 7 * groups ∨ 7 * groups = 63 ∧ 2 ≤ groupOf byte
    · rw [if_pos refused]
      refine iff_of_false (by cases ·) ?_
      split
      · rintro ⟨tail, -, numeral, few, -⟩
        have := numeral.length_pos
        omega
      · rintro ⟨few, fits, -⟩
        obtain rfl : groups = 9 := by
          have : groups + 1 ≤ 10 := few
          omega
        omega
    · rw [if_neg refused]
      split
      · rw [← Nat.mul_succ, ih raised]
        simp only [Nat.add_right_comm, Nat.add_assoc]
      · -- A tenth group is worth at most 2 ^ 63, and so is all that is before it.
        have fits : value + groupOf byte * 128 ^ groups < 2 ^ 64 := by
          by_cases tenth : groups = 9
          · subst tenth
            omega
          · calc
              _ < 128 ^ (groups + 1) := raised
              _ ≤ 128 ^ 9 := Nat.pow_le_pow_right (by decide) (by omega)
              _ < 2 ^ 64 := by decide
        have few : groups + 1 ≤ 10 := by omega
        simp only [magnitude, length_nil, Nat.zero_mul, Nat.add_zero, Nat.zero_add, few, fits,
          true_and, Except.ok.injEq, eq_comm]

theorem decodeUnsigned_eq_ok : decodeUnsigned bytes pos = .ok result ↔
      ∃ numeral, numeral <+: bytes.drop pos ∧ Numeral numeral ∧ numeral.length ≤ 10 ∧
        magnitude numeral < 2 ^ 64 ∧ result = (magnitude numeral, pos + numeral.length) := by
  have read := @decodeUnsignedFrom_eq_ok (bytes.drop pos) 0 pos 0 one_pos result
  simpa [decodeUnsigned] using read

/-- The last group of a signed number gives the sign, unless it is the tenth. -/
theorem sign_of_last (small : value < 128 ^ groups) (few : groups < 10) (byte : UInt8) :
    let total := value + groupOf byte * 128 ^ groups
    Int.bmod (Int.bmod total (128 ^ (groups + 1))) 0x10000000000000000 =
      if 7 * (groups + 1) < 64 ∧ 64 ≤ groupOf byte then (total : Int) - (128 ^ (groups + 1) : Nat)
      else Int.bmod total 0x10000000000000000 := by
  intro total
  have raised : total < 128 ^ (groups + 1) := add_group_lt byte small
  by_cases tenth : groups = 9
  · rw [if_neg (by omega), tenth]
    exact Int.bmod_bmod_of_dvd (by decide)
  · have bound : 128 ^ (groups + 1) ≤ 128 ^ 9 := Nat.pow_le_pow_right (by decide) (by omega)
    have half : 128 ^ (groups + 1) = 2 * (64 * 128 ^ groups) := by ring
    split
    · rename_i negative
      have least : 64 * 128 ^ groups ≤ groupOf byte * 128 ^ groups :=
        Nat.mul_le_mul_right _ negative.2
      have signed : Int.bmod total (128 ^ (groups + 1)) = total - (128 ^ (groups + 1) : Nat) :=
        (Int.bmod_eq_iff (Nat.pow_pos (by decide))).mpr ⟨by omega, by omega, by simp⟩
      rw [signed]
      exact Int.bmod_eq_of_le (by omega) (by omega)
    · rename_i positive
      have most : (groupOf byte + 1) * 128 ^ groups ≤ 64 * 128 ^ groups :=
        Nat.mul_le_mul_right _ (by omega)
      rw [Nat.succ_mul] at most
      exact congrArg (Int.bmod · _) (Int.bmod_eq_of_le (by omega) (by omega))

theorem decodeSignedFrom_eq_ok (small : value < 128 ^ groups) {result} :
    decodeSignedFrom (7 * groups) offset value bytes = .ok result ↔
      ∃ numeral, numeral <+: bytes ∧ Numeral numeral ∧ groups + numeral.length ≤ 10 ∧
        result = (bmod (bmod (value + magnitude numeral * 128 ^ groups : Nat)
          (128 ^ (groups + numeral.length))) 0x10000000000000000, offset + numeral.length) := by
  induction bytes generalizing groups offset value with
  | nil => simp [decodeSignedFrom, Numeral]
  | cons byte rest ih =>
    have raised := add_group_lt byte small
    simp only [exists_numeral_cons, decodeSignedFrom, shiftLeft_groups, add_magnitude_cons,
      length_cons, ← mul_succ]
    by_cases refused : 64 ≤ 7 * groups
    · rw [if_pos refused]
      refine iff_of_false (by cases ·) ?_
      split
      · rintro ⟨tail, -, numeral, few, -⟩
        omega
      · rintro ⟨few, -⟩
        have : groups + 1 ≤ 10 := few
        omega
    · rw [if_neg refused]
      split
      · rw [ih raised]
        simp only [add_right_comm, add_assoc]
      · have few : groups + 1 ≤ 10 := by omega
        simp only [magnitude, length_nil, zero_mul, add_zero, zero_add, few, true_and,
          sign_of_last small few byte, one_mul]
        split <;> simp only [Except.ok.injEq, eq_comm]

theorem decodeSigned_eq_ok : decodeSigned bytes pos = .ok result ↔
      ∃ numeral, numeral <+: bytes.drop pos ∧ Numeral numeral ∧ numeral.length ≤ 10 ∧
        result = (bmod (twosComplement numeral) 0x10000000000000000, pos + numeral.length) := by
  have read := @decodeSignedFrom_eq_ok (bytes.drop pos) 0 pos 0 one_pos result
  simpa [decodeSigned, twosComplement] using read

/-! ## Writing -/

theorem group_last (small : group < 128) :
    continues (UInt8.ofNat group) = false ∧ groupOf (UInt8.ofNat group) = group := by
  have toNat_eq : (UInt8.ofNat group).toNat = group := by
    rw [UInt8.toNat_ofNat']
    omega
  constructor
  · simp [continues, toNat_eq, small]
  · rw [groupOf, toNat_eq, mod_eq_of_lt small]

theorem group_more (small : group < 128) : continues (UInt8.ofNat (group + 128)) = true ∧
      groupOf (UInt8.ofNat (group + 128)) = group := by
  have toNat_eq : (UInt8.ofNat (group + 128)).toNat = group + 128 := by
    rw [UInt8.toNat_ofNat']
    omega
  constructor
  · rw [continues, toNat_eq]
    simp
  · rw [groupOf, toNat_eq]
    omega

theorem numeral_encodeUnsigned (value : Nat) :
    Numeral (encodeUnsigned value) ∧ magnitude (encodeUnsigned value) = value := by
  fun_induction encodeUnsigned value with
  | case1 value small =>
    obtain ⟨last, group_eq⟩ := group_last small
    simp [Numeral, magnitude, last, group_eq]
  | case2 value large ih =>
    obtain ⟨more, group_eq⟩ := group_more (mod_lt value (by decide : 0 < 128))
    rw [Numeral, magnitude, if_pos more, group_eq, ih.2, mod_add_div]
    exact ⟨ih.1, rfl⟩

theorem length_encodeUnsigned_le (positive : 0 < groups) (fits : value < 128 ^ groups) :
    (encodeUnsigned value).length ≤ groups := by
  fun_induction encodeUnsigned value generalizing groups with
  | case1 value small => exact positive
  | case2 value large ih =>
    obtain ⟨fewer, rfl⟩ := Nat.exists_eq_add_one.mpr positive
    refine Nat.succ_le_succ (ih (Nat.pos_of_ne_zero ?_) (Nat.div_lt_of_lt_mul ?_))
    · rintro rfl
      exact large fits
    · rwa [Nat.mul_comm, ← Nat.pow_succ]

theorem twosComplement_range (length_eq : bytes.length = groups + 1) :
    -(64 * 128 ^ groups : Nat) ≤ twosComplement bytes ∧
      twosComplement bytes < (64 * 128 ^ groups : Nat) := by
  have half : 128 ^ bytes.length = 2 * (64 * 128 ^ groups) := by
    rw [length_eq]
    ring
  have positive : 0 < 128 ^ bytes.length := Nat.pow_pos (by decide)
  have least := @Int.le_bmod (magnitude bytes) _ positive
  have most := @Int.bmod_lt (magnitude bytes) _ positive
  unfold twosComplement
  omega

theorem twosComplement_singleton (byte : UInt8) : twosComplement [byte] =
      if groupOf byte < 64 then (groupOf byte : Int) else groupOf byte - 128 := by
  have small := groupOf_lt byte
  rw [twosComplement, length_singleton, bmod_eq_iff (by decide), magnitude, magnitude]
  split <;> omega

theorem twosComplement_cons (nonempty : 0 < rest.length) (byte : UInt8) :
    twosComplement (byte :: rest) = groupOf byte + 128 * twosComplement rest := by
  obtain ⟨groups, length_eq⟩ := Nat.exists_eq_add_one.mpr nonempty
  have small := groupOf_lt byte
  have range := twosComplement_range length_eq
  have half : 128 ^ (rest.length + 1) = 2 * (64 * (128 * 128 ^ groups)) := by
    rw [length_eq]
    ring
  rw [twosComplement, Int.bmod_eq_iff (Nat.pow_pos (by decide))]
  refine ⟨?_, ?_, ?_⟩
  · rw [length_cons]
    omega
  · rw [length_cons]
    omega
  · have multiple : ((128 ^ rest.length : Nat) : Int) ∣ twosComplement rest - magnitude rest :=
      ((Int.bmod_eq_iff (Nat.pow_pos (by decide))).mp rfl).2.2
    have difference : groupOf byte + 128 * twosComplement rest - (magnitude (byte :: rest) : Int) =
        128 * (twosComplement rest - magnitude rest) := by
      rw [magnitude]
      push_cast
      ring
    rw [difference, length_cons, Nat.pow_succ', Nat.cast_mul]
    exact mul_dvd_mul_left _ multiple

theorem numeral_encodeSigned (value : Int) :
    Numeral (encodeSigned value) ∧ twosComplement (encodeSigned value) = value := by
  fun_induction encodeSigned value with
  | case1 value group small =>
    obtain ⟨last, group_eq⟩ := group_last (show group < 128 by omega)
    rw [Numeral, twosComplement_singleton, last, group_eq, if_neg Bool.false_ne_true]
    refine ⟨rfl, ?_⟩
    split <;> omega
  | case2 value group large ih =>
    obtain ⟨more, group_eq⟩ := group_more (show group < 128 by omega)
    rw [Numeral, twosComplement_cons ih.1.length_pos, if_pos more, group_eq, ih.2]
    exact ⟨ih.1, by omega⟩

theorem length_encodeSigned_le {value : Int} (least : -(64 * 128 ^ groups : Nat) ≤ value)
    (most : value < (64 * 128 ^ groups : Nat)) : (encodeSigned value).length ≤ groups + 1 := by
  fun_induction encodeSigned value generalizing groups with
  | case1 => exact le_add_left _ _
  | case2 value group large =>
    rename_i ih
    cases groups with
    | zero => omega
    | succ fewer =>
      rw [pow_succ] at least most
      exact succ_le_succ (ih (by omega) (by omega))

/-! ## Writing and reading back -/

/-- Whatever stands around it, a number of 64 bits is read back, and no numeral of it is
shorter. Exactly the numerals of up to ten groups are read whose number has 64 bits. -/
theorem unsigned_exact :
    (∀ (value : UInt64) (front back : Bytes),
      decodeUnsigned (front ++ encodeUnsigned value.toNat ++ back) front.length =
        .ok (value.toNat, front.length + (encodeUnsigned value.toNat).length) ∧
      Numeral (encodeUnsigned value.toNat) ∧ magnitude (encodeUnsigned value.toNat) = value.toNat ∧
      ∀ other, Numeral other → magnitude other = value.toNat →
        (encodeUnsigned value.toNat).length ≤ other.length) ∧
    ∀ (bytes : Bytes) (position value stop : Nat),
      decodeUnsigned bytes position = .ok (value, stop) ↔
        ∃ numeral, numeral <+: bytes.drop position ∧ Numeral numeral ∧ numeral.length ≤ 10 ∧
          magnitude numeral < 2 ^ 64 ∧ value = magnitude numeral ∧
          stop = position + numeral.length := by
  constructor
  · intro value front back
    obtain ⟨numeral, magnitude_eq⟩ := numeral_encodeUnsigned value.toNat
    refine ⟨decodeUnsigned_eq_ok.mpr ⟨encodeUnsigned value.toNat, ?_, numeral, ?_, ?_, ?_⟩,
      numeral, magnitude_eq, fun other isNumeral same => ?_⟩
    · simp
    · exact length_encodeUnsigned_le (by decide) (value.toNat_lt.trans (by decide))
    · rw [magnitude_eq]
      exact value.toNat_lt
    · rw [magnitude_eq]
    · exact length_encodeUnsigned_le isNumeral.length_pos (same ▸ magnitude_lt other)
  · intro bytes position value stop
    rw [decodeUnsigned_eq_ok]
    simp only [Prod.mk.injEq]

/-- Whatever stands around it, a signed number of 64 bits is read back, and no numeral of
it in two's complement is shorter. -/
theorem signed_read_back (value : Int64) (front back : Bytes) :
    decodeSigned (front ++ encodeSigned value.toInt ++ back) front.length =
        .ok (value.toInt, front.length + (encodeSigned value.toInt).length) ∧
      Numeral (encodeSigned value.toInt) ∧ twosComplement (encodeSigned value.toInt) = value.toInt ∧
      ∀ other, Numeral other → twosComplement other = value.toInt →
        (encodeSigned value.toInt).length ≤ other.length := by
  have least := value.le_toInt
  have most := value.toInt_lt
  obtain ⟨numeral, complement_eq⟩ := numeral_encodeSigned value.toInt
  refine ⟨decodeSigned_eq_ok.mpr ⟨encodeSigned value.toInt, ?_, numeral, ?_, ?_⟩,
    numeral, complement_eq, fun other isNumeral same => ?_⟩
  · simp
  · exact @length_encodeSigned_le 9 _ (by omega) (by omega)
  · rw [complement_eq, Int.bmod_eq_of_le (by omega) (by omega)]
  · obtain ⟨groups, length_eq⟩ := Nat.exists_eq_add_one.mpr isNumeral.length_pos
    obtain ⟨least, most⟩ := twosComplement_range length_eq
    rw [length_eq]
    exact length_encodeSigned_le (same ▸ least) (same ▸ most)

/-- Exactly the numerals of up to ten groups are read as signed numbers, and what is read is
the number that they write, kept to 64 bits. So it is that number as long as 64 bits have
room for it. -/
theorem signed_exact_up_to_wrapping (bytes : Bytes) (position : Nat) (value : Int) (stop : Nat) :
    decodeSigned bytes position = .ok (value, stop) ↔
      ∃ numeral, numeral <+: bytes.drop position ∧ Numeral numeral ∧ numeral.length ≤ 10 ∧
        value = Int.bmod (twosComplement numeral) (2 ^ 64) ∧ stop = position + numeral.length ∧
        (value = twosComplement numeral ↔
          -2 ^ 63 ≤ twosComplement numeral ∧ twosComplement numeral < 2 ^ 63) := by
  have exact_iff (number : Int) :
      Int.bmod number (2 ^ 64) = number ↔ -2 ^ 63 ≤ number ∧ number < 2 ^ 63 := by
    rw [Int.bmod_eq_iff (by decide), sub_self]
    omega
  rw [decodeSigned_eq_ok]
  simp only [Prod.mk.injEq]
  refine exists_congr fun numeral => and_congr_right' (and_congr_right' (and_congr_right' ?_))
  constructor
  · rintro ⟨rfl, stop_eq⟩
    exact ⟨rfl, stop_eq, exact_iff _⟩
  · rintro ⟨value_eq, stop_eq, -⟩
    exact ⟨value_eq, stop_eq⟩

/-- The tenth group can write bits for which there is no room. -/
theorem signed_wraps :
    ∃ bytes, Numeral bytes ∧ decodeSigned bytes 0 = .ok (0, 10) ∧
      twosComplement bytes = 2 ^ 64 := by
  refine ⟨replicate 9 0x80 ++ [0x02], ?_, by decide +kernel, by decide +kernel⟩
  simp [Numeral, continues, replicate]

end StructWasm.Leb128

import StructWasm.Proofs.Leb128
import StructWasm.Wasm.Encoding

/-!
# Reading bytes back

Readers for the grammar of the binary format: numbers, names, vectors after their count,
and contents after their length. A reader takes bytes from the front and leaves the rest.
What is written for a value is read back as the value, whatever follows.
-/

namespace StructWasm.Wasm

open List Leb128 Bytes

/-- A reader of values from the front of bytes. -/
abbrev Reader (α : Type) := StateT Bytes Option α

namespace Reader

variable {α β : Type}

def byte : Reader UInt8
  | [] => none
  | first :: rest => some (first, rest)

/-- A byte that has to be there. -/
def expect (mark : UInt8) : Reader Unit := do
  let first ← byte
  guard (first = mark)

/-- An unsigned number of any size. -/
def unsigned : Reader Nat
  | [] => none
  | first :: rest =>
    if Leb128.continues first then
      (unsigned rest).map fun (high, rest) => (Leb128.groupOf first + 128 * high, rest)
    else
      some (Leb128.groupOf first, rest)

/-- A signed number of any size. The sixth bit of the last group is the sign. -/
def signed : Reader Int
  | [] => none
  | first :: rest =>
    if Leb128.continues first then
      (signed rest).map fun (high, rest) => (Leb128.groupOf first + 128 * high, rest)
    else if Leb128.groupOf first < 64 then
      some (Leb128.groupOf first, rest)
    else
      some (Leb128.groupOf first - 128, rest)

def take (count : Nat) : Reader Bytes := fun bytes =>
  if count ≤ bytes.length then some (bytes.take count, bytes.drop count) else none

def remaining : Reader Bytes := fun bytes =>
  some (bytes, [])

/-- The value that bytes hold from the first to the last. -/
def exhaust (reader : Reader α) (bytes : Bytes) : Option α :=
  match reader bytes with
  | some (value, []) => some value
  | _ => none

/-- Contents after their length, which they have to fill. -/
def framed (reader : Reader α) : Reader α := do
  let count ← unsigned
  let bytes ← take count
  reader.exhaust bytes

def times (item : Reader α) : Nat → Reader (List α)
  | 0 => pure []
  | count + 1 => do return (← item) :: (← item.times count)

/-- Items after their number. -/
def vector (item : Reader α) : Reader (List α) := do
  let count ← unsigned
  item.times count

def text : Reader String := do
  let bytes ← remaining
  String.fromUTF8? bytes.toByteArray

/-- A word of some bytes, least significant first. -/
def word (width : Nat) : Reader Nat := do
  return Bytes.ofLittleEndian (← take width)

def valType : Reader ValType := do
  let mark ← byte
  ValType.all.find? fun type => type.byte == mark

def funcType : Reader FuncType := do
  expect 0x60
  let params ← vector valType
  let results ← vector valType
  return { params, results }

/-- An instruction that puts a constant on the operand stack. -/
def constant : Reader Constant := do
  match ← byte with
  | 0x41 => return .i32 (Int32.ofInt (← signed))
  | 0x42 => return .i64 (Int64.ofInt (← signed))
  | 0x43 => return .f32 ⟨UInt32.ofNat (← word 4)⟩
  | 0x44 => return .f64 ⟨UInt64.ofNat (← word 8)⟩
  | _ => failure

/-- Whatever follows some bytes, a reader takes them for a value and leaves the rest. -/
def Reads (reader : Reader α) (bytes : Bytes) (value : α) : Prop :=
  ∀ rest, reader (bytes ++ rest) = some (value, rest)

/-! ## Readers one after the other -/

variable {bytes : Bytes} {value : α}

theorem reads_pure (value : α) : Reads (pure value) [] value :=
  fun _ => rfl

variable {reader : Reader α} {next : α → Reader β}

theorem Reads.bind (first : reader.Reads front value) (second : (next value).Reads back result) :
    Reads (reader >>= next) (front ++ back) result := by
  intro rest
  have step : (reader >>= next) (front ++ (back ++ rest)) = next value (back ++ rest) := by
    show (reader (front ++ (back ++ rest))).bind _ = _
    rw [first]
    rfl
  rw [append_assoc, step, second]

theorem Reads.bind_nil (first : reader.Reads bytes value) (second : (next value).Reads [] result) :
    Reads (reader >>= next) bytes result := by
  have both := first.bind second
  rwa [append_nil] at both

theorem reads_lift (known : out = some value) : Reads (StateT.lift out) [] value := by
  intro rest
  rw [known]
  rfl

theorem reads_byte (first : UInt8) : Reads byte [first] first :=
  fun _ => rfl

theorem reads_expect (mark : UInt8) : Reads (expect mark) [mark] () := by
  refine (reads_byte mark).bind_nil fun rest => ?_
  simp [guard]
  rfl

theorem reads_take (bytes : Bytes) : Reads (take bytes.length) bytes bytes := by
  intro rest
  simp [take]

theorem Reads.exhaust (reads : reader.Reads bytes value) : reader.exhaust bytes = some value := by
  have all := reads []
  rw [append_nil] at all
  rw [Reader.exhaust, all]

theorem exhaust_eq_some {reader : Reader α} :
    reader.exhaust bytes = some value ↔ reader bytes = some (value, []) := by
  rw [exhaust]
  split
  · rename_i found
    simp [found]
  · rename_i unfinished
    simp only [reduceCtorEq, false_iff]
    exact unfinished value

theorem Reads.exhaust_bind (first : reader.Reads front value)
    (second : (next value).exhaust back = some result) :
    (reader >>= next).exhaust (front ++ back) = some result := by
  rw [exhaust_eq_some] at second ⊢
  show (reader (front ++ back)).bind _ = _
  rw [first]
  exact second

theorem exhaust_bind_pure {make : α → β} (filled : reader.exhaust bytes = some value) :
    (reader >>= fun found => pure (make found)).exhaust bytes = some (make value) := by
  rw [exhaust_eq_some] at filled ⊢
  show (reader bytes).bind _ = _
  rw [filled]
  rfl

/-! ## Numbers -/

variable {item : Reader α} {parts : List Bytes} {values : List α}

theorem reads_magnitude (numeral : Leb128.Numeral bytes) :
    Reads unsigned bytes (magnitude bytes) := by
  intro rest
  induction bytes with
  | nil => cases numeral
  | cons first others ih =>
    rw [Leb128.Numeral] at numeral
    rw [cons_append, unsigned, magnitude]
    split
    · rename_i more
      rw [if_pos more] at numeral
      rw [ih numeral]
      rfl
    · rename_i last
      rw [if_neg last] at numeral
      subst numeral
      rfl

theorem reads_unsigned (value : Nat) : Reads unsigned (encodeUnsigned value) value := by
  obtain ⟨numeral, value_eq⟩ := numeral_encodeUnsigned value
  have reads := reads_magnitude numeral
  rwa [value_eq] at reads

theorem reads_twosComplement (numeral : Leb128.Numeral bytes) :
    Reads signed bytes (twosComplement bytes) := by
  intro rest
  induction bytes with
  | nil => cases numeral
  | cons first others ih =>
    rw [Leb128.Numeral] at numeral
    rw [cons_append, signed]
    split
    · rename_i more
      rw [if_pos more] at numeral
      rw [ih numeral, twosComplement_cons numeral.length_pos]
      rfl
    · rename_i last
      rw [if_neg last] at numeral
      subst numeral
      rw [twosComplement_singleton]
      split <;> rfl

theorem reads_signed (value : Int) : Reads signed (encodeSigned value) value := by
  obtain ⟨numeral, value_eq⟩ := numeral_encodeSigned value
  have reads := reads_twosComplement numeral
  rwa [value_eq] at reads

theorem ofLittleEndian_littleEndian {width value} (fits : value < 256 ^ width) :
    ofLittleEndian (littleEndian width value) = value := by
  induction width generalizing value with
  | zero => simpa [littleEndian, ofLittleEndian, eq_comm] using fits
  | succ width ih =>
    have rest : value / 256 < 256 ^ width := by
      rw [Nat.div_lt_iff_lt_mul (by decide), ← Nat.pow_succ]
      exact fits
    have toNat_eq : (UInt8.ofNat (value % 256)).toNat = value % 256 := by
      rw [UInt8.toNat_ofNat']
      omega
    rw [littleEndian, ofLittleEndian, ih rest, toNat_eq, Nat.mod_add_div]

theorem length_littleEndian (width value : Nat) : (littleEndian width value).length = width := by
  induction width generalizing value with
  | zero => rfl
  | succ width ih =>
    rw [littleEndian, length_cons, ih]

theorem reads_word (width : Nat) {value} (fits : value < 256 ^ width) :
    Reads (word width) (littleEndian width value) value := by
  have taken := reads_take (littleEndian width value)
  rw [length_littleEndian] at taken
  refine taken.bind_nil ?_
  rw [ofLittleEndian_littleEndian fits]
  exact reads_pure value

/-! ## Lists -/

theorem reads_framed (filled : reader.exhaust bytes = some value) :
    Reads (framed reader) (lengthPrefixed bytes) value :=
  (reads_unsigned bytes.length).bind ((reads_take bytes).bind_nil (reads_lift filled))

theorem reads_times (each : List.Forall₂ item.Reads parts values) :
    Reads (item.times parts.length) parts.flatten values := by
  induction each with
  | nil => exact reads_pure []
  | cons first _ ih =>
    exact first.bind (ih.bind_nil (reads_pure _))

theorem reads_vector (each : List.Forall₂ item.Reads parts values) :
    Reads (vector item) (encodeUnsigned parts.length ++ parts.flatten) values :=
  (reads_unsigned parts.length).bind (reads_times each)

theorem forall₂_reads_map {item : Reader β} {write : α → Bytes} (view : α → β)
    (each : ∀ value, item.Reads (write value) (view value)) (values : List α) :
    List.Forall₂ item.Reads (values.map write) (values.map view) := by
  rw [forall₂_map_left_iff, forall₂_map_right_iff, forall₂_same]
  exact fun value _ => each value

/-! ## Texts -/

theorem toList_loop (bytes : ByteArray) (pos : Nat) (front : List UInt8) :
    ByteArray.toList.loop bytes pos front = front.reverse ++ bytes.data.toList.drop pos := by
  rw [ByteArray.toList.loop]
  split
  · rename_i inside
    have mem : pos < bytes.data.toList.length := inside
    have get_eq : bytes.get! pos = bytes.data.toList[pos] := by
      rw [Array.getElem_toList]
      exact getElem!_pos bytes.data pos mem
    rw [toList_loop, get_eq, reverse_cons, append_assoc, singleton_append,
      drop_eq_getElem_cons mem]
  · rename_i beyond
    rw [drop_eq_nil_of_le, append_nil]
    exact Nat.le_of_not_lt beyond
termination_by bytes.size - pos

theorem toByteArray_utf8 (data : String) : (utf8 data).toByteArray = data.toUTF8 := by
  apply ByteArray.ext
  rw [data_toByteArray, utf8, ByteArray.toList, toList_loop]
  rfl

theorem exhaust_text (data : String) : text.exhaust (utf8 data) = some data := by
  have valid : data.toUTF8.IsValidUTF8 := data.isValidUTF8
  have decoded : String.fromUTF8? (utf8 data).toByteArray = some data := by
    rw [toByteArray_utf8, String.fromUTF8?, dif_pos valid]
    rfl
  rw [exhaust_eq_some]
  show (StateT.lift _ _ : Option (String × Bytes)) = _
  rw [decoded]
  rfl

theorem reads_name (data : String) : Reads (framed text) (name data) data :=
  reads_framed (exhaust_text data)

/-! ## Types and constants -/

theorem reads_valType (type : ValType) : Reads valType [type.byte] type :=
  (reads_byte type.byte).bind_nil (reads_lift (by cases type <;> rfl))

theorem reads_typeVector (types : List ValType) :
    Reads (vector valType) (typeVector types) types := by
  have each := reads_vector (forall₂_reads_map id reads_valType types)
  rw [map_id, length_map, ← flatMap_def, ← map_eq_flatMap] at each
  rw [typeVector, lengthPrefixed, length_map]
  exact each

theorem reads_funcType (type : FuncType) : Reads funcType type.encode type :=
  (reads_expect 0x60).bind ((reads_typeVector type.params).bind
    ((reads_typeVector type.results).bind_nil (reads_pure _)))

theorem reads_constant (value : Constant) : Reads constant value.encode value := by
  cases value with
  | i32 value =>
    refine (reads_byte 0x41).bind ((reads_signed value.toInt).bind_nil ?_)
    rw [Int32.ofInt_toInt]
    exact reads_pure _
  | i64 value =>
    refine (reads_byte 0x42).bind ((reads_signed value.toInt).bind_nil ?_)
    rw [Int64.ofInt_toInt]
    exact reads_pure _
  | f32 value =>
    refine (reads_byte 0x43).bind ((reads_word 4 value.bits.toNat_lt).bind_nil ?_)
    rw [UInt32.ofNat_toNat]
    exact reads_pure _
  | f64 value =>
    refine (reads_byte 0x44).bind ((reads_word 8 value.bits.toNat_lt).bind_nil ?_)
    rw [UInt64.ofNat_toNat]
    exact reads_pure _

end Reader
end StructWasm.Wasm

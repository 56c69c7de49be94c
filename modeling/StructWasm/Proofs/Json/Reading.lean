import Mathlib
import StructWasm.Json.Text

/-!
# Reading what was written

A JSON value whose numbers are natural and whose strings have a text is read back from
the text that is written for it. The characters of a value give its tokens, whatever
follows, and the tokens complete the value, whatever containers are open.
-/

namespace StructWasm

open List Option Decimal Json Expectation Token

/-! ## Digits -/

namespace Decimal

theorem digitValue_digitChar (small : digit < 10) : digitValue (digitChar digit) = digit := by
  interval_cases digit <;> rfl

theorem ofDigits_digits (value : Nat) : ofDigits (digits value) = value := by
  induction value using digits.induct with
  | case1 value small =>
    rw [digits, if_pos small]
    simpa [ofDigits] using digitValue_digitChar small
  | case2 value large ih =>
    rw [digits, if_neg large, ofDigits, foldl_append]
    change 10 * ofDigits (digits (value / 10)) + digitValue (digitChar (value % 10)) = value
    rw [ih, digitValue_digitChar (Nat.mod_lt value (by decide))]
    omega

theorem isDigit_of_mem_digits (mem : char ∈ digits value) : char.isDigit = true := by
  have isDigit : ∀ digit < 10, (digitChar digit).isDigit = true := by decide
  induction value using digits.induct with
  | case1 value small =>
    rw [digits, if_pos small, mem_singleton] at mem
    exact mem ▸ isDigit value small
  | case2 value large ih =>
    rw [digits, if_neg large, mem_append, mem_singleton] at mem
    rcases mem with mem | rfl
    · exact ih mem
    · exact isDigit _ (Nat.mod_lt value (by decide))

theorem digits_ne_nil (value : Nat) : digits value ≠ [] := by
  rw [digits]
  split <;> simp

theorem head?_digits (positive : 0 < value) : (digits value).head? ≠ some '0' := by
  induction value using digits.induct with
  | case1 value small =>
    rw [digits, if_pos small]
    interval_cases value <;> decide
  | case2 value large ih =>
    rw [digits, if_neg large, head?_append_of_ne_nil _ (digits_ne_nil _)]
    exact ih (by omega)

theorem length_digits_le (small : value < 10 ^ (bound + 1)) :
    (digits value).length ≤ bound + 1 := by
  induction bound generalizing value with
  | zero =>
    rw [digits, if_pos (by simpa using small)]
    rfl
  | succ bound ih =>
    rw [digits]
    split
    · simp
    · rw [length_append, length_singleton]
      have := @ih (value / 10) (by
        rw [Nat.div_lt_iff_lt_mul (by decide)]
        exact small)
      omega

end Decimal

namespace Json

namespace Numeral

theorem natural?_ofNat (value : Nat) : (ofNat value).natural? = some value := by
  simp [natural?, ofNat, ofDigits_digits]

theorem chars_ofNat (value : Nat) : (ofNat value).chars = digits value := by
  simp [chars, ofNat]

theorem read_digits (value : Nat) : read (digits value) = some (ofNat value) := by
  have allDigits : ∀ char ∈ digits value, char.isDigit = true :=
    fun char mem => isDigit_of_mem_digits mem
  have unsigned : ∀ rest, digits value ≠ '-' :: rest := by
    intro rest same
    have := allDigits '-' (by simp [same])
    revert this
    decide
  have taken := takeWhile_eq_self_iff.mpr allDigits
  have left := dropWhile_eq_nil_iff.mpr allDigits
  have starts : (digits value).length = 1 ∨ (digits value).head? ≠ some '0' := by
    rcases Nat.eq_zero_or_pos value with rfl | positive
    · left
      rw [digits]
      rfl
    · exact .inr (head?_digits positive)
  unfold read
  split
  rename_i negative rest parted
  split at parted
  · rename_i others same
    exact absurd same (unsigned others)
  · obtain ⟨rfl, rfl⟩ := Prod.mk.inj parted
    simp [taken, left, digits_ne_nil, starts, readExponent, ofNat]

end Numeral

/-! ## Tokens -/

namespace Token

/-- What follows cannot belong to a word or numeral before it. -/
def Ends (rest : List Char) : Prop :=
  ∀ char ∈ rest.head?, isBare char = false

variable {rest : List Char}

theorem scanFrom_cons {mode next} (moves : step mode char = some (next, tokens))
    (rest : List Char) : scanFrom mode (char :: rest) = (scanFrom next rest).map (tokens ++ ·) := by
  rw [scanFrom, moves]
  cases later : scanFrom next rest <;> simp [later]

theorem scanFrom_silent {mode next} (moves : step mode char = some (next, [])) (rest : List Char) :
    scanFrom mode (char :: rest) = scanFrom next rest := by
  rw [scanFrom_cons moves]
  simp

theorem scanFrom_punctuation (moves : step .between char = some (.between, [token]))
    (scans : scanFrom .between rest = some tokens) :
    scanFrom .between (char :: rest) = some (token :: tokens) := by
  rw [scanFrom_cons moves, scans]
  rfl

/-! ### Words and numerals -/

theorem scanFrom_bare (reads : ofBare seen.reverse = some token) (ends : Ends rest)
    (scans : scanFrom .between rest = some tokens) :
    scanFrom (.bare seen) rest = some (token :: tokens) := by
  cases rest with
  | nil =>
    obtain rfl : [] = tokens := by simpa [scanFrom, finish] using scans
    simp [scanFrom, finish, reads]
  | cons char rest =>
    have notBare := ends char rfl
    rw [scanFrom] at scans ⊢
    simp only [step, notBare, Bool.false_eq_true, if_false, reads, Option.bind_eq_bind,
      Option.bind_some, Option.bind_eq_some_iff, Option.pure_def, Option.some.injEq] at scans ⊢
    obtain ⟨⟨mode, first⟩, moves, later, scans, same⟩ := scans
    exact ⟨(mode, token :: first), ⟨(mode, first), moves, rfl⟩, later, scans, by simp [← same]⟩

/-- The characters of a word or numeral give one token. -/
theorem scan_bare {chars} (nonempty : chars ≠ []) (allBare : ∀ char ∈ chars, isBare char = true)
    (reads : ofBare chars = some token) (ends : Ends rest)
    (scans : scanFrom .between rest = some tokens) :
    scanFrom .between (chars ++ rest) = some (token :: tokens) := by
  have more : ∀ (seen others : List Char), (∀ char ∈ others, isBare char = true) →
      scanFrom (.bare seen) (others ++ rest) = scanFrom (.bare (others.reverse ++ seen)) rest := by
    intro seen others
    induction others generalizing seen with
    | nil => exact fun _ => rfl
    | cons char others ih =>
      intro bare
      rw [forall_mem_cons] at bare
      have moves : step (.bare seen) char = some (.bare (char :: seen), []) := by
        simp [step, bare.1]
      rw [cons_append, scanFrom_silent moves, ih _ bare.2, reverse_cons, append_assoc]
      rfl
  cases chars with
  | nil => exact absurd rfl nonempty
  | cons char others =>
    rw [forall_mem_cons] at allBare
    have moves : step .between char = some (.bare [char], []) := by
      have bare := allBare.1
      have notBlank : isBlank char = false := by
        by_contra blank
        simp only [isBlank, Bool.not_eq_false, Bool.or_eq_true, beq_iff_eq] at blank
        rcases blank with ((rfl | rfl) | rfl) | rfl <;> revert bare <;> decide
      have notQuote : (char == '"') = false := by
        by_contra quoted
        simp only [Bool.not_eq_false, beq_iff_eq] at quoted
        subst quoted
        revert bare
        decide
      simp [step, start, notBlank, notQuote, bare]
    rw [cons_append, scanFrom_silent moves, more _ _ allBare.2]
    exact scanFrom_bare (by simpa using reads) ends scans

theorem ofBare_digits (value : Nat) : ofBare (digits value) = some (number (.ofNat value)) := by
  have notWord : ∀ letters : List Char, (∃ char ∈ letters, char.isDigit = false) →
      digits value ≠ letters := by
    rintro letters ⟨char, mem, isLetter⟩ rfl
    rw [isDigit_of_mem_digits mem] at isLetter
    cases isLetter
  rw [ofBare, if_neg (notWord _ ⟨'n', by decide⟩), if_neg (notWord _ ⟨'t', by decide⟩),
    if_neg (notWord _ ⟨'f', by decide⟩), Numeral.read_digits]
  rfl

/-! ### Strings -/

theorem hexValue?_hexChar (small : digit < 16) : hexValue? (hexChar digit) = some digit := by
  interval_cases digit <;> decide

/-- A character of a string is read as its code unit. -/
theorem scanFrom_escape (char : Char) (units : List Nat) (rest : List Char) :
    scanFrom (.quoted units) (escape char ++ rest) =
      scanFrom (.quoted (char.toNat :: units)) rest := by
  have short : ∀ {letter : Char} {unit : Nat}, letter ≠ 'u' → escapeUnit? letter = some unit →
      scanFrom (.quoted units) ('\\' :: letter :: rest) = scanFrom
        (.quoted (unit :: units)) rest := by
    intro letter unit notHex named
    have first : step (.quoted units) '\\' = some (.escaped units, []) := rfl
    have second : step (.escaped units) letter = some (.quoted (unit :: units), []) := by
      simp [step, notHex, named]
    rw [scanFrom_silent first, scanFrom_silent second]
  unfold escape
  iterate 7
    split
    · rename_i same
      subst same
      exact short (by decide) rfl
  rename_i notQuote notBackslash _ _ _ _ _
  split
  · rename_i control
    have high := hexValue?_hexChar (show char.toNat / 16 < 16 by omega)
    have low := hexValue?_hexChar (show char.toNat % 16 < 16 by omega)
    have first : step (.quoted units) '\\' = some (.escaped units, []) := rfl
    have second : step (.escaped units) 'u' = some (.hexadecimal units 0 0, []) := rfl
    have third : step (.hexadecimal units 0 0) '0' = some (.hexadecimal units 1 0, []) := rfl
    have fourth : step (.hexadecimal units 1 0) '0' = some (.hexadecimal units 2 0, []) := rfl
    have fifth : step (.hexadecimal units 2 0) (hexChar (char.toNat / 16)) =
        some (.hexadecimal units 3 (char.toNat / 16), []) := by
      simp [step, high]
    have sixth : step (.hexadecimal units 3 (char.toNat / 16)) (hexChar (char.toNat % 16)) =
        some (.quoted (char.toNat :: units), []) := by
      simp [step, low, Nat.div_add_mod]
    simp only [cons_append, nil_append]
    rw [scanFrom_silent first, scanFrom_silent second, scanFrom_silent third,
      scanFrom_silent fourth, scanFrom_silent fifth, scanFrom_silent sixth]
  · rename_i visible
    have moves : step (.quoted units) char = some (.quoted (char.toNat :: units), []) := by
      simp [step, notQuote, notBackslash, visible]
    rw [singleton_append, scanFrom_silent moves]

theorem unitChars_toNat (chars : List Char) : unitChars (chars.map Char.toNat) = some chars := by
  have whole : ∀ char : Char, isHighSurrogate char.toNat = false ∧
      isLowSurrogate char.toNat = false := by
    intro char
    have valid : char.toNat < 0xD800 ∨ 0xDFFF < char.toNat ∧ char.toNat < 0x110000 := char.valid
    simp only [isHighSurrogate, isLowSurrogate, Bool.and_eq_false_iff, decide_eq_false_iff_not]
    omega
  induction chars with
  | nil => rfl
  | cons char chars ih =>
    cases chars with
    | nil => simp [unitChars, whole]
    | cons next chars =>
      rw [map_cons, map_cons, unitChars]
      rw [map_cons] at ih
      simp [whole, ih]

/-- A quoted string gives one token. -/
theorem scan_quote (data : String) (scans : scanFrom .between rest = some tokens) :
    scanFrom .between (quote data ++ rest) = some (string (some data) :: tokens) := by
  have inside : ∀ (chars : List Char) (units : List Nat),
      scanFrom (.quoted units) (chars.flatMap escape ++ '"' :: rest) =
        scanFrom (.quoted ((chars.map Char.toNat).reverse ++ units)) ('"' :: rest) := by
    intro chars
    induction chars with
    | nil => exact fun _ => rfl
    | cons char chars ih =>
      intro units
      rw [flatMap_cons, append_assoc, scanFrom_escape, ih, map_cons, reverse_cons, append_assoc]
      rfl
  have opens : step .between '"' = some (.quoted [], []) := rfl
  have closes : ∀ units, step (.quoted units) '"' = some (.between, [string (unitText units)]) :=
    fun _ => rfl
  rw [quote, cons_append, cons_append, scanFrom_silent opens, append_assoc, singleton_append,
    inside, scanFrom_cons (closes _), scans, unitText, append_nil, reverse_reverse, unitChars_toNat]
  simp

end Token

/-! ## Values -/

/-- A value whose numbers are natural and whose strings have a text. -/
inductive Written : Json → Prop where
  | null : Written .null
  | bool (value : Bool) : Written (.bool value)
  | nat (value : Nat) : Written (.nat value)
  | text (content : String) : Written (.text content)
  | array {items : List Json} (written : ∀ item ∈ items, Written item) : Written (.array items)
  | record {members : List (String × Json)} (written : ∀ mem ∈ members, Written mem.2) :
      Written (.record members)

/-- The characters of a value give its tokens, and these complete the value. -/
structure Reads (value : Json) (first : Token) (others : List Token) : Prop where
  scans : ∀ {rest : List Char} {tokens : List Token}, Token.Ends rest →
    Token.scanFrom .between rest = some tokens →
    Token.scanFrom .between (value.chars ++ rest) = some (first :: others ++ tokens)
  opens : first ≠ .closeBracket
  builds : ∀ outer, (Expectation.startValue outer first).bind (others.foldlM Expectation.step) =
    some (Expectation.complete value outer)

namespace Reads

theorem ofBare (chars_eq : value.chars = letters) (nonempty : letters ≠ [])
    (allBare : ∀ char ∈ letters, isBare char = true) (reads : ofBare letters = some token)
    (opens : token ≠ .closeBracket) (builds : ∀ outer, startValue outer token =
      some (complete value outer)) :
    Reads value token [] where
  scans := fun ends scans => by
    rw [chars_eq]
    exact scan_bare nonempty allBare reads ends scans
  opens := opens
  builds := fun outer => by rw [builds]; rfl

theorem after_any (reads : Reads value first others) (outer : List Container) :
    (first :: others).foldlM step (.anyValue outer) = some (complete value outer) :=
  reads.builds outer

theorem after_first (reads : Reads value first others) (outer : List Container) :
    (first :: others).foldlM step (.firstItem outer) = some (.afterItem [value] outer) := by
  have starts : step (.firstItem outer) first = startValue (.array [] :: outer) first := by
    cases first with
    | closeBracket => exact absurd rfl reads.opens
    | _ => rfl
  rw [foldlM_cons, starts]
  exact reads.builds (.array [] :: outer)

end Reads

theorem ends_itemChars (items : List Json) (rest : List Char) :
    Token.Ends (itemChars items ++ rest) := by
  cases items <;> rintro char ⟨⟩ <;> rfl

theorem ends_memberChars (members : List (Option String × Json)) (rest : List Char) :
    Token.Ends (memberChars members ++ rest) := by
  cases members <;> rintro char ⟨⟩ <;> rfl

/-- The items of an array after the first. -/
theorem exists_tokens_itemChars
    (readable : ∀ item ∈ items, ∃ first others, Reads item first others) : ∃ between : List Token,
      (∀ {rest : List Char} {tokens : List Token}, Token.scanFrom .between rest = some tokens →
        Token.scanFrom .between (itemChars items ++ rest) = some (between ++ tokens)) ∧
      ∀ seen outer, between.foldlM Expectation.step (.afterItem seen outer) =
        some (Expectation.complete (.array (seen.reverse ++ items)) outer) := by
  induction items with
  | nil =>
    refine ⟨[.closeBracket], fun scans => Token.scanFrom_punctuation rfl scans, ?_⟩
    intro seen outer
    simp [Expectation.step]
  | cons item items ih =>
    rw [forall_mem_cons] at readable
    obtain ⟨first, others, reads⟩ := readable.1
    obtain ⟨between, scanned, built⟩ := ih readable.2
    refine ⟨.comma :: first :: others ++ between, ?_, ?_⟩
    · intro rest tokens scans
      rw [itemChars, cons_append, cons_append, append_assoc]
      have later := reads.scans (ends_itemChars items rest) (scanned scans)
      simpa using Token.scanFrom_punctuation rfl later
    · intro seen outer
      rw [cons_append, foldlM_cons]
      change ((first :: others) ++ between).foldlM Expectation.step
        (.anyValue (.array seen :: outer)) = _
      rw [foldlM_append, reads.after_any]
      exact (built (item :: seen) outer).trans (by simp)

/-- The members of an object after a key. -/
theorem exists_tokens_memberChars {members : List (String × Json)}
    (readable : ∀ mem ∈ members, ∃ first others, Reads mem.2 first others) : ∃ between : List Token,
      (∀ {rest : List Char} {tokens : List Token}, Token.scanFrom .between rest = some tokens →
        Token.scanFrom .between (memberChars (members.map fun mem => (some mem.1, mem.2)) ++ rest) =
            some (between ++ tokens)) ∧
      ∀ seen outer, between.foldlM Expectation.step (.afterMember seen outer) =
        some (Expectation.complete
          (.object (seen.reverse ++ members.map fun mem => (some mem.1, mem.2))) outer) := by
  induction members with
  | nil =>
    refine ⟨[.closeBrace], fun scans => Token.scanFrom_punctuation rfl scans, ?_⟩
    intro seen outer
    simp [Expectation.step]
  | cons mem members ih =>
    rw [forall_mem_cons] at readable
    obtain ⟨first, others, reads⟩ := readable.1
    obtain ⟨between, scanned, built⟩ := ih readable.2
    refine ⟨.comma :: .string (some mem.1) :: .colon :: first :: others ++ between, ?_, ?_⟩
    · intro rest tokens scans
      have later := reads.scans (ends_memberChars _ rest) (scanned scans)
      have colon : Token.step .between ':' = some (.between, [.colon]) := rfl
      have named := Token.scan_quote mem.1 (Token.scanFrom_punctuation colon later)
      simpa [memberChars, quoteText] using Token.scanFrom_punctuation rfl named
    · intro seen outer
      change ((first :: others) ++ between).foldlM Expectation.step
        (.anyValue (.object seen (some mem.1) :: outer)) = _
      rw [foldlM_append, reads.after_any]
      exact (built ((some mem.1, mem.2) :: seen) outer).trans (by simp)

/-- Every written value can be read. -/
theorem Written.reads {value : Json} (written : value.Written) :
    ∃ first others, Reads value first others := by
  induction written with
  | null =>
    have chars_eq : Json.null.chars = ['n', 'u', 'l', 'l'] := by rw [chars]
    exact ⟨_, _, .ofBare chars_eq (by simp) (by simp [Token.isBare]) rfl (by simp) fun _ => rfl⟩
  | bool value =>
    cases value with
    | true =>
      have chars_eq : (Json.bool true).chars = ['t', 'r', 'u', 'e'] := by rw [chars]
      exact ⟨_, _, .ofBare chars_eq (by simp) (by simp [Token.isBare]) rfl (by simp) fun _ => rfl⟩
    | false =>
      have chars_eq : (Json.bool false).chars = ['f', 'a', 'l', 's', 'e'] := by rw [chars]
      exact ⟨_, _, .ofBare chars_eq (by simp) (by simp [Token.isBare]) rfl (by simp) fun _ => rfl⟩
  | nat value =>
    have chars_eq : (Json.nat value).chars = Decimal.digits value := by
      rw [Json.nat, chars, Numeral.chars_ofNat]
    refine ⟨_, _, .ofBare chars_eq (Decimal.digits_ne_nil value) ?_ (Token.ofBare_digits value)
      (by simp) fun _ => rfl⟩
    intro char mem
    simp [Token.isBare, Char.isAlphanum, Decimal.isDigit_of_mem_digits mem]
  | text data =>
    exact ⟨.string (some data), [], fun _ scans => Token.scan_quote data scans, by simp,
      fun _ => rfl⟩
  | @array items _ ih =>
    cases items with
    | nil =>
      refine ⟨.openBracket, [.closeBracket], ?_, by simp, fun _ => rfl⟩
      intro rest tokens _ scans
      exact Token.scanFrom_punctuation rfl (Token.scanFrom_punctuation rfl scans)
    | cons item items =>
      rw [forall_mem_cons] at ih
      obtain ⟨first, others, reads⟩ := ih.1
      obtain ⟨between, scanned, built⟩ := exists_tokens_itemChars ih.2
      refine ⟨.openBracket, first :: others ++ between, ?_, by simp, ?_⟩
      · intro rest tokens _ scans
        have later := reads.scans (ends_itemChars items rest) (scanned scans)
        simpa [chars] using Token.scanFrom_punctuation rfl later
      · intro outer
        change ((first :: others) ++ between).foldlM Expectation.step (.firstItem outer) = _
        rw [foldlM_append, reads.after_first]
        exact built [item] outer
  | @record members _ ih =>
    cases members with
    | nil =>
      refine ⟨.openBrace, [.closeBrace], ?_, by simp, fun _ => rfl⟩
      intro rest tokens _ scans
      exact Token.scanFrom_punctuation rfl (Token.scanFrom_punctuation rfl scans)
    | cons mem members =>
      rw [forall_mem_cons] at ih
      obtain ⟨first, others, reads⟩ := ih.1
      obtain ⟨between, scanned, built⟩ := exists_tokens_memberChars ih.2
      refine ⟨.openBrace, .string (some mem.1) :: .colon :: first :: others ++ between, ?_,
        by simp, ?_⟩
      · intro rest tokens _ scans
        have later := reads.scans (ends_memberChars _ rest) (scanned scans)
        have colon : Token.step .between ':' = some (.between, [.colon]) := rfl
        have named := Token.scan_quote mem.1 (Token.scanFrom_punctuation colon later)
        have brace : Token.step .between '\x7b' = some (.between, [.openBrace]) := rfl
        simpa [Json.record, chars, quoteText] using Token.scanFrom_punctuation brace named
      · intro outer
        change ((first :: others) ++ between).foldlM Expectation.step
          (.anyValue (.object [] (some mem.1) :: outer)) = _
        rw [foldlM_append, reads.after_any]
        exact built [(some mem.1, mem.2)] outer

theorem Written.parse_render (written : value.Written) : parse value.render = some value := by
  obtain ⟨first, others, reads⟩ := written.reads
  have ends : Token.Ends [] := by simp [Token.Ends]
  have scans := reads.scans ends (show scanFrom .between [] = some [] from rfl)
  rw [append_nil, append_nil] at scans
  have built := reads.after_any []
  rw [parse, render, String.toList_ofList, scan, scans, bind_eq_bind, bind_some, ofTokens, built]
  rfl

end Json
end StructWasm

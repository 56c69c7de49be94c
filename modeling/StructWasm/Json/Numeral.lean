import StructWasm.Decimal

/-!
# JSON numerals

A numeral has an optional minus sign, digits without a needless leading zero,
an optional fraction and an optional power of ten. It is kept as written: a
natural number is a numeral with neither sign, fraction nor power.
-/

namespace StructWasm.Json

/-- A number as written. -/
structure Numeral where
  negative : Bool
  whole : List Char
  fraction : List Char
  exponent : Option Int
  deriving DecidableEq, Repr

namespace Numeral

def ofNat (value : Nat) : Numeral :=
  { negative := false
    whole := Decimal.digits value
    fraction := []
    exponent := none }

/-- The natural number that a numeral writes, if it is written as one. -/
def natural? (numeral : Numeral) : Option Nat :=
  if numeral.negative || !numeral.fraction.isEmpty || numeral.exponent.isSome then
    none
  else
    some (Decimal.ofDigits numeral.whole)

def readExponent : List Char → Option (Option Int)
  | [] => some none
  | mark :: rest =>
    if mark == 'e' || mark == 'E' then
      let (negative, digits) :=
        match rest with
        | '-' :: digits => (true, digits)
        | '+' :: digits => (false, digits)
        | digits => (false, digits)
      if digits.isEmpty || !digits.all Char.isDigit then
        none
      else
        let magnitude : Int := Decimal.ofDigits digits
        some (some (if negative then -magnitude else magnitude))
    else
      none

def read (chars : List Char) : Option Numeral := do
  let (negative, rest) :=
    match chars with
    | '-' :: rest => (true, rest)
    | rest => (false, rest)
  let whole := rest.takeWhile Char.isDigit
  let rest := rest.dropWhile Char.isDigit
  guard (!whole.isEmpty && (whole.length == 1 || whole.head? != some '0'))
  match rest with
  | '.' :: rest =>
    let fraction := rest.takeWhile Char.isDigit
    guard (!fraction.isEmpty)
    let exponent ← readExponent (rest.dropWhile Char.isDigit)
    return { negative, whole, fraction, exponent }
  | rest =>
    let exponent ← readExponent rest
    return { negative, whole, fraction := [], exponent }

def chars (numeral : Numeral) : List Char :=
  let sign := if numeral.negative then ['-'] else []
  let fraction := if numeral.fraction.isEmpty then [] else '.' :: numeral.fraction
  let exponent :=
    match numeral.exponent with
    | none => []
    | some power => 'e' :: (Decimal.intText power).toList
  sign ++ numeral.whole ++ fraction ++ exponent

/-- Whether the number is below the least one that rounds to an infinite 64-bit
float. The sizes are compared first, so that no huge power is formed. -/
def isFinite (numeral : Numeral) : Bool :=
  let digits := (numeral.whole ++ numeral.fraction).dropWhile (· == '0')
  let scale := numeral.exponent.getD 0 - numeral.fraction.length
  let magnitude := (digits.length : Int) + scale
  if digits.isEmpty || magnitude < 300 then
    true
  else if 310 < magnitude then
    false
  else
    Decimal.ofDigits digits * Nat.pow 10 scale.toNat <
      (1 <<< 1024 - 1 <<< 970) * Nat.pow 10 (-scale).toNat

end Numeral
end StructWasm.Json

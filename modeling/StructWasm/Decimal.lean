/-!
# Decimal text

Natural numbers and integers as decimal digits, most significant first and
without leading zeros, and the reading of such digits.
-/

namespace StructWasm.Decimal

def digitChar (digit : Nat) : Char :=
  Char.ofNat ('0'.toNat + digit)

def digitValue (char : Char) : Nat :=
  char.toNat - '0'.toNat

def digits (value : Nat) : List Char :=
  if value < 10 then
    [digitChar value]
  else
    digits (value / 10) ++ [digitChar (value % 10)]

def ofDigits (chars : List Char) : Nat :=
  chars.foldl (fun value char => 10 * value + digitValue char) 0

def natText (value : Nat) : String :=
  String.ofList (digits value)

def intText (value : Int) : String :=
  if value < 0 then
    String.ofList ('-' :: digits value.natAbs)
  else
    natText value.natAbs

end StructWasm.Decimal

import StructWasm.Json.Numeral

/-!
# JSON tokens

The characters of a JSON text are turned into tokens by a machine that reads one
character at a time. A string whose escapes name one half of a surrogate pair
without the other is still a token, but has no text.
-/

namespace StructWasm.Json

/-- A lexical element of a JSON text. -/
inductive Token where
  | openBrace
  | closeBrace
  | openBracket
  | closeBracket
  | comma
  | colon
  | null
  | bool (value : Bool)
  | number (value : Numeral)
  | string (text : Option String)
  deriving DecidableEq, Repr

namespace Token

def isHighSurrogate (unit : Nat) : Bool :=
  0xD800 ≤ unit && unit < 0xDC00

def isLowSurrogate (unit : Nat) : Bool :=
  0xDC00 ≤ unit && unit < 0xE000

/-- The characters that code units stand for, unless a surrogate stands alone. -/
def unitChars : List Nat → Option (List Char)
  | [] => some []
  | [unit] =>
    if isHighSurrogate unit || isLowSurrogate unit then
      none
    else
      some [Char.ofNat unit]
  | unit :: next :: rest =>
    if isHighSurrogate unit then
      if isLowSurrogate next then
        (unitChars rest).map
          (Char.ofNat (0x10000 + (unit - 0xD800) * 0x400 + (next - 0xDC00)) :: ·)
      else
        none
    else if isLowSurrogate unit then
      none
    else
      (unitChars (next :: rest)).map (Char.ofNat unit :: ·)

def unitText (reversed : List Nat) : Option String :=
  (unitChars reversed.reverse).map String.ofList

/-- What the machine is in the middle of. -/
inductive Mode where
  | between
  | quoted (units : List Nat)
  | escaped (units : List Nat)
  | hexadecimal (units : List Nat) (count value : Nat)
  | bare (chars : List Char)
  deriving DecidableEq, Repr

def isBlank (char : Char) : Bool :=
  char == ' ' || char == '\t' || char == '\n' || char == '\r'

def isBare (char : Char) : Bool :=
  char.isAlphanum || char == '+' || char == '-' || char == '.'

def punctuation? : Char → Option Token
  | '\x7b' => some openBrace
  | '\x7d' => some closeBrace
  | '[' => some openBracket
  | ']' => some closeBracket
  | ',' => some comma
  | ':' => some colon
  | _ => none

def ofBare (chars : List Char) : Option Token :=
  if chars = ['n', 'u', 'l', 'l'] then
    some null
  else if chars = ['t', 'r', 'u', 'e'] then
    some (bool true)
  else if chars = ['f', 'a', 'l', 's', 'e'] then
    some (bool false)
  else
    (Numeral.read chars).map number

def escapeUnit? : Char → Option Nat
  | '"' => some 0x22
  | '\\' => some 0x5C
  | '/' => some 0x2F
  | 'b' => some 0x08
  | 'f' => some 0x0C
  | 'n' => some 0x0A
  | 'r' => some 0x0D
  | 't' => some 0x09
  | _ => none

def hexValue? (char : Char) : Option Nat :=
  if '0' ≤ char ∧ char ≤ '9' then
    some (char.toNat - 48)
  else if 'a' ≤ char ∧ char ≤ 'f' then
    some (char.toNat - 87)
  else if 'A' ≤ char ∧ char ≤ 'F' then
    some (char.toNat - 55)
  else
    none

def start (char : Char) : Option (Mode × List Token) :=
  if isBlank char then
    some (.between, [])
  else if char == '"' then
    some (.quoted [], [])
  else if isBare char then
    some (.bare [char], [])
  else
    (punctuation? char).map fun token => (.between, [token])

/-- Read one character: the next mode and the tokens that it completes. -/
def step : Mode → Char → Option (Mode × List Token)
  | .between, char => start char
  | .quoted units, char =>
    if char == '"' then
      some (.between, [string (unitText units)])
    else if char == '\\' then
      some (.escaped units, [])
    else if char.toNat < 0x20 then
      none
    else
      some (.quoted (char.toNat :: units), [])
  | .escaped units, char =>
    if char == 'u' then
      some (.hexadecimal units 0 0, [])
    else
      (escapeUnit? char).map fun unit => (.quoted (unit :: units), [])
  | .hexadecimal units count value, char =>
    (hexValue? char).map fun digit =>
      if count = 3 then
        (.quoted ((16 * value + digit) :: units), [])
      else
        (.hexadecimal units (count + 1) (16 * value + digit), [])
  | .bare chars, char =>
    if isBare char then
      some (.bare (char :: chars), [])
    else do
      let token ← ofBare chars.reverse
      let (mode, tokens) ← start char
      return (mode, token :: tokens)

def finish : Mode → Option (List Token)
  | .between => some []
  | .bare chars => (ofBare chars.reverse).map ([·])
  | _ => none

def scanFrom (mode : Mode) : List Char → Option (List Token)
  | [] => finish mode
  | char :: rest => do
      let (next, tokens) ← step mode char
      let later ← scanFrom next rest
      return tokens ++ later

def scan (chars : List Char) : Option (List Token) :=
  scanFrom .between chars

end Token
end StructWasm.Json

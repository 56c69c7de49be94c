import StructWasm.Json.Value

/-!
# JSON text

Values are written without blanks. In strings the quote, the backslash and the
control characters are escaped, the common ones by a letter and the others by
four hexadecimal digits; every other character stands for itself.
-/

namespace StructWasm.Json

def hexChar (digit : Nat) : Char :=
  if digit < 10 then
    Char.ofNat (48 + digit)
  else
    Char.ofNat (87 + digit)

def escape (char : Char) : List Char :=
  if char = '"' then
    ['\\', '"']
  else if char = '\\' then
    ['\\', '\\']
  else if char = '\x08' then
    ['\\', 'b']
  else if char = '\x0c' then
    ['\\', 'f']
  else if char = '\n' then
    ['\\', 'n']
  else if char = '\r' then
    ['\\', 'r']
  else if char = '\t' then
    ['\\', 't']
  else if char.toNat < 0x20 then
    ['\\', 'u', '0', '0', hexChar (char.toNat / 16), hexChar (char.toNat % 16)]
  else
    [char]

def quote (content : String) : List Char :=
  '"' :: content.toList.flatMap escape ++ ['"']

def quoteText (content : Option String) : List Char :=
  quote (content.getD "")

mutual
def chars : Json → List Char
  | .null => ['n', 'u', 'l', 'l']
  | .bool true => ['t', 'r', 'u', 'e']
  | .bool false => ['f', 'a', 'l', 's', 'e']
  | .number value => value.chars
  | .string content => quoteText content
  | .array [] => ['[', ']']
  | .array (first :: rest) => '[' :: first.chars ++ itemChars rest
  | .object [] => ['\x7b', '\x7d']
  | .object ((key, value) :: rest) =>
    '\x7b' :: quoteText key ++ ':' :: value.chars ++ memberChars rest

/-- Characters of the items after the first, and of the end of the array. -/
def itemChars : List Json → List Char
  | [] => [']']
  | item :: rest => ',' :: item.chars ++ itemChars rest

/-- Characters of the members after the first, and of the end of the object. -/
def memberChars : List (Option String × Json) → List Char
  | [] => ['\x7d']
  | (key, value) :: rest =>
    ',' :: quoteText key ++ ':' :: value.chars ++ memberChars rest
end

def render (value : Json) : String :=
  String.ofList value.chars

end StructWasm.Json

import StructWasm.Json.Token

/-!
# JSON values

A value is read from tokens by a machine whose state holds the containers that
are still open. Objects keep their members in the order in which they are
written, repeated keys included, because the readers of records decide what a
repeated key means.
-/

namespace StructWasm

/-- A JSON value. Strings and keys without text hold unpaired surrogates. -/
inductive Json where
  | null
  | bool (value : Bool)
  | number (value : Json.Numeral)
  | string (text : Option String)
  | array (items : List Json)
  | object (members : List (Option String × Json))

namespace Json

def text (content : String) : Json :=
  .string (some content)

def nat (value : Nat) : Json :=
  .number (Numeral.ofNat value)

def record (members : List (String × Json)) : Json :=
  .object (members.map fun (key, value) => (some key, value))

/-- A container whose end has not been read. Its parts are in reverse. -/
inductive Container where
  | array (items : List Json)
  | object (members : List (Option String × Json)) (key : Option String)

/-- What may follow at a point of the token sequence, under the open
containers. -/
inductive Expectation where
  | anyValue (outer : List Container)
  | firstItem (outer : List Container)
  | afterItem (items : List Json) (outer : List Container)
  | firstKey (outer : List Container)
  | nextKey (members : List (Option String × Json)) (outer : List Container)
  | colon
      (members : List (Option String × Json))
      (key : Option String)
      (outer : List Container)
  | afterMember
      (members : List (Option String × Json))
      (outer : List Container)
  | nothing (result : Json)

namespace Expectation

def complete (value : Json) : List Container → Expectation
  | [] => .nothing value
  | .array items :: outer => .afterItem (value :: items) outer
  | .object members key :: outer => .afterMember ((key, value) :: members) outer

def startValue (outer : List Container) : Token → Option Expectation
  | .null => some (complete .null outer)
  | .bool value => some (complete (.bool value) outer)
  | .number value => some (complete (.number value) outer)
  | .string text => some (complete (.string text) outer)
  | .openBracket => some (.firstItem outer)
  | .openBrace => some (.firstKey outer)
  | _ => none

def step : Expectation → Token → Option Expectation
  | .anyValue outer, token => startValue outer token
  | .firstItem outer, .closeBracket => some (complete (.array []) outer)
  | .firstItem outer, token => startValue (.array [] :: outer) token
  | .afterItem items outer, .comma => some (.anyValue (.array items :: outer))
  | .afterItem items outer, .closeBracket =>
    some (complete (.array items.reverse) outer)
  | .firstKey outer, .closeBrace => some (complete (.object []) outer)
  | .firstKey outer, .string key => some (.colon [] key outer)
  | .nextKey members outer, .string key => some (.colon members key outer)
  | .colon members key outer, .colon =>
    some (.anyValue (.object members key :: outer))
  | .afterMember members outer, .comma => some (.nextKey members outer)
  | .afterMember members outer, .closeBrace =>
    some (complete (.object members.reverse) outer)
  | _, _ => none

end Expectation

/-- The value that a sequence of tokens writes, if it writes exactly one. -/
def ofTokens (tokens : List Token) : Option Json := do
  match ← tokens.foldlM Expectation.step (.anyValue []) with
  | .nothing result => some result
  | _ => none

def parse (source : String) : Option Json := do
  let tokens ← Token.scan source.toList
  ofTokens tokens

mutual
/-- How many arrays and objects enclose the innermost part of a value, the value
itself included. -/
def depth : Json → Nat
  | .array items => itemsDepth items + 1
  | .object members => membersDepth members + 1
  | _ => 0

def itemsDepth : List Json → Nat
  | [] => 0
  | item :: rest => max item.depth (itemsDepth rest)

def membersDepth : List (Option String × Json) → Nat
  | [] => 0
  | (_, value) :: rest => max value.depth (membersDepth rest)
end

mutual
/-- Whether every string of a value has a text and every number is finite. -/
def isPlain : Json → Bool
  | .number value => value.isFinite
  | .string text => text.isSome
  | .array items => itemsPlain items
  | .object members => membersPlain members
  | _ => true

def itemsPlain : List Json → Bool
  | [] => true
  | item :: rest => item.isPlain && itemsPlain rest

def membersPlain : List (Option String × Json) → Bool
  | [] => true
  | (key, value) :: rest => key.isSome && value.isPlain && membersPlain rest
end

end Json
end StructWasm

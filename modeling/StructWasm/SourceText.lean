import StructWasm.Span

/-!
# Source texts

A named text that can be cut into lines and into the byte ranges of spans.
-/

namespace StructWasm

/-- A named source text. -/
structure SourceText where
  name : String
  content : String
  deriving DecidableEq, Repr

namespace SourceText

/-- Cut characters at every line feed. The part after the last one is a line,
also when it is empty. -/
def splitLines : List Char → List (List Char)
  | [] => [[]]
  | char :: rest =>
    if char = '\n' then
      [] :: splitLines rest
    else
      match splitLines rest with
      | [] => [[char]]
      | line :: lines => (char :: line) :: lines

def dropReturns (line : List Char) : List Char :=
  (line.reverse.dropWhile (· == '\r')).reverse

def lines (source : SourceText) : List String :=
  (splitLines source.content.toList).map fun line => String.ofList (dropReturns line)

def lineCount (source : SourceText) : Nat :=
  source.lines.length

def line? (source : SourceText) : Nat → Option String
  | 0 => none
  | index + 1 => source.lines[index]?

/-- The characters after exactly `count` bytes, if a character ends there. -/
def dropBytes : Nat → List Char → Option (List Char)
  | 0, chars => some chars
  | _ + 1, [] => none
  | count + 1, char :: rest =>
    if char.utf8Size ≤ count + 1 then
      dropBytes (count + 1 - char.utf8Size) rest
    else
      none

/-- The first characters that fill exactly `count` bytes, if there are such. -/
def takeBytes : Nat → List Char → Option (List Char)
  | 0, _ => some []
  | _ + 1, [] => none
  | count + 1, char :: rest =>
    if char.utf8Size ≤ count + 1 then
      (takeBytes (count + 1 - char.utf8Size) rest).map (char :: ·)
    else
      none

/-- The text in the byte range of a span, if the range lies within the text and
cuts no character. -/
def snippet? (source : SourceText) (span : Span) : Option String :=
  let first := span.startByte.toNat
  let last := span.endByte.toNat
  if first ≤ last then do
    let rest ← dropBytes first source.content.toList
    let chars ← takeBytes (last - first) rest
    return String.ofList chars
  else
    none

end SourceText
end StructWasm

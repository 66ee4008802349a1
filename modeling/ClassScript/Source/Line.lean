import ClassScript.Source.Position
import ClassScript.Text.Bytes

/-!
# Lines of a source text

A line ends with its line feed, which belongs to it; the last line may have
none. `lineAt?` finds the line of a byte offset; the offset at the very end of
the text belongs to the last line.
-/

namespace ClassScript.Source

/-- The lines of a text. -/
def lines : List Char → List (List Char)
  | [] => []
  | c :: cs =>
    if c = '\n' then [c] :: lines cs
    else
      match lines cs with
      | [] => [[c]]
      | line :: rest => (c :: line) :: rest

/-- A line of a text, with its number, and a place in it, in bytes from its
beginning. -/
structure LinePlace where
  number : Nat
  text : List Char
  byteIndex : Nat
deriving DecidableEq

/-- The place at `offset` in the first of the given lines that reaches beyond it.
The first line has the given number and starts at `start`. -/
def placeIn? (offset number start : Nat) : List (List Char) → Option LinePlace
  | [] => none
  | line :: rest =>
    let stop := start + Text.byteLength line
    if start ≤ offset ∧ offset < stop then some ⟨number, line, offset - start⟩
    else placeIn? offset (number + 1) stop rest

/-- The place at the end of a text. -/
def endPlace (source : List Char) : LinePlace :=
  let all := lines source
  let last := all.getLastD []
  ⟨max 1 all.length, last, Text.byteLength last⟩

/-- The line of a byte offset, and the place in it. -/
def lineAt? (source : List Char) (offset : Nat) : Option LinePlace :=
  match placeIn? offset 1 0 (lines source) with
  | some place => some place
  | none => if offset = Text.byteLength source then some (endPlace source) else none

/-- The position of a byte offset; `none` if it is not between characters. -/
def positionAt? (source : List Char) (offset : Nat) : Option Position := do
  let place ← lineAt? source offset
  let (before, _) ← Text.splitAtByte? place.byteIndex place.text
  return ⟨place.number, before.length + 1, offset⟩

end ClassScript.Source

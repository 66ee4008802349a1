import ClassScript.CompileError
import ClassScript.Source.Line
import ClassScript.Text.Blank

/-!
# Reports with a line of source text

A report names what is wrong and where, shows the line in question without its
leading blanks, and draws an arrow under the place.
-/

namespace ClassScript.Source

/-- Is `c` a blank or a tab, which are cut from the front of a shown line? -/
def isIndent (c : Char) : Bool :=
  c == ' ' || c == '\t'

/-- A bar behind the column of line numbers, which is `width` wide. -/
def gutterBar (width : Nat) : String :=
  String.ofList (List.replicate (width + 1) ' ') ++ "|"

/-- The line of a place, with an arrow under it. The arrow is measured in bytes
from the first character shown. -/
def placeText (place : LinePlace) : String :=
  let number := toString place.number
  let indent := (place.text.takeWhile isIndent).length
  let shown := Text.trimEnd (place.text.dropWhile isIndent)
  let reach := place.byteIndex - indent
  gutterBar number.length ++ "\n"
    ++ number ++ " | " ++ String.ofList shown ++ "\n"
    ++ gutterBar number.length ++ " " ++ String.ofList (List.replicate reach '-') ++ "^\n"

/-- A report on a position in the text of a file. Without such a position in the
text, the report has no line. -/
def snippet (label headline : String) (hint : Option String) (position : Position)
    (source fileName : String) : String :=
  let remark :=
    match hint with
    | some text => " (" ++ text ++ ")"
    | none => ""
  label ++ ": " ++ headline ++ remark ++ "\n"
    ++ "-> " ++ fileName ++ ":" ++ position.display ++ "\n"
    ++ match lineAt? source.toList position.offset with
      | some place => placeText place
      | none => ""

end ClassScript.Source

namespace ClassScript

/-- The report on an error. -/
def CompileError.render (e : CompileError) (source fileName : String) : String :=
  Source.snippet "Error" e.cause.name e.cause.hint? e.position source fileName

end ClassScript

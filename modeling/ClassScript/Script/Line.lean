/-!
# Lines of a script

Emitted code is a list of lines, each at a level of indentation. How wide a
level is, is decided only when the lines are written out.
-/

namespace ClassScript.Script

/-- A line of emitted code. -/
inductive Line where
  /-- A line without text, which is not indented. -/
  | blank
  | code (level : Nat) (text : String)
deriving DecidableEq

/-- A run of blanks. -/
def blanks (n : Nat) : String :=
  String.ofList (List.replicate n ' ')

/-- The text of a line, with `width` blanks a level. -/
def Line.render (width : Nat) : Line → String
  | .blank => "\n"
  | .code level text => blanks (level * width) ++ text ++ "\n"

/-- The text of lines, one after another. -/
def renderLines (width : Nat) : List Line → String
  | [] => ""
  | line :: lines => line.render width ++ renderLines width lines

theorem renderLines_append (width : Nat) (as bs : List Line) :
    renderLines width (as ++ bs) = renderLines width as ++ renderLines width bs := by
  induction as with
  | nil => simp [renderLines]
  | cons a as ih => simp [renderLines, ih, String.append_assoc]

/-- Sections with a blank line between any two of them. -/
def separated : List (List Line) → List Line
  | [] => []
  | [lines] => lines
  | lines :: sections => lines ++ .blank :: separated sections

/-- Texts with a comma and a blank between any two of them. -/
def commaJoined : List String → String
  | [] => ""
  | [text] => text
  | text :: texts => text ++ ", " ++ commaJoined texts

/-- A text in parentheses if `wrap`. -/
def parenthesized (wrap : Bool) (text : String) : String :=
  if wrap then "(" ++ text ++ ")" else text

end ClassScript.Script

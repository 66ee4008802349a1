/-!
# Escapes in string and char literals

The characters a literal stands for. A backslash followed by `n`, `t`, `r`,
another backslash or a quote stands for one character; before any other
character it stands for itself.

The quotes are taken off by the byte. A literal whose first or last character
has more than one byte has no text between its quotes: no token of a source
text is such a literal, but a token made by hand can be.
-/

namespace ClassScript.Escape

/-- The character that a backslash and `c` stand for together. -/
def decode? : Char → Option Char
  | 'n' => some '\n'
  | 't' => some '\t'
  | 'r' => some '\r'
  | '\\' => some '\\'
  | '"' => some '"'
  | '\'' => some '\''
  | _ => none

/-- Replaces the escapes in the text between the quotes of a literal. -/
def decodeAll : List Char → List Char
  | [] => []
  | '\\' :: c :: rest =>
    match decode? c with
    | some d => d :: decodeAll rest
    | none => '\\' :: decodeAll (c :: rest)
  | c :: rest => c :: decodeAll rest

/-- Is a character of one byte, as every quote is, or no character at all at each end? -/
def hasByteEnds (literal : List Char) : Bool :=
  literal.head?.all (·.utf8Size == 1) && literal.getLast?.all (·.utf8Size == 1)

/-- The text between the first and the last byte, unless one of them is a part of a character. -/
def unquote? (literal : List Char) : Option (List Char) :=
  if hasByteEnds literal then some literal.tail.dropLast else none

/-- The characters that a literal, given with its quotes, stands for. -/
def literalValue? (literal : String) : Option String :=
  (unquote? literal.toList).map fun inner => String.ofList (decodeAll inner)

end ClassScript.Escape

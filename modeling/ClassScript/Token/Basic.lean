import ClassScript.Source.Position
import ClassScript.Token.Kind

/-!
# Tokens

A token keeps the exact source text it was read from, so literals still carry
their quotes and escapes, and the span where that text stands.
-/

namespace ClassScript

/-- A token of a source text. -/
structure Token where
  kind : Kind
  text : String
  span : Span
deriving DecidableEq, Inhabited

namespace Token

/-- The token that ends every token list, at the point after the text. -/
def endOfInput (p : Position) : Token :=
  ⟨.eof, "EOF", ⟨p, p⟩⟩

/-- The words for a token in a message: its text, except that the end of the
input has none. -/
def display (t : Token) : String :=
  if t.kind = .eof then "end of input" else t.text

/-- The line of a token listing for this token. The text is shown for the kinds
that do not determine it. -/
def listing (t : Token) : String :=
  let place := t.span.start.display ++ " " ++ t.kind.name
  if t.kind = .eof then place
  else if t.kind.spelling?.isSome then place
  else place ++ " (" ++ t.text ++ ")"

end Token

end ClassScript

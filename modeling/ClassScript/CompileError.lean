import ClassScript.Text.Visible
import ClassScript.Token.Basic

/-!
# Compile errors

Compilation stops at the first error. An error is a `Cause`, the position it is
reported at and, for a syntax error, the token found there. The wording of the
message and of the hint that goes with it is a function of the cause alone.

One cause is no error of the source text and is not reported: reading a literal
token whose quotes cannot be taken off breaks off without an answer.
-/

namespace ClassScript

namespace CompileError

/-- Why a source text is rejected. -/
inductive Cause where
  /-- A literal opened with `quote` is not closed. -/
  | unterminatedLiteral (quote : Char)
  /-- A closed char literal holds no character or more than one. -/
  | invalidCharLiteral (literal : String)
  /-- The grammar asks for something else than the token found. -/
  | unexpectedToken (found expected : String)
  /-- The token found is not possible here, for the reason given. -/
  | unexpectedTokenDetailed (found reason : String)
  /-- The text of a number token is not a number. -/
  | malformedNumber (text : String)
  /-- The path of a host call is not a string literal. -/
  | hostCallPathNotString (found : String)
  /-- A host property assignment has not three arguments. -/
  | hostSetArity (received : Nat)
  /-- The source nests deeper than `limit` levels. -/
  | nestingTooDeep (limit : Nat)
  /-- The quotes of a literal token cannot be taken off. -/
  | brokenLiteral (text : String)
deriving DecidableEq

namespace Cause

/-- Is this an error of the source text, which is reported? -/
def isReported : Cause → Bool
  | .brokenLiteral _ => false
  | _ => true

/-- The name under which a cause is reported. -/
def name : Cause → String
  | .unterminatedLiteral _ => "UnterminatedLiteral"
  | .invalidCharLiteral _ => "InvalidCharLiteral"
  | .unexpectedToken _ _ => "UnexpectedToken"
  | .unexpectedTokenDetailed _ _ => "UnexpectedTokenDetailed"
  | .malformedNumber _ => "NumberParseError"
  | .hostCallPathNotString _ => "HostCallPathNotString"
  | .hostSetArity _ => "HostSetArity"
  | .nestingTooDeep _ => "NestingTooDeep"
  | .brokenLiteral _ => "BrokenLiteral"

/-- The message for a cause. -/
def message : Cause → String
  | .unterminatedLiteral quote => "unterminated literal starting with " ++ quote.toString
  | .invalidCharLiteral literal => "invalid char literal " ++ literal
  | .unexpectedToken found expected =>
    "unexpected token " ++ Text.visible found ++ ", expected " ++ expected
  | .unexpectedTokenDetailed found reason =>
    "unexpected token (" ++ reason ++ "): " ++ Text.visible found
  | .malformedNumber text => "error parsing number: " ++ Text.visible text
  | .hostCallPathNotString found =>
    "JS.Call expects a string literal path, found " ++ Text.visible found
  | .hostSetArity received => "JS.Set expects 3 arguments, received " ++ toString received
  | .nestingTooDeep limit => "nesting exceeds the limit of " ++ toString limit ++ " levels"
  | .brokenLiteral text => "broken literal: " ++ Text.visible text

/-- What to do about a cause, where there is something to say. -/
def hint? : Cause → Option String
  | .unterminatedLiteral quote => "Literal opened with `" ++ quote.toString ++ "` is never closed"
  | .invalidCharLiteral literal =>
    "`" ++ literal ++ "` must hold exactly one character or escape; use a string literal instead"
  | .unexpectedToken found expected => "expected " ++ expected ++ ", found `" ++ found ++ "`"
  | .unexpectedTokenDetailed found reason =>
    "Unexpected token: `" ++ found ++ "`, " ++ reason
  | .malformedNumber text => "Invalid number: `" ++ text ++ "`"
  | .hostCallPathNotString _ =>
    "The first argument of JS.Call must be a string literal naming the function"
  | .hostSetArity _ => "JS.Set takes exactly three arguments: target, property and value"
  | .nestingTooDeep _ | .brokenLiteral _ => none

end Cause

end CompileError

/-- An error that stops compilation. -/
structure CompileError where
  cause : CompileError.Cause
  position : Position
  token : Option Token
deriving DecidableEq

namespace CompileError

/-- An error at a point of the text. -/
def atPosition (cause : Cause) (position : Position) : CompileError :=
  ⟨cause, position, none⟩

/-- An error at the start of `token`, which it carries. -/
def atToken (cause : Cause) (token : Token) : CompileError :=
  ⟨cause, token.span.start, some token⟩

/-- The message and the place of an error. -/
def display (e : CompileError) : String :=
  e.cause.message ++ " at " ++ e.position.display

end CompileError

end ClassScript

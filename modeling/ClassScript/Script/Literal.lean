import ClassScript.Number.Layout
import ClassScript.Tree.Expr

/-!
# Literals of a script

Strings are written between double quotes. Control characters and the two
characters that end a line besides the line feed are written by their code
points, so a written string is always one line.
-/

namespace ClassScript.Script

/-- Is `c` a control character? -/
def isControl (c : Char) : Bool :=
  c.toNat < 0x20 || (0x7F ≤ c.toNat && c.toNat < 0xA0)

/-- A character by its code point, in four hexadecimal digits. -/
def unicodeEscape (c : Char) : List Char :=
  let digits := Nat.toDigits 16 c.toNat
  ['\\', 'u'] ++ List.replicate (4 - digits.length) '0' ++ digits

/-- One character of a written string. -/
def quotedChar (c : Char) : List Char :=
  if c = '"' then ['\\', '"']
  else if c = '\\' then ['\\', '\\']
  else if c = '\n' then ['\\', 'n']
  else if c = '\r' then ['\\', 'r']
  else if c = '\t' then ['\\', 't']
  else if c.toNat = 0x2028 ∨ c.toNat = 0x2029 ∨ isControl c then unicodeEscape c
  else [c]

/-- The string literal for `text`. -/
def quoted (text : String) : String :=
  String.ofList ('"' :: text.toList.flatMap quotedChar ++ ['"'])

/-- Numbers are written in place, however large or small. -/
def numberLayout : Binary64.Layout where
  tie := .up
  positional _ := true
  keepPoint := false

/-- The text of a number. Infinity is written by its name, without a sign. -/
def numberText (x : Binary64) : String :=
  if x.isFinite then x.format numberLayout
  else if x.isInfinite then "Infinity"
  else "NaN"

/-- The text of a literal. -/
def literalText : Literal → String
  | .string value => quoted value
  | .number value => numberText value
  | .boolean value => if value then "true" else "false"
  | .null => "null"

end ClassScript.Script

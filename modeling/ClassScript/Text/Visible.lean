import ClassScript.Text.Printable

/-!
# Texts shown inside messages

A message shows a piece of source text between double quotes. Quotes,
backslashes and the common control characters are written as short escapes, and
a character that cannot be shown on its own is written by its code point, so
the shown form is always one printable line.
-/

namespace ClassScript.Text

/-- A character by its code point, in lower-case hexadecimal digits. -/
def codePointEscape (c : Char) : List Char :=
  ['\\', 'u', '{'] ++ Nat.toDigits 16 c.toNat ++ ['}']

/-- One character of a shown text. -/
def visibleChar (c : Char) : List Char :=
  if c = '"' then ['\\', '"']
  else if c = '\\' then ['\\', '\\']
  else if c = '\n' then ['\\', 'n']
  else if c = '\r' then ['\\', 'r']
  else if c = '\t' then ['\\', 't']
  else if c = '\x00' then ['\\', '0']
  else if isPrintable c then [c]
  else codePointEscape c

/-- A text as a message shows it. -/
def visible (text : String) : String :=
  "\"" ++ String.ofList (text.toList.flatMap visibleChar) ++ "\""

end ClassScript.Text

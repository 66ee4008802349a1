import ClassScript.Text.Bytes

/-!
# Finding whole words

The first place in a text where a given word stands and neither continues a word
before it nor is continued by one after it. Which characters make up words is a
parameter.
-/

namespace ClassScript.Text

/-- Does a word begin or end between two neighbours? The text is surrounded by
nothing, which is part of no word. -/
def isBoundary (inWord : Char → Bool) (before after : Option Char) : Bool :=
  before.any inWord != after.any inWord

/-- The text after `word`, if `cs` begins with it. -/
def dropWord : List Char → List Char → Option (List Char)
  | [], cs => some cs
  | _ :: _, [] => none
  | w :: word, c :: cs => if w = c then dropWord word cs else none

/-- Does `word` stand at the beginning of `cs`, as a whole word after the
character `before`? -/
def standsWhole (inWord : Char → Bool) (word : List Char) (before : Option Char)
    (cs : List Char) : Bool :=
  match dropWord word cs with
  | none => false
  | some rest =>
    isBoundary inWord before cs.head? && isBoundary inWord (word.getLast?.or before) rest.head?

/-- The byte offset of the first whole `word` in `cs`, which itself starts at
`offset` after the character `before`. -/
def findWordFrom (inWord : Char → Bool) (word : List Char) (before : Option Char) (offset : Nat) :
    List Char → Option Nat
  | [] => if standsWhole inWord word before [] then some offset else none
  | c :: cs =>
    if standsWhole inWord word before (c :: cs) then some offset
    else findWordFrom inWord word (some c) (offset + c.utf8Size) cs

/-- The byte offset of the first whole `word` in a text. -/
def findWord? (inWord : Char → Bool) (word cs : List Char) : Option Nat :=
  findWordFrom inWord word none 0 cs

end ClassScript.Text

/-!
# Texts by bytes

Offsets into a source text count the bytes of its UTF-8 form. A place between
two bytes of one character is no place between characters.
-/

namespace ClassScript.Text

/-- The number of bytes of a text. -/
def byteLength : List Char → Nat
  | [] => 0
  | c :: cs => c.utf8Size + byteLength cs

@[simp] theorem byteLength_nil : byteLength [] = 0 := rfl

@[simp] theorem byteLength_cons (c : Char) (cs : List Char) :
    byteLength (c :: cs) = c.utf8Size + byteLength cs := rfl

theorem byteLength_append (cs ds : List Char) :
    byteLength (cs ++ ds) = byteLength cs + byteLength ds := by
  induction cs with
  | nil => simp
  | cons c cs ih => simp [ih, Nat.add_assoc]

/-- Splits off the characters of the first `n` bytes; `none` if `n` is not the
length of a beginning of the text. -/
def splitAtByte? (n : Nat) : List Char → Option (List Char × List Char)
  | [] => if n = 0 then some ([], []) else none
  | c :: cs =>
    if n = 0 then some ([], c :: cs)
    else if c.utf8Size ≤ n then
      (splitAtByte? (n - c.utf8Size) cs).map fun (taken, rest) => (c :: taken, rest)
    else none

/-- The text between two offsets; `none` if one of them is not between
characters or they are out of order. -/
def slice? (cs : List Char) (start stop : Nat) : Option (List Char) := do
  if stop < start then none
  else
    let (_, rest) ← splitAtByte? start cs
    let (taken, _) ← splitAtByte? (stop - start) rest
    return taken

end ClassScript.Text

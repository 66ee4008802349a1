/-!
# Positions and spans in a source text

A `Position` names a point of a text three ways at once: by line, by column
and by byte offset. `Position.next` says how reading one character moves it,
and `Position.after` iterates that over a run of characters, so every position
that a scan reports is `Position.start.after` of the text before it.
-/

namespace ClassScript

/-- A point in a source text. Lines and columns count from one; a column
counts code points and an offset counts UTF-8 bytes. -/
structure Position where
  line : Nat
  column : Nat
  offset : Nat
deriving DecidableEq, Inhabited

namespace Position

/-- The point before the first character of a text. -/
def start : Position := ⟨1, 1, 0⟩

/-- The position of a token that was built without a source text. -/
def none : Position := ⟨0, 0, 0⟩

/-- The point reached by reading `c`: a line feed opens the next line, every
other character moves one column to the right. -/
def next (p : Position) (c : Char) : Position :=
  if c = '\n' then ⟨p.line + 1, 1, p.offset + c.utf8Size⟩
  else ⟨p.line, p.column + 1, p.offset + c.utf8Size⟩

/-- The point reached by reading the characters `cs` one after another. -/
def after (p : Position) (cs : List Char) : Position :=
  cs.foldl next p

@[simp] theorem after_nil (p : Position) : p.after [] = p := rfl

@[simp] theorem after_cons (p : Position) (c : Char) (cs : List Char) :
    p.after (c :: cs) = (p.next c).after cs := rfl

theorem after_append (p : Position) (cs ds : List Char) :
    p.after (cs ++ ds) = (p.after cs).after ds :=
  List.foldl_append

/-- A position as messages show it. -/
def display (p : Position) : String :=
  toString p.line ++ ":" ++ toString p.column

end Position

/-- The stretch of a source text from `start` up to, not including, `stop`. -/
structure Span where
  start : Position
  stop : Position
deriving DecidableEq, Inhabited

/-- The span of a node that was built without a source text. -/
def Span.none : Span := ⟨.none, .none⟩

end ClassScript

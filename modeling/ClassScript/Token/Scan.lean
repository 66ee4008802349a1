import ClassScript.CompileError
import ClassScript.Token.Pattern

/-!
# From text to tokens

`tokenize` reads a source text by an ordered table of rules. At each place the
first rule whose pattern matches decides what the matched text is; a character
that no rule matches is a token of its own. `Cursor` is a place in a text for
callers that walk through it by byte counts.

The only errors are literals: one that is never closed, and a char literal that
does not hold exactly one character.
-/

namespace ClassScript

/-- A place in a source text, with the text from there on. -/
structure Cursor where
  position : Position
  rest : List Char
deriving DecidableEq

namespace Cursor

/-- The beginning of a text. -/
def ofText (text : String) : Cursor :=
  ⟨.start, text.toList⟩

/-- The text from the cursor on. -/
def remainder (c : Cursor) : String :=
  String.ofList c.rest

/-- Reads the characters of the next `n` bytes, or up to the end of the text. A
character of which `n` bytes hold only a part is not read. -/
def advance (c : Cursor) (n : Nat) : Cursor :=
  go c.position n c.rest
where
  go (p : Position) (n : Nat) : List Char → Cursor
    | [] => ⟨p, []⟩
    | ch :: rest =>
      if ch.utf8Size ≤ n then go (p.next ch) (n - ch.utf8Size) rest else ⟨p, ch :: rest⟩

end Cursor

namespace Lexical

/-- What a matched text is. -/
inductive Meaning where
  /-- Blanks or a comment: no token. -/
  | gap
  /-- A token of the given kind. -/
  | token (kind : Kind)
  /-- A keyword or a name, by its spelling. -/
  | word
  /-- The opening quote of a literal that is not closed. -/
  | unterminated (quote : Char)
  /-- A closed char literal that does not hold one character. -/
  | invalidChar
deriving DecidableEq

/-- A pattern, and what a text that matches it is. -/
structure Rule where
  pattern : Pattern
  meaning : Meaning
deriving DecidableEq

/-- The rule for a kind with one spelling. -/
def Rule.ofKind (kind : Kind) : Rule :=
  ⟨.exact (kind.spelling?.getD "").toList, .token kind⟩

/-- The rules, in the order in which they are tried. -/
def rules : List Rule :=
  [⟨.blanks, .gap⟩,
   ⟨.lineComment, .gap⟩,
   ⟨.blockComment, .gap⟩,
   ⟨.openComment, .gap⟩,
   ⟨.word, .word⟩,
   ⟨.number, .token .number⟩,
   ⟨.quoted '"' true, .token .string⟩,
   ⟨.exact ['"'], .unterminated '"'⟩,
   ⟨.charLiteral, .token .char⟩,
   ⟨.quoted '\'' false, .invalidChar⟩,
   ⟨.exact ['\''], .unterminated '\''⟩] ++ Kind.punctuators.map Rule.ofKind

/-- A text that matched, what it is, and the text after it. -/
structure Match where
  meaning : Meaning
  taken : List Char
  rest : List Char
deriving DecidableEq

/-- The match of `rule` at the beginning of `cs`. -/
def Rule.match? (rule : Rule) (cs : List Char) : Option Match :=
  (rule.pattern.split? cs).map fun (taken, rest) => ⟨rule.meaning, taken, rest⟩

/-- The match of the first rule that matches at the beginning of `cs`. -/
def firstMatch? (cs : List Char) : Option Match :=
  rules.findSome? (·.match? cs)

theorem exists_rule_of_firstMatch? {cs : List Char} {m : Match} (h : firstMatch? cs = some m) :
    ∃ rule ∈ rules, rule.meaning = m.meaning ∧ rule.pattern.split? cs = some (m.taken, m.rest) := by
  obtain ⟨rule, hmem, hmatch⟩ := List.exists_of_findSome?_eq_some h
  obtain ⟨⟨taken, rest⟩, hsplit, rfl⟩ := Option.map_eq_some_iff.1 hmatch
  exact ⟨rule, hmem, rfl, hsplit⟩

theorem firstMatch?_append {cs : List Char} {m : Match} (h : firstMatch? cs = some m) :
    m.taken ++ m.rest = cs := by
  obtain ⟨_, _, _, hsplit⟩ := exists_rule_of_firstMatch? h
  exact Pattern.split?_append hsplit

theorem firstMatch?_length_lt {cs : List Char} {m : Match} (h : firstMatch? cs = some m) :
    m.rest.length < cs.length := by
  obtain ⟨_, _, _, hsplit⟩ := exists_rule_of_firstMatch? h
  exact Pattern.split?_length_lt hsplit

end Lexical

open Lexical

/-- The tokens of the text from the position `p` on, which is `cs`. -/
def tokensFrom (p : Position) (cs : List Char) : Except CompileError (List Token) :=
  match cs with
  | [] => .ok [.endOfInput p]
  | c :: cs =>
    match h : firstMatch? (c :: cs) with
    | none => do
      let tokens ← tokensFrom (p.next c) cs
      return ⟨.unknown, c.toString, ⟨p, p.next c⟩⟩ :: tokens
    | some m =>
      have : m.rest.length < cs.length + 1 := firstMatch?_length_lt h
      let stop := p.after m.taken
      match m.meaning with
      | .gap => tokensFrom stop m.rest
      | .token kind => do
        let tokens ← tokensFrom stop m.rest
        return ⟨kind, String.ofList m.taken, ⟨p, stop⟩⟩ :: tokens
      | .word => do
        let text := String.ofList m.taken
        let tokens ← tokensFrom stop m.rest
        return ⟨.ofWord text, text, ⟨p, stop⟩⟩ :: tokens
      | .unterminated quote => .error (.atPosition (.unterminatedLiteral quote) p)
      | .invalidChar => .error (.atPosition (.invalidCharLiteral (String.ofList m.taken)) p)
termination_by cs.length
decreasing_by
  · exact Nat.lt_succ_self _
  all_goals assumption

/-- The tokens of a source text. The last one, and no other, ends the input. -/
def tokenize (source : String) : Except CompileError (List Token) :=
  tokensFrom .start source.toList

end ClassScript

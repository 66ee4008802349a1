import ClassScript.Parse.Expr
import ClassScript.Proofs.Token.Failure

/-!
# Char literals

A char literal holds a character, or a backslash with a character after it. The scan takes
any character after the backslash, but only some of these pairs stand for one character
(`Escape.decode?`). In the others the backslash stands for itself, and the string that
the literal stands for has two characters (`literalValue?_of_char`). All other closed literals
are errors. `char_literals_hold_one_character` puts this together.
-/

namespace ClassScript

open Lexical Text

/-- The literal is a backslash with a character that it does not go together with. -/
def IsUnknownEscape (literal : String) : Prop :=
  ∃ e, Escape.decode? e = none ∧ literal.toList = ['\'', '\\', e, '\'']

theorem decodeAll_single (c : Char) : Escape.decodeAll [c] = [c] := by
  simp [Escape.decodeAll]

theorem decodeAll_escape (e : Char) :
    Escape.decodeAll ['\\', e] = (Escape.decode? e).elim ['\\', e] fun c => [c] := by
  rw [Escape.decodeAll]
  cases Escape.decode? e with
  | some c => rfl
  | none => simp only [decodeAll_single, Option.elim]

theorem literalValue?_single {literal : String} {c : Char}
    (h : literal.toList = ['\'', c, '\'']) :
    Escape.literalValue? literal = some (String.ofList [c]) := by
  rw [Escape.literalValue?_of_quotes [c] (by decide) h, decodeAll_single]

theorem literalValue?_escape {literal : String} {e : Char}
    (h : literal.toList = ['\'', '\\', e, '\'']) :
    Escape.literalValue? literal =
      some (String.ofList ((Escape.decode? e).elim ['\\', e] fun c => [c])) := by
  rw [Escape.literalValue?_of_quotes ['\\', e] (by decide) h, decodeAll_escape]

/-- A char literal stands for one character, except that one with an unknown escape stands
for two. -/
theorem literalValue?_of_char {literal : String} (h : Vocabulary .char literal.toList) :
    ((∃ c, Escape.literalValue? literal = some (String.ofList [c])) ↔
      ¬ IsUnknownEscape literal) ∧
    ∀ e, Escape.decode? e = none → literal.toList = ['\'', '\\', e, '\''] →
      Escape.literalValue? literal = some (String.ofList ['\\', e]) := by
  have hunknown : ∀ e, Escape.decode? e = none → literal.toList = ['\'', '\\', e, '\''] →
      Escape.literalValue? literal = some (String.ofList ['\\', e]) := by
    intro e hdecode hliteral
    rw [literalValue?_escape hliteral, hdecode]
    rfl
  refine ⟨⟨?_, ?_⟩, hunknown⟩
  · intro hvalue hescape
    obtain ⟨c, hc⟩ := hvalue
    obtain ⟨e, hdecode, hliteral⟩ := hescape
    rw [hunknown e hdecode hliteral, Option.some.injEq] at hc
    cases String.ofList_injective hc
  · intro hknown
    generalize hw : literal.toList = w at h
    cases h with
    | @char c _ _ _ => exact ⟨c, literalValue?_single hw⟩
    | @charEscape e _ =>
      cases hdecode : Escape.decode? e with
      | none => exact absurd ⟨e, hdecode, hw⟩ hknown
      | some c =>
        refine ⟨c, ?_⟩
        rw [literalValue?_escape hw, hdecode]
        rfl
    | keyword hkind => exact absurd hkind (by decide)
    | punctuator hkind => exact absurd hkind (by decide)

theorem primary_char {s : Parse.State} {value : String} (h : s.current.kind = .char)
    (hvalue : Escape.literalValue? s.current.text = some value) :
    Parse.primary s = .ok (.literal (.string value) s.current.span) s.next := by
  have hprimary : Parse.primaryOf s.current =
      .ok (.literal (.string value) s.current.span) := by
    simp only [Parse.primaryOf, h, hvalue]
  have hadvance : Parse.advance s = .ok s.current s.next := rfl
  simp only [Parse.primary, bind, EStateM.bind, hadvance, hprimary]
  rfl

theorem quotedBody_of_char {w : List Char} (h : Vocabulary .char w) :
    ∃ body, QuotedBody '\'' false body ∧ w = '\'' :: (body ++ ['\'']) := by
  cases h with
  | @char c hquote hslash hline =>
    exact ⟨[c], .plain hquote hslash (fun h => absurd h hline) .nil, rfl⟩
  | @charEscape e hline => exact ⟨['\\', e], .escape (fun h => absurd h hline) .nil, rfl⟩
  | keyword hkind => exact absurd hkind (by decide)
  | punctuator hkind => exact absurd hkind (by decide)

/-- A closed literal that is no char literal is a bad one. -/
theorem StartsClosedChar.startsBadLiteral {cs body : List Char} (h : StartsClosedChar cs body)
    (hchar : ¬ Vocabulary .char ('\'' :: (body ++ ['\'']))) : StartsBadLiteral cs := by
  obtain ⟨hbody, rest, rfl⟩ := h
  refine .inr ⟨_, rfl, ?_⟩
  intro w hw hbegins
  obtain ⟨body', hbody', rfl⟩ := quotedBody_of_char hw
  obtain ⟨rest', hrest'⟩ := hbegins
  -- Both literals are closed at the first quote that no backslash escapes.
  have htext : body' ++ '\'' :: rest' = body ++ '\'' :: rest := by simpa using hrest'
  have hclose := closeQuote_body (by decide) hbody' rest'
  rw [htext, closeQuote_body (by decide) hbody rest, Option.some.injEq, Prod.mk.injEq] at hclose
  rw [hclose.1] at hchar
  exact hchar hw

/-- A char token stands for one character unless its escape is unknown, and then for two, and
is read as the literal of that string. Any other closed literal in single quotes is an
error. -/
theorem char_literals_hold_one_character (source : String) :
    (∀ tokens, tokenize source = .ok tokens → ∀ t ∈ tokens, t.kind = .char →
      ((∃ c, Escape.literalValue? t.text = some (String.ofList [c])) ↔ ¬ IsUnknownEscape t.text) ∧
      (∀ e, Escape.decode? e = none → t.text.toList = ['\'', '\\', e, '\''] →
        Escape.literalValue? t.text = some (String.ofList ['\\', e])) ∧
      ∃ value, Escape.literalValue? t.text = some value ∧ ∀ s : Parse.State, s.current = t →
        Parse.primary s = .ok (.literal (.string value) t.span) s.next) ∧
    ∀ a r body, source.toList = a ++ r → Completes a → StartsClosedChar r body →
      ¬ Vocabulary .char ('\'' :: (body ++ ['\''])) →
      tokenize source = .error
        (.atPosition (.invalidCharLiteral (String.ofList ('\'' :: (body ++ ['\'']))))
          (Position.start.after a)) := by
  constructor
  · intro tokens htokens t ht hkind
    have hchar : Vocabulary .char t.text.toList := by
      rw [← hkind]
      exact vocabulary_of_tokenize htokens ht (by simp [hkind]) (by simp [hkind])
    obtain ⟨hone, htwo⟩ := literalValue?_of_char hchar
    obtain ⟨value, hvalue⟩ := literalValue?_of_tokenize htokens ht (.inr hkind)
    refine ⟨hone, htwo, value, hvalue, ?_⟩
    intro s hs
    subst hs
    exact primary_char hkind hvalue
  · intro a r body hsource ha hclosed hchar
    obtain ⟨cause, herror, hcause⟩ :=
      tokenize_of_badLiteral hsource ha (hclosed.startsBadLiteral hchar)
    rw [herror, hcause.closed body hclosed]

/-- An escaped quote is one character. Two characters after a char literal and a comment are
an error. -/
theorem char_literals_hold_one_character_quote :
    (∃ tokens t, tokenize "'\\''" = .ok tokens ∧ t ∈ tokens ∧ t.kind = .char ∧
      ∃ c, Escape.literalValue? t.text = some (String.ofList [c])) ∧
    tokenize "'é'/*'*/'ab'" =
      .error (.atPosition (.invalidCharLiteral "'ab'") ⟨1, 9, 9⟩) := by
  constructor
  · have hchars : "'\\''".toList = ['\'', '\\', '\'', '\''] := rfl
    have hlexes : ∃ tokens, Lexes .start "'\\''".toList tokens ∧
        ∃ t ∈ tokens, t.kind = .char ∧ t.text.toList = ['\'', '\\', '\'', '\''] := by
      rw [hchars]
      exact ⟨_, .token rfl rfl (.done _), _, List.mem_cons_self, rfl, rfl⟩
    obtain ⟨tokens, hlexes, t, ht, hkind, htext⟩ := hlexes
    refine ⟨tokens, t, hlexes.tokensFrom_eq, ht, hkind, ?_⟩
    rw [((char_literals_hold_one_character _).1 tokens hlexes.tokensFrom_eq t ht hkind).1]
    intro hunknown
    obtain ⟨e, hdecode, he⟩ := hunknown
    obtain rfl : '\'' = e := by simpa [htext] using he
    cases hdecode
  · have hreaches : Reaches ['\'', 'a', 'b', '\'']
        (['\'', 'é', '\''] ++ (['/', '*', '\'', '*', '/'] ++ [])) :=
      .taken ⟨_, rfl, rfl, rfl⟩ (.taken ⟨_, rfl, rfl, rfl⟩ .nil)
    have hcompletes := (reaches_iff_completes ⟨_, _, rfl, rfl⟩).1 hreaches
    have hclosed : StartsClosedChar ['\'', 'a', 'b', '\''] ['a', 'b'] :=
      ⟨.plain (by decide) (by decide) (by decide) (.plain (by decide) (by decide) (by decide) .nil),
        [], rfl⟩
    have hchar : ¬ Vocabulary .char ('\'' :: (['a', 'b'] ++ ['\''])) := by
      intro h
      have hsplit := charLiteral_append h []
      cases hsplit
    exact (char_literals_hold_one_character "'é'/*'*/'ab'").2 _ _ _ rfl hcompletes hclosed hchar

/-- A backslash with a letter that it does not go together with is a char literal, which
stands for both. -/
theorem unknown_escape_holds_two :
    ∃ tokens t, tokenize "'\\q'" = .ok tokens ∧ t ∈ tokens ∧ t.kind = .char ∧
      Escape.literalValue? t.text = some "\\q" := by
  have hchars : "'\\q'".toList = ['\'', '\\', 'q', '\''] := rfl
  have hlexes : ∃ tokens, Lexes .start "'\\q'".toList tokens ∧
      ∃ t ∈ tokens, t.kind = .char ∧ t.text.toList = ['\'', '\\', 'q', '\''] := by
    rw [hchars]
    exact ⟨_, .token rfl rfl (.done _), _, List.mem_cons_self, rfl, rfl⟩
  obtain ⟨tokens, hlexes, t, ht, hkind, htext⟩ := hlexes
  refine ⟨tokens, t, hlexes.tokensFrom_eq, ht, hkind, ?_⟩
  exact literalValue?_escape htext

end ClassScript

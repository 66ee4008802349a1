import ClassScript.Proofs.Number.ReadBack
import ClassScript.Proofs.Token.Spelling
import ClassScript.Script.Literal
import ClassScript.Token.Escape

/-!
# Literals read back

A written literal is scanned as one token (`isNumeral_numberText`, `scans_quoted`),
and the value is read back from the text of that token: `ofText?_numberText` for
finite numbers and `literalValue?_quoted` for strings without the characters that
are written by their code points.
-/

namespace ClassScript.Script

/-! ### Numbers -/

/-- A number that source text can denote, and that is written by its digits. -/
def IsPlainNumber (x : Binary64) : Prop :=
  x.negative = false ∧ x.isFinite = true

theorem format_numberLayout (x : Binary64) :
    x.format numberLayout = (if x.negative then "-" else "") ++
      if x.rank = 0 then "0" else (Binary64.shortest .up x.rank).positional false := by
  simp only [Binary64.format, numberLayout]
  split <;> rfl

/-- A finite number that is not negative is written by its shortest digits, without an exponent. -/
theorem numberText_of_isPlainNumber {x : Binary64} (h : IsPlainNumber x) :
    numberText x =
      if x.rank = 0 then "0" else (Binary64.shortest .up x.rank).positional false := by
  rw [numberText, if_pos h.2, format_numberLayout, h.1]
  exact String.empty_append

/-- A written number reads as itself. -/
theorem ofText?_numberText {x : Binary64} (h : IsPlainNumber x) :
    Binary64.ofText? (numberText x) = some x := by
  have hfinite : x.rank < Binary64.infiniteRank := of_decide_eq_true h.2
  have hx : x = ⟨false, x.rank⟩ := by rw [← h.1]
  -- Zero has no interval around it, and is written by itself.
  by_cases hzero : x.rank = 0
  · rw [numberText_of_isPlainNumber h, if_pos hzero, hx, hzero]
    decide +kernel
  · rw [numberText_of_isPlainNumber h, if_neg hzero,
      Binary64.ofText?_positional_shortest .up (Nat.pos_of_ne_zero hzero) hfinite, ← hx]

/-- The text of a number is digits with a point between them or without one, so it is one token. -/
theorem isNumeral_numberText {x : Binary64} (h : IsPlainNumber x) :
    IsNumeral (numberText x).toList := by
  by_cases hzero : x.rank = 0
  · rw [numberText_of_isPlainNumber h, if_pos hzero]
    exact ⟨'0', [], [], rfl, List.all_eq_true.1 rfl, .inl rfl⟩
  · rw [numberText_of_isPlainNumber h, if_neg hzero]
    obtain ⟨whole, fraction, htext, hne, hwhole, hfraction, -, -⟩ :=
      (Binary64.shortest .up x.rank).positional_eq
    obtain ⟨d, ds, rfl⟩ := List.exists_cons_of_ne_nil hne
    refine ⟨d, ds, _, htext, hwhole, ?_⟩
    cases fraction with
    | nil => exact .inl rfl
    | cons f gs => exact .inr ⟨f, gs, rfl, hfraction⟩

/-! ### Strings -/

/-- A character that a written string holds by itself or by an escape that source
text has too. -/
def IsPlainChar (c : Char) : Prop :=
  c = '\n' ∨ c = '\r' ∨ c = '\t' ∨
    (isControl c = false ∧ c.toNat ≠ 0x2028 ∧ c.toNat ≠ 0x2029)

instance (c : Char) : Decidable (IsPlainChar c) :=
  inferInstanceAs (Decidable (c = '\n' ∨ c = '\r' ∨ c = '\t' ∨
    (isControl c = false ∧ c.toNat ≠ 0x2028 ∧ c.toNat ≠ 0x2029)))

/-- A plain character is written as an escape that the source language knows too, or as itself. -/
theorem quotedChar_of_isPlainChar {c : Char} (h : IsPlainChar c) :
    (∃ e, quotedChar c = ['\\', e] ∧ Escape.decode? e = some c) ∨
      (quotedChar c = [c] ∧ c ≠ '"' ∧ c ≠ '\\') := by
  unfold quotedChar
  split
  · subst_vars
    exact .inl ⟨'"', rfl, rfl⟩
  split
  · subst_vars
    exact .inl ⟨'\\', rfl, rfl⟩
  split
  · subst_vars
    exact .inl ⟨'n', rfl, rfl⟩
  split
  · subst_vars
    exact .inl ⟨'r', rfl, rfl⟩
  split
  · subst_vars
    exact .inl ⟨'t', rfl, rfl⟩
  · -- No short escape, so the character is not one that is written by its code point.
    obtain ⟨hcontrol, hline, hparagraph⟩ : isControl c = false ∧ c.toNat ≠ 0x2028 ∧
        c.toNat ≠ 0x2029 := by
      rcases h with h | h | h | h
      · contradiction
      · contradiction
      · contradiction
      · exact h
    rw [if_neg (by simp [hcontrol, hline, hparagraph])]
    exact .inr ⟨rfl, by assumption, by assumption⟩

section

variable {cs : List Char} (h : ∀ c ∈ cs, IsPlainChar c)

include h

/-- No quote inside of a written string closes it. -/
theorem closeQuote_quoted (rest : List Char) :
    Pattern.closeQuote '"' true (cs.flatMap quotedChar ++ '"' :: rest) =
      some (cs.flatMap quotedChar ++ ['"'], rest) := by
  induction cs with
  | nil => simp [Pattern.closeQuote.eq_def]
  | cons c cs ih =>
    obtain ⟨hc, hcs⟩ := List.forall_mem_cons.1 h
    have ih := ih hcs
    rw [List.flatMap_cons, List.append_assoc, Pattern.closeQuote.eq_def]
    rcases quotedChar_of_isPlainChar hc with ⟨e, hquoted, -⟩ | ⟨hquoted, hquote, hslash⟩
    · simp [hquoted, ih, Pattern.prepend]
    · simp [hquoted, hquote, hslash, ih, Pattern.prepend]

/-- Taking the escapes out of a written string gives back its characters. -/
theorem decodeAll_quoted : Escape.decodeAll (cs.flatMap quotedChar) = cs := by
  induction cs with
  | nil => rfl
  | cons c cs ih =>
    obtain ⟨hc, hcs⟩ := List.forall_mem_cons.1 h
    have ih := ih hcs
    rcases quotedChar_of_isPlainChar hc with ⟨e, hquoted, hdecode⟩ | ⟨hquoted, -, hslash⟩
    · simp [hquoted, Escape.decodeAll, hdecode, ih]
    · simp [hquoted, Escape.decodeAll, hslash, ih]

end

theorem quoted_toList (text : String) :
    (quoted text).toList = '"' :: (text.toList.flatMap quotedChar ++ ['"']) := by
  rw [quoted, String.toList_ofList]
  rfl

theorem literalValue?_quoted {text : String} (h : ∀ c ∈ text.toList, IsPlainChar c) :
    Escape.literalValue? (quoted text) = some text := by
  rw [Escape.literalValue?_of_quotes _ (by decide) (quoted_toList text), decodeAll_quoted h,
    String.ofList_toList]

/-- A written string is one token, whatever follows it. -/
theorem scans_quoted {text : String} (h : ∀ c ∈ text.toList, IsPlainChar c) :
    Scans Anything (quoted text).toList [⟨.string, quoted text⟩] := by
  refine .of_match rfl fun rest _ => ⟨.token .string, ?_, rfl⟩
  have hclose := closeQuote_quoted h rest
  simp [Lexical.firstMatch?, Lexical.rules, Lexical.Rule.match?, Pattern.split?, quoted, hclose,
    Text.isBlank, Pattern.isWordStart, Pattern.prepend]

/-! ### Literals -/

/-- The token of a literal. -/
def literalLexeme : Literal → Lexeme
  | .string value => ⟨.string, quoted value⟩
  | .number value => ⟨.number, numberText value⟩
  | .boolean value => .ofWord (if value then "true" else "false")
  | .null => .ofWord "null"

/-- A literal whose value its text gives back. -/
def IsPlainLiteral : Literal → Prop
  | .string value => ∀ c ∈ value.toList, IsPlainChar c
  | .number value => IsPlainNumber value
  | .boolean _ | .null => True

end ClassScript.Script

import ClassScript.Proofs.Token.Spelling

/-!
# The vocabulary of tokens

`Vocabulary kind w` says that the text `w` is a lexeme of the given kind. It is
said without the table of rules of a scan: words and keywords, numerals, literals
and punctuators, each by the characters that it is made of.

The first character of a lexeme tells its `Shape`, so lexemes of two shapes never
begin the same text (`Vocabulary.has_of_begins`), and no text is a lexeme of two
kinds (`Vocabulary.unique`).
-/

namespace ClassScript

open Lexical

/-! ### Lexemes -/

/-- The characters of a kind that has one spelling. -/
def Kind.spelled (kind : Kind) : List Char := (kind.spelling?.getD "").toList

/-- What can stand between two quotes: characters other than the quote and the
backslash, and backslashes with any character after them. Line feeds are among
these only if the literal may span lines. -/
inductive QuotedBody (quote : Char) (spansLines : Bool) : List Char → Prop
  | nil : QuotedBody quote spansLines []
  | plain {c : Char} {cs : List Char} : c ≠ quote → c ≠ '\\' → (c = '\n' → spansLines = true) →
      QuotedBody quote spansLines cs → QuotedBody quote spansLines (c :: cs)
  | escape {e : Char} {cs : List Char} : (e = '\n' → spansLines = true) →
      QuotedBody quote spansLines cs → QuotedBody quote spansLines ('\\' :: e :: cs)

/-- The text `w` is a lexeme of the given kind. -/
inductive Vocabulary : Kind → List Char → Prop
  /-- A word that is not in the table of keywords. -/
  | name {w : List Char} : IsWord w → (∀ kind ∈ Kind.keywords, kind.spelled ≠ w) →
      Vocabulary .identifier w
  | keyword {kind : Kind} : kind ∈ Kind.keywords → Vocabulary kind kind.spelled
  | number {w : List Char} : IsNumeral w → Vocabulary .number w
  /-- A string is closed at the first quote that no backslash escapes. -/
  | string {body : List Char} : QuotedBody '"' true body →
      Vocabulary .string ('"' :: (body ++ ['"']))
  | char {c : Char} : c ≠ '\'' → c ≠ '\\' → c ≠ '\n' → Vocabulary .char ['\'', c, '\'']
  | charEscape {e : Char} : e ≠ '\n' → Vocabulary .char ['\'', '\\', e, '\'']
  | punctuator {kind : Kind} : kind ∈ Kind.punctuators → Vocabulary kind kind.spelled

/-! ### Words and the table of keywords -/

theorem isWord_spelled {kind : Kind} (h : kind ∈ Kind.keywords) : IsWord kind.spelled := by
  have hall : ∀ kind ∈ Kind.keywords, kind.spelled ≠ [] ∧
      kind.spelled.head?.all Pattern.isWordStart = true ∧
      kind.spelled.tail.all Pattern.isWordPart = true := by decide
  obtain ⟨hne, hstart, hparts⟩ := hall kind h
  obtain ⟨c, cs, hspelled⟩ := List.exists_cons_of_ne_nil hne
  rw [hspelled] at hstart hparts ⊢
  exact isWord_cons c cs hstart hparts

theorem ofWord_spelled : ∀ kind ∈ Kind.keywords,
    Kind.ofWord (String.ofList kind.spelled) = kind := by
  decide

theorem spelling?_keyword : ∀ kind ∈ Kind.keywords,
    kind.spelling? = some (String.ofList kind.spelled) := by
  decide

/-- The table of keywords has a keyword that is spelled as the word. -/
theorem keyword?_eq_some {kind : Kind} {w : List Char}
    (h : Kind.keyword? (String.ofList w) = some kind) :
    kind ∈ Kind.keywords ∧ kind.spelled = w := by
  have hmem := List.mem_of_find?_eq_some h
  have hfound := List.find?_some h
  have hspelling := eq_of_beq hfound
  rw [spelling?_keyword kind hmem] at hspelling
  exact ⟨hmem, String.ofList_injective (Option.some.inj hspelling)⟩

/-- The table of keywords has no keyword that is spelled as the word. -/
theorem keyword?_eq_none_iff {w : List Char} :
    Kind.keyword? (String.ofList w) = none ↔ ∀ kind ∈ Kind.keywords, kind.spelled ≠ w := by
  rw [Kind.keyword?, List.find?_eq_none]
  constructor
  · intro h kind hkind hspelled
    apply h kind hkind
    rw [spelling?_keyword kind hkind, hspelled]
    exact beq_self_eq_true _
  · intro h kind hkind hspelling
    apply h kind hkind
    have hspelling := eq_of_beq hspelling
    rw [spelling?_keyword kind hkind] at hspelling
    exact String.ofList_injective (Option.some.inj hspelling)

/-- A word is a lexeme, of the kind that the table of keywords tells. -/
theorem vocabulary_ofWord {w : List Char} (h : IsWord w) :
    Vocabulary (.ofWord (String.ofList w)) w := by
  unfold Kind.ofWord
  cases hkeyword : Kind.keyword? (String.ofList w) with
  | none => exact .name h (keyword?_eq_none_iff.1 hkeyword)
  | some kind =>
    obtain ⟨hmem, hspelled⟩ := keyword?_eq_some hkeyword
    exact hspelled ▸ .keyword hmem

theorem ofWord_of_name {w : List Char} (h : ∀ kind ∈ Kind.keywords, kind.spelled ≠ w) :
    Kind.ofWord (String.ofList w) = .identifier := by
  rw [Kind.ofWord, keyword?_eq_none_iff.2 h]
  rfl

/-! ### Literals -/

section

variable {quote : Char} {spansLines : Bool}

/-- A literal is read up to the quote after its body. -/
theorem closeQuote_body {body : List Char} (hquote : quote ≠ '\\')
    (h : QuotedBody quote spansLines body) (rest : List Char) :
    Pattern.closeQuote quote spansLines (body ++ quote :: rest) =
      some (body ++ [quote], rest) := by
  induction h with
  | nil => simp [Pattern.closeQuote.eq_def]
  | plain hne hslash hline _ ih =>
    rw [List.cons_append, Pattern.closeQuote.eq_def]
    simpa [hne, hslash, ih, Pattern.prepend] using hline
  | escape hline _ ih =>
    rw [List.cons_append, Pattern.closeQuote.eq_def]
    simpa [hquote.symm, ih, Pattern.prepend] using hline

/-- What is read up to a quote is the body of a literal and the quote. -/
theorem quotedBody_of_closeQuote {cs taken rest : List Char}
    (h : Pattern.closeQuote quote spansLines cs = some (taken, rest)) :
    ∃ body, QuotedBody quote spansLines body ∧ taken = body ++ [quote] := by
  fun_induction Pattern.closeQuote quote spansLines cs generalizing taken rest with
  | case1 => cases h
  | case2 r =>
    cases h
    exact ⟨[], .nil, rfl⟩
  | case3 => cases h
  | case4 => cases h
  | case5 => cases h
  | case6 e r hline _ _ ih =>
    obtain ⟨p, hp, hq⟩ := Option.map_eq_some_iff.1 h
    obtain ⟨body, hbody, htaken⟩ := ih hp
    cases hq
    exact ⟨'\\' :: e :: body, .escape (by simpa using hline) hbody, by rw [htaken]; rfl⟩
  | case7 c r hne hline hslash ih =>
    obtain ⟨p, hp, hq⟩ := Option.map_eq_some_iff.1 h
    obtain ⟨body, hbody, htaken⟩ := ih hp
    cases hq
    exact ⟨c :: body, .plain hne hslash (by simpa using hline) hbody, by rw [htaken]; rfl⟩

end

theorem vocabulary_charLiteral {cs taken rest : List Char}
    (h : Pattern.charLiteral.split? cs = some (taken, rest)) : Vocabulary .char taken := by
  unfold Pattern.split? at h
  split at h
  any_goals contradiction
  · split at h
    · cases h
    · rename_i hline
      cases h
      exact .charEscape hline
  · split at h
    · cases h
    · rename_i hc
      simp only [not_or] at hc
      cases h
      exact .char hc.1 hc.2.1 hc.2.2

theorem charLiteral_append {w : List Char} (h : Vocabulary .char w) (rest : List Char) :
    Pattern.charLiteral.split? (w ++ rest) = some (w, rest) := by
  cases h with
  | char hquote hslash hline => simp [Pattern.split?, hquote, hslash, hline]
  | charEscape hline => simp [Pattern.split?, hline]
  | keyword hkind => exact absurd hkind (by decide)
  | punctuator hkind => exact absurd hkind (by decide)

/-! ### Numerals -/

theorem fraction_eq (cs : List Char) : (Pattern.fraction cs).1 = [] ∨
    ∃ f gs, (Pattern.fraction cs).1 = '.' :: f :: gs ∧ ∀ c ∈ f :: gs, c.isDigit = true := by
  unfold Pattern.fraction
  split
  · rename_i d rest
    by_cases hd : d.isDigit = true
    · have hdigits : ∀ c ∈ rest.takeWhile Char.isDigit, c.isDigit = true :=
        List.all_eq_true.1 List.all_takeWhile
      rw [if_pos hd]
      exact .inr ⟨d, _, rfl, List.forall_mem_cons.2 ⟨hd, hdigits⟩⟩
    · rw [if_neg hd]
      exact .inl rfl
  · exact .inl rfl

/-- A numeral that begins a text is no longer than what the pattern of numbers takes. -/
theorem numeral_begins {c : Char} {cs w : List Char} (hw : IsNumeral w) (hbegins : w <+: c :: cs) :
    w <+: c :: cs.takeWhile Char.isDigit ++ (Pattern.fraction (cs.dropWhile Char.isDigit)).1 := by
  obtain ⟨d, ds, fs, rfl, hds, hfs⟩ := hw
  obtain ⟨rest, hrest⟩ := hbegins
  obtain ⟨-, hds⟩ := List.forall_mem_cons.1 hds
  simp only [List.cons_append, List.append_assoc, List.cons.injEq] at hrest
  obtain ⟨rfl, rfl⟩ := hrest
  -- The digits of the text go on at least as far as those of the numeral. If the
  -- numeral has a point, they stop there, and the fraction goes on as far as its own.
  rcases hfs with rfl | ⟨f, gs, rfl, hgs⟩
  · rw [List.nil_append, List.append_nil, List.takeWhile_append_of_pos hds, ← List.cons_append,
      List.append_assoc]
    exact List.prefix_append _ _
  · obtain ⟨hf, hgs⟩ := List.forall_mem_cons.1 hgs
    have hpoint : ∀ c, ('.' :: f :: gs ++ rest).head? = some c → c.isDigit = false := by
      intro c hc
      obtain rfl : '.' = c := Option.some.inj hc
      decide
    obtain ⟨htake, hdrop⟩ := span_boundary hds hpoint
    have hfraction : (Pattern.fraction ('.' :: f :: gs ++ rest)).1 =
        '.' :: f :: gs ++ rest.takeWhile Char.isDigit := by
      simp [Pattern.fraction, hf, List.takeWhile_append_of_pos hgs]
    rw [htake, hdrop, hfraction, ← List.append_assoc]
    exact List.prefix_append _ _

/-! ### Shapes -/

/-- The shapes that lexemes have. -/
inductive Shape where
  | word | number | string | char | mark
deriving DecidableEq

namespace Shape

/-- The shape of the lexemes that begin with a character. -/
def ofHead (c : Char) : Shape :=
  if Pattern.isWordStart c then .word
  else if c.isDigit then .number
  else if c = '"' then .string
  else if c = '\'' then .char
  else .mark

/-- What a shape says of the first character. -/
def Starts : Shape → Char → Prop
  | .word, c => Pattern.isWordStart c = true
  | .number, c => c.isDigit = true
  | .string, c => c = '"'
  | .char, c => c = '\''
  | .mark, c => Pattern.isWordStart c = false ∧ c.isDigit = false ∧ c ≠ '"' ∧ c ≠ '\''

/-- The lexemes of a shape, with their kinds. -/
def Has : Shape → Kind → List Char → Prop
  | .word, kind, w => IsWord w ∧ kind = .ofWord (String.ofList w)
  | .number, kind, w => IsNumeral w ∧ kind = .number
  | .string, kind, w => (∃ body, QuotedBody '"' true body ∧ w = '"' :: (body ++ ['"'])) ∧
      kind = .string
  | .char, kind, w => Vocabulary .char w ∧ kind = .char
  | .mark, kind, w => kind ∈ Kind.punctuators ∧ w = kind.spelled

theorem exists_ofHead (c : Char) : ∃ shape, ofHead c = shape ∧ shape.Starts c := by
  unfold ofHead
  split
  · exact ⟨.word, rfl, by assumption⟩
  split
  · exact ⟨.number, rfl, by assumption⟩
  split
  · exact ⟨.string, rfl, by assumption⟩
  split
  · exact ⟨.char, rfl, by assumption⟩
  · rename_i hword hdigit hquote hapostrophe
    exact ⟨.mark, rfl, Bool.eq_false_iff.2 hword, Bool.eq_false_iff.2 hdigit, hquote, hapostrophe⟩

theorem ofHead_of_isWordStart {c : Char} (h : Pattern.isWordStart c = true) :
    ofHead c = .word := by
  simp [ofHead, h]

theorem ofHead_of_isDigit {c : Char} (h : c.isDigit = true) : ofHead c = .number := by
  simp [ofHead, h, isWordStart_of_isDigit h]

theorem ofHead_punctuator {kind : Kind} (h : kind ∈ Kind.punctuators) :
    ∃ c cs, kind.spelled = c :: cs ∧ ofHead c = .mark := by
  have hall : ∀ kind ∈ Kind.punctuators, kind.spelled ≠ [] ∧
      kind.spelled.head?.all (ofHead · = .mark) = true := by decide
  obtain ⟨hne, hhead⟩ := hall kind h
  obtain ⟨c, cs, hspelled⟩ := List.exists_cons_of_ne_nil hne
  rw [hspelled] at hhead
  exact ⟨c, cs, hspelled, of_decide_eq_true hhead⟩

end Shape

namespace Vocabulary

variable {kind : Kind} {w : List Char}

/-- The first character of a lexeme tells its shape. -/
theorem shape (h : Vocabulary kind w) : ∃ c cs, w = c :: cs ∧ (Shape.ofHead c).Has kind w := by
  cases h with
  | name hword hname =>
    have ⟨c, cs, hw, hc, _⟩ := hword
    have hhas : Shape.word.Has .identifier w := ⟨hword, (ofWord_of_name hname).symm⟩
    exact ⟨c, cs, hw, Shape.ofHead_of_isWordStart hc ▸ hhas⟩
  | keyword hkind =>
    obtain ⟨c, cs, hw, hc, -⟩ := isWord_spelled hkind
    have hhas : Shape.word.Has kind kind.spelled :=
      ⟨isWord_spelled hkind, (ofWord_spelled kind hkind).symm⟩
    exact ⟨c, cs, hw, Shape.ofHead_of_isWordStart hc ▸ hhas⟩
  | number hnumeral =>
    have ⟨d, ds, fs, hw, hds, _⟩ := hnumeral
    have hhas : Shape.number.Has .number w := ⟨hnumeral, rfl⟩
    exact ⟨d, ds ++ fs, hw, Shape.ofHead_of_isDigit (hds d List.mem_cons_self) ▸ hhas⟩
  | string hbody => exact ⟨_, _, rfl, ⟨_, hbody, rfl⟩, rfl⟩
  | char hquote hslash hline => exact ⟨_, _, rfl, .char hquote hslash hline, rfl⟩
  | charEscape hline => exact ⟨_, _, rfl, .charEscape hline, rfl⟩
  | punctuator hkind =>
    obtain ⟨c, cs, hw, hc⟩ := Shape.ofHead_punctuator hkind
    have hhas : Shape.mark.Has kind kind.spelled := ⟨hkind, rfl⟩
    exact ⟨c, cs, hw, hc ▸ hhas⟩

/-- A lexeme at the beginning of a text has the shape that the text begins with. -/
theorem has_of_begins {c : Char} {cs : List Char} (h : Vocabulary kind w)
    (hbegins : w <+: c :: cs) : (Shape.ofHead c).Has kind w := by
  obtain ⟨c', cs', rfl, hhas⟩ := h.shape
  obtain ⟨rfl, -⟩ := List.cons_prefix_cons.1 hbegins
  exact hhas

/-- A text is a lexeme of one kind only. -/
theorem unique {kind' : Kind} (h : Vocabulary kind w) (h' : Vocabulary kind' w) :
    kind = kind' := by
  obtain ⟨c, cs, rfl, hhas⟩ := h.shape
  have hhas' := h'.has_of_begins (List.prefix_refl _)
  cases hshape : Shape.ofHead c with
  | mark =>
    rw [hshape] at hhas hhas'
    have hinj : ∀ kind ∈ Kind.punctuators, ∀ kind' ∈ Kind.punctuators,
        kind.spelled = kind'.spelled → kind = kind' := by decide +kernel
    exact hinj kind hhas.1 kind' hhas'.1 (hhas.2.symm.trans hhas'.2)
  | _ =>
    rw [hshape] at hhas hhas'
    exact hhas.2.trans hhas'.2.symm

/-- A lexeme does not begin with a blank. -/
theorem isBlank_head (h : Vocabulary kind w) : w.head?.all Text.isBlank = false := by
  cases h with
  | name hword _ =>
    obtain ⟨c, cs, rfl, hc, -⟩ := hword
    exact isBlank_of_isWordPart (isWordPart_of_isWordStart hc)
  | keyword hkind =>
    obtain ⟨c, cs, hspelled, hc, -⟩ := isWord_spelled hkind
    rw [hspelled]
    exact isBlank_of_isWordPart (isWordPart_of_isWordStart hc)
  | number hnumeral =>
    obtain ⟨d, ds, fs, rfl, hds, -⟩ := hnumeral
    exact isBlank_of_isWordPart (isWordPart_of_isDigit (hds d List.mem_cons_self))
  | string _ => rfl
  | char _ _ _ => rfl
  | charEscape _ => rfl
  | punctuator hkind =>
    have hall : ∀ kind ∈ Kind.punctuators, kind.spelled.head?.all Text.isBlank = false := by decide
    exact hall kind hkind

/-- A literal stands between two quotes, which have one byte each. -/
theorem exists_quotes (h : Vocabulary kind w) (hkind : kind = .string ∨ kind = .char) :
    ∃ quote inner, Char.utf8Size quote = 1 ∧ w = quote :: (inner ++ [quote]) := by
  cases h with
  | @string body _ => exact ⟨'"', body, by decide, rfl⟩
  | @char c => exact ⟨'\'', [c], by decide, rfl⟩
  | @charEscape e => exact ⟨'\'', ['\\', e], by decide, rfl⟩
  | name | number => simp at hkind
  | keyword hmem | punctuator hmem => rcases hkind with rfl | rfl <;> exact absurd hmem (by decide)

theorem ne_unknown (h : Vocabulary kind w) : kind ≠ .unknown := by
  intro hunknown
  subst hunknown
  cases h with
  | keyword hkind => exact absurd hkind (by decide)
  | punctuator hkind => exact absurd hkind (by decide)

/-- The kind of a lexeme is a keyword exactly if the table of keywords has the text. -/
theorem kind_mem_keywords (h : Vocabulary kind w) :
    kind ∈ Kind.keywords ↔ ∃ kind' ∈ Kind.keywords, kind'.spelled = w := by
  constructor
  · intro hkeyword
    cases h with
    | keyword hkind => exact ⟨kind, hkind, rfl⟩
    | punctuator hkind =>
      have hdisjoint : ∀ kind ∈ Kind.punctuators, kind ∉ Kind.keywords := by decide
      exact absurd hkeyword (hdisjoint kind hkind)
    | _ => exact absurd hkeyword (by decide)
  · intro hspelled
    obtain ⟨kind', hkind', rfl⟩ := hspelled
    rw [h.unique (.keyword hkind')]
    exact hkind'

end Vocabulary

end ClassScript

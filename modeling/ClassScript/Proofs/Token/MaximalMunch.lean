import ClassScript.Proofs.Token.Tiling
import ClassScript.Proofs.Token.Vocabulary

/-!
# Maximal munch

The table of rules is tried in order, and the first rule that matches decides. This
takes the longest lexeme at a place all the same (`firstMatch?_token_iff`). The first
character of the text tells the shape of a lexeme there, so only rules of one shape
compete. The patterns of words, numbers and literals take as much as a lexeme of
their shape can have, and among the punctuators longer ones stand first
(`punctuators_sorted`).

`firstMatch?_eq_none_iff` says where no rule matches, and `tokenize_munches` what all
this means for the tokens of a source.
-/

namespace ClassScript

open Lexical Text

/-- Of the lexemes that the text `cs` begins with, `w` is the longest. -/
structure Longest (cs : List Char) (kind : Kind) (w : List Char) : Prop where
  lexeme : Vocabulary kind w
  begins : w <+: cs
  longest : ∀ kind' w', Vocabulary kind' w' → w' <+: cs → w' <+: w

/-- The text begins with a comment. -/
def StartsComment (cs : List Char) : Prop := ['/', '/'] <+: cs ∨ ['/', '*'] <+: cs

/-! ### What the table does, by the first character -/

/-- At a blank all blanks are taken. -/
theorem firstMatch?_blank {c : Char} (hc : isBlank c = true) (cs : List Char) :
    firstMatch? (c :: cs) = some ⟨.gap, c :: cs.takeWhile isBlank, cs.dropWhile isBlank⟩ := by
  simp [firstMatch?, rules, Rule.match?, Pattern.split?, hc]

/-- At the beginning of a comment a gap is taken. -/
theorem firstMatch?_startsComment {cs : List Char} (h : StartsComment cs) :
    ∃ m, firstMatch? cs = some m ∧ m.meaning = .gap := by
  rcases h with ⟨rest, rfl⟩ | ⟨rest, rfl⟩
  · exact ⟨_, rfl, rfl⟩
  · rw [List.cons_append, List.cons_append, List.nil_append, firstMatch?_comment rest]
    cases Pattern.closeComment rest with
    | none => exact ⟨_, rfl, rfl⟩
    | some parts => exact ⟨_, rfl, rfl⟩

/-- At a letter or underscore a word is taken. -/
theorem firstMatch?_word {c : Char} (hc : Pattern.isWordStart c = true) (cs : List Char) :
    firstMatch? (c :: cs) =
      some ⟨.word, c :: cs.takeWhile Pattern.isWordPart, cs.dropWhile Pattern.isWordPart⟩ := by
  have hblank := isBlank_of_isWordPart (isWordPart_of_isWordStart hc)
  have hslash : c ≠ '/' := by rintro rfl; revert hc; decide
  simp [firstMatch?, rules, Rule.match?, Pattern.split?, hblank, hslash, hc]

/-- At a digit a number is taken. -/
theorem firstMatch?_number {c : Char} (hc : c.isDigit = true) (cs : List Char) :
    firstMatch? (c :: cs) = some ⟨.token .number,
      c :: cs.takeWhile Char.isDigit ++ (Pattern.fraction (cs.dropWhile Char.isDigit)).1,
      (Pattern.fraction (cs.dropWhile Char.isDigit)).2⟩ := by
  have hblank := isBlank_of_isWordPart (isWordPart_of_isDigit hc)
  have hslash : c ≠ '/' := by rintro rfl; revert hc; decide
  simp [firstMatch?, rules, Rule.match?, Pattern.split?, hblank, hslash, isWordStart_of_isDigit hc,
    hc, Pattern.prepend]

theorem firstMatch?_string (cs : List Char) :
    firstMatch? ('"' :: cs) = some (match Pattern.closeQuote '"' true cs with
      | some (taken, rest) => ⟨.token .string, '"' :: taken, rest⟩
      | none => ⟨.unterminated '"', ['"'], cs⟩) := by
  have hquoted : (Pattern.quoted '"' true).split? ('"' :: cs) =
      (Pattern.closeQuote '"' true cs).map (Pattern.prepend ['"']) := rfl
  simp only [firstMatch?, rules, List.cons_append, List.findSome?_cons, Rule.match?, hquoted]
  cases Pattern.closeQuote '"' true cs <;> rfl

theorem firstMatch?_char (cs : List Char) :
    firstMatch? ('\'' :: cs) = some (match Pattern.charLiteral.split? ('\'' :: cs) with
      | some (taken, rest) => ⟨.token .char, taken, rest⟩
      | none => match Pattern.closeQuote '\'' false cs with
        | some (taken, rest) => ⟨.invalidChar, '\'' :: taken, rest⟩
        | none => ⟨.unterminated '\'', ['\''], cs⟩) := by
  have hquoted : (Pattern.quoted '\'' false).split? ('\'' :: cs) =
      (Pattern.closeQuote '\'' false cs).map (Pattern.prepend ['\'']) := rfl
  simp only [firstMatch?, rules, List.cons_append, List.findSome?_cons, Rule.match?, hquoted]
  cases Pattern.charLiteral.split? ('\'' :: cs) with
  | some parts => rfl
  | none => cases Pattern.closeQuote '\'' false cs <;> rfl

theorem split?_lineComment_eq_none {cs : List Char} (h : ¬ StartsComment cs) :
    Pattern.lineComment.split? cs = none := by
  cases hsplit : Pattern.lineComment.split? cs with
  | none => rfl
  | some parts =>
    obtain ⟨body, htaken, -⟩ := split?_lineComment hsplit
    have happend := Pattern.split?_append hsplit
    rw [htaken] at happend
    exact absurd (.inl ⟨body ++ parts.2, happend⟩) h

theorem split?_comment_eq_none {cs : List Char} (h : ¬ StartsComment cs) {p : Pattern}
    (hp : p = .blockComment ∨ p = .openComment) : p.split? cs = none := by
  cases hsplit : p.split? cs with
  | none => rfl
  | some parts =>
    obtain ⟨rest, rfl⟩ := split?_comment hp hsplit
    exact absurd (.inr ⟨rest, rfl⟩) h

/-- Where nothing but a punctuator can stand, the punctuators are tried in order. -/
theorem firstMatch?_mark {c : Char} {cs : List Char} (hc : Shape.ofHead c = .mark)
    (hblank : isBlank c = false) (hcomment : ¬ StartsComment (c :: cs)) :
    firstMatch? (c :: cs) =
      Kind.punctuators.findSome? fun kind => (Rule.ofKind kind).match? (c :: cs) := by
  obtain ⟨shape, rfl, hstarts⟩ := Shape.exists_ofHead c
  obtain ⟨hword, hdigit, hquote, hapostrophe⟩ : Shape.Starts .mark c := hc ▸ hstarts
  have hnone : ∀ rule ∈ rules.take 11, rule.match? (c :: cs) = none := by
    simp only [rules, List.cons_append, List.take_succ_cons, List.forall_mem_cons, Rule.match?,
      Option.map_eq_none_iff, split?_lineComment_eq_none hcomment,
      split?_comment_eq_none hcomment (.inl rfl), split?_comment_eq_none hcomment (.inr rfl)]
    simp [Pattern.split?, Pattern.stripText, hblank, hword, hdigit, hquote, hquote.symm,
      hapostrophe, hapostrophe.symm]
  calc firstMatch? (c :: cs)
    _ = (rules.take 11 ++ Kind.punctuators.map Rule.ofKind).findSome? (·.match? (c :: cs)) := rfl
    _ = (Kind.punctuators.map Rule.ofKind).findSome? (·.match? (c :: cs)) := by
      rw [List.findSome?_append, List.findSome?_eq_none_iff.2 hnone, Option.none_or]
    _ = Kind.punctuators.findSome? fun kind => (Rule.ofKind kind).match? (c :: cs) :=
      List.findSome?_map

/-! ### Punctuators -/

theorem stripText_append (text rest : List Char) :
    Pattern.stripText text (text ++ rest) = some (text, rest) := by
  induction text with
  | nil => rfl
  | cons t text ih => simp [Pattern.stripText, ih, Pattern.prepend]

/-- A punctuator is taken as it is spelled. -/
theorem match?_ofKind {kind : Kind} {cs : List Char} {m : Match}
    (h : (Rule.ofKind kind).match? cs = some m) :
    m.meaning = .token kind ∧ m.taken = kind.spelled ∧ m.taken <+: cs := by
  obtain ⟨⟨taken, rest⟩, hsplit, rfl⟩ := Option.map_eq_some_iff.1 h
  have hbegins : taken <+: cs := ⟨rest, Pattern.split?_append hsplit⟩
  unfold Rule.ofKind Pattern.split? at hsplit
  split at hsplit
  any_goals contradiction
  rename_i hpattern
  have hspelled : kind.spelled = _ := Pattern.exact.inj hpattern
  exact ⟨rfl, (Pattern.stripText_eq hsplit).1.trans hspelled.symm, hbegins⟩

theorem match?_ofKind_append {kind : Kind} (h : kind ∈ Kind.punctuators) (rest : List Char) :
    (Rule.ofKind kind).match? (kind.spelled ++ rest) = some ⟨.token kind, kind.spelled, rest⟩ := by
  obtain ⟨c, cs, hspelled, -⟩ := Shape.ofHead_punctuator h
  have hstrip := stripText_append kind.spelled rest
  have hrule : Rule.ofKind kind = ⟨.exact kind.spelled, .token kind⟩ := rfl
  rw [hrule, Rule.match?]
  rw [hspelled] at hstrip ⊢
  rw [Pattern.split?, hstrip]
  rfl

/-- No punctuator stands before a longer one. -/
theorem punctuators_sorted :
    Kind.punctuators.Pairwise fun a b => b.spelled.length ≤ a.spelled.length := by
  decide

example : Kind.punctuators.map (·.spelled.length) = List.replicate 15 2 ++ List.replicate 20 1 := by
  decide

/-- Where longer punctuators are tried first, the first that matches is the longest. -/
theorem length_le_of_findSome? {kinds : List Kind} {cs : List Char} {m : Match}
    (hkinds : ∀ kind ∈ kinds, kind ∈ Kind.punctuators)
    (hsorted : kinds.Pairwise fun a b => b.spelled.length ≤ a.spelled.length)
    (h : kinds.findSome? (fun kind => (Rule.ofKind kind).match? cs) = some m) :
    ∀ kind ∈ kinds, kind.spelled <+: cs → kind.spelled.length ≤ m.taken.length := by
  induction kinds with
  | nil => cases h
  | cons k kinds ih =>
    obtain ⟨hk, hkinds⟩ := List.forall_mem_cons.1 hkinds
    obtain ⟨hle, hsorted⟩ := List.pairwise_cons.1 hsorted
    rw [List.findSome?_cons] at h
    rw [List.forall_mem_cons]
    cases hmatch : (Rule.ofKind k).match? cs with
    | some m' =>
      rw [hmatch] at h
      obtain rfl : m' = m := Option.some.inj h
      rw [(match?_ofKind hmatch).2.1]
      exact ⟨fun _ => Nat.le_refl _, fun kind hkind _ => hle kind hkind⟩
    | none =>
      rw [hmatch] at h
      have hnot : ¬ k.spelled <+: cs := by
        intro hbegins
        obtain ⟨rest, rfl⟩ := hbegins
        rw [match?_ofKind_append hk rest] at hmatch
        cases hmatch
      exact ⟨fun hbegins => absurd hbegins hnot, ih hkinds hsorted h⟩

/-! ### The longest lexeme of each shape -/

/-- A lexeme is the longest if it is the longest of its shape. -/
theorem Longest.of_shape {c : Char} {cs w : List Char} {kind : Kind} (hlexeme : Vocabulary kind w)
    (hbegins : w <+: c :: cs)
    (h : ∀ kind' w', (Shape.ofHead c).Has kind' w' → w' <+: c :: cs → w' <+: w) :
    Longest (c :: cs) kind w :=
  ⟨hlexeme, hbegins, fun kind' w' h' hbegins' => h kind' w' (h'.has_of_begins hbegins') hbegins'⟩

/-- All characters are taken that a word can have. -/
theorem longest_word {c : Char} (hc : Pattern.isWordStart c = true) (cs : List Char) :
    Longest (c :: cs) (.ofWord (String.ofList (c :: cs.takeWhile Pattern.isWordPart)))
      (c :: cs.takeWhile Pattern.isWordPart) := by
  have hword : IsWord (c :: cs.takeWhile Pattern.isWordPart) :=
    isWord_cons c _ hc List.all_takeWhile
  have hbegins : c :: cs.takeWhile Pattern.isWordPart <+: c :: cs :=
    List.cons_prefix_cons.2 ⟨rfl, List.takeWhile_prefix _⟩
  apply Longest.of_shape (vocabulary_ofWord hword) hbegins
  rw [Shape.ofHead_of_isWordStart hc]
  intro kind w hw hbegins'
  obtain ⟨⟨d, ds, rfl, -, hds⟩, -⟩ := hw
  obtain ⟨rfl, rest, rfl⟩ := List.cons_prefix_cons.1 hbegins'
  rw [List.takeWhile_append_of_pos hds]
  exact List.prefix_append (d :: ds) _

/-- A point is part of a number only if a digit follows it. -/
theorem longest_number {c : Char} (hc : c.isDigit = true) (cs : List Char) :
    Longest (c :: cs) .number
      (c :: cs.takeWhile Char.isDigit ++ (Pattern.fraction (cs.dropWhile Char.isDigit)).1) := by
  have hdigits : ∀ d ∈ cs.takeWhile Char.isDigit, d.isDigit = true :=
    List.all_eq_true.1 List.all_takeWhile
  have hnumeral : IsNumeral
      (c :: cs.takeWhile Char.isDigit ++ (Pattern.fraction (cs.dropWhile Char.isDigit)).1) :=
    ⟨c, _, _, rfl, List.forall_mem_cons.2 ⟨hc, hdigits⟩, fraction_eq _⟩
  apply Longest.of_shape (.number hnumeral)
  · exact ⟨_, by rw [List.append_assoc, Pattern.fraction_append]; simp⟩
  · rw [Shape.ofHead_of_isDigit hc]
    intro kind w hw
    exact numeral_begins hw.1

/-- A string ends with its first quote that is not escaped. -/
theorem longest_string {cs taken rest : List Char}
    (h : Pattern.closeQuote '"' true cs = some (taken, rest)) :
    Longest ('"' :: cs) .string ('"' :: taken) := by
  have happend := Pattern.closeQuote_append h
  obtain ⟨body, hbody, rfl⟩ := quotedBody_of_closeQuote h
  apply Longest.of_shape (.string hbody)
  · rw [← happend]
    exact List.prefix_append ('"' :: (body ++ ['"'])) rest
  · intro kind w hw hbegins
    obtain ⟨⟨body', hbody', rfl⟩, -⟩ := hw
    obtain ⟨rest', hrest'⟩ := hbegins
    -- Both bodies end at the first quote that no backslash escapes.
    have hcs : body' ++ '"' :: rest' = cs := by simpa using hrest'
    rw [← hcs, closeQuote_body (by decide) hbody'] at h
    obtain ⟨hsame, -⟩ := Prod.mk.inj (Option.some.inj h)
    simp [hsame]

theorem longest_char {cs taken rest : List Char}
    (h : Pattern.charLiteral.split? ('\'' :: cs) = some (taken, rest)) :
    Longest ('\'' :: cs) .char taken := by
  apply Longest.of_shape (vocabulary_charLiteral h)
  · exact ⟨rest, Pattern.split?_append h⟩
  · intro kind w hw hbegins
    obtain ⟨rest', hrest'⟩ := hbegins
    rw [← hrest', charLiteral_append hw.1] at h
    obtain ⟨hsame, -⟩ := Prod.mk.inj (Option.some.inj h)
    simp [hsame]

/-- Longer punctuators are tried first. -/
theorem longest_mark {c : Char} {cs : List Char} {m : Match} (hc : Shape.ofHead c = .mark)
    (h : Kind.punctuators.findSome? (fun kind => (Rule.ofKind kind).match? (c :: cs)) = some m) :
    ∃ kind, m.meaning = .token kind ∧ Longest (c :: cs) kind m.taken := by
  obtain ⟨kind, hkind, hmatch⟩ := List.exists_of_findSome?_eq_some h
  obtain ⟨hmeaning, htaken, hbegins⟩ := match?_ofKind hmatch
  have hlexeme : Vocabulary kind m.taken := htaken ▸ .punctuator hkind
  have hlongest : ∀ kind' w, Shape.mark.Has kind' w → w <+: c :: cs → w <+: m.taken := by
    intro kind' w hw hbegins'
    obtain ⟨hkind', rfl⟩ := hw
    have hle := length_le_of_findSome? (fun _ => id) punctuators_sorted h kind' hkind' hbegins'
    exact List.prefix_of_prefix_length_le hbegins' hbegins hle
  exact ⟨kind, hmeaning, .of_shape hlexeme hbegins (hc ▸ hlongest)⟩

/-! ### The table takes the longest lexeme -/

/-- What the table takes as a token is the longest lexeme, and no comment. -/
theorem longest_of_firstMatch? {cs : List Char} {m : Match} {kind : Kind}
    (hm : firstMatch? cs = some m) (hkind : m.kind? = some kind) :
    ¬ StartsComment cs ∧ Longest cs kind m.taken := by
  have hcomment : ¬ StartsComment cs := by
    intro h
    obtain ⟨m', hm', hgap⟩ := firstMatch?_startsComment h
    obtain rfl : m' = m := Option.some.inj (hm'.symm.trans hm)
    simp [Match.kind?, hgap] at hkind
  cases cs with
  | nil => cases hm
  | cons c cs =>
    by_cases hblank : isBlank c = true
    · rw [firstMatch?_blank hblank] at hm
      cases hm
      cases hkind
    obtain ⟨shape, hshape, hstarts⟩ := Shape.exists_ofHead c
    constructor
    · exact hcomment
    cases shape with
    | word =>
      rw [firstMatch?_word hstarts] at hm
      cases hm
      cases hkind
      exact longest_word hstarts cs
    | number =>
      rw [firstMatch?_number hstarts] at hm
      cases hm
      cases hkind
      exact longest_number hstarts cs
    | string =>
      obtain rfl : c = '"' := hstarts
      rw [firstMatch?_string] at hm
      cases hclose : Pattern.closeQuote '"' true cs with
      | some parts =>
        rw [hclose] at hm
        cases hm
        cases hkind
        exact longest_string hclose
      | none =>
        rw [hclose] at hm
        cases hm
        cases hkind
    | char =>
      obtain rfl : c = '\'' := hstarts
      rw [firstMatch?_char] at hm
      cases hsplit : Pattern.charLiteral.split? ('\'' :: cs) with
      | some parts =>
        rw [hsplit] at hm
        cases hm
        cases hkind
        exact longest_char hsplit
      | none =>
        rw [hsplit] at hm
        cases hclose : Pattern.closeQuote '\'' false cs <;> rw [hclose] at hm <;> cases hm <;>
          cases hkind
    | mark =>
      rw [firstMatch?_mark hshape (Bool.eq_false_iff.2 hblank) hcomment] at hm
      obtain ⟨kind', hmeaning, hlongest⟩ := longest_mark hshape hm
      simp only [Match.kind?, hmeaning, Option.some.injEq] at hkind
      exact hkind ▸ hlongest

/-- Where a lexeme stands, and no comment, the table takes a token. -/
theorem exists_firstMatch?_of_begins {cs w : List Char} {kind : Kind}
    (hcomment : ¬ StartsComment cs) (h : Vocabulary kind w) (hbegins : w <+: cs) :
    ∃ m kind', firstMatch? cs = some m ∧ m.kind? = some kind' := by
  obtain ⟨rest, rfl⟩ := hbegins
  obtain ⟨c, ds, rfl, hhas⟩ := h.shape
  have hblank : isBlank c = false := h.isBlank_head
  obtain ⟨shape, hshape, hstarts⟩ := Shape.exists_ofHead c
  rw [hshape] at hhas
  rw [List.cons_append] at hcomment ⊢
  cases shape with
  | word => exact ⟨_, _, firstMatch?_word hstarts (ds ++ rest), rfl⟩
  | number => exact ⟨_, _, firstMatch?_number hstarts (ds ++ rest), rfl⟩
  | string =>
    obtain ⟨⟨body, hbody, heq⟩, -⟩ := hhas
    obtain ⟨rfl, rfl⟩ := List.cons.inj heq
    have hmatch := firstMatch?_string (body ++ '"' :: rest)
    rw [closeQuote_body (by decide) hbody rest] at hmatch
    exact ⟨_, .string, by simpa using hmatch, rfl⟩
  | char =>
    obtain rfl : c = '\'' := hstarts
    have hsplit := charLiteral_append hhas.1 rest
    have hmatch := firstMatch?_char (ds ++ rest)
    rw [List.cons_append] at hsplit
    rw [hsplit] at hmatch
    exact ⟨_, .char, hmatch, rfl⟩
  | mark =>
    obtain ⟨hkind, heq⟩ := hhas
    have hsome : (Kind.punctuators.findSome? fun kind =>
        (Rule.ofKind kind).match? (c :: (ds ++ rest))).isSome = true := by
      rw [List.findSome?_isSome_iff, ← List.cons_append, heq]
      exact ⟨kind, hkind, by rw [match?_ofKind_append hkind rest]; rfl⟩
    obtain ⟨m, hm⟩ := Option.isSome_iff_exists.1 hsome
    obtain ⟨kind', hmeaning, -⟩ := longest_mark hshape hm
    rw [← firstMatch?_mark hshape hblank hcomment] at hm
    exact ⟨m, kind', hm, by simp [Match.kind?, hmeaning]⟩

/-- The table takes a text as a token of a kind exactly if it is the longest lexeme at
the place, and no comment begins there. -/
theorem firstMatch?_token_iff {cs w : List Char} {kind : Kind} :
    (∃ m, firstMatch? cs = some m ∧ m.kind? = some kind ∧ m.taken = w) ↔
      ¬ StartsComment cs ∧ Longest cs kind w := by
  constructor
  · intro h
    obtain ⟨m, hm, hkind, rfl⟩ := h
    exact longest_of_firstMatch? hm hkind
  · intro h
    obtain ⟨hcomment, hlongest⟩ := h
    obtain ⟨m, kind', hm, hkind⟩ :=
      exists_firstMatch?_of_begins hcomment hlongest.lexeme hlongest.begins
    obtain ⟨-, hlongest'⟩ := longest_of_firstMatch? hm hkind
    -- Both are longest, so they are one text, and a text has one kind.
    have hle := (hlongest.longest _ _ hlongest'.lexeme hlongest'.begins).length_le
    have htaken : w = m.taken :=
      (hlongest'.longest _ _ hlongest.lexeme hlongest.begins).eq_of_length_le hle
    subst htaken
    exact ⟨m, hm, hlongest.lexeme.unique hlongest'.lexeme ▸ hkind, rfl⟩

/-- No rule matches exactly where neither a gap nor a quote nor a lexeme stands. -/
theorem firstMatch?_eq_none_iff {c : Char} {cs : List Char} :
    firstMatch? (c :: cs) = none ↔ isBlank c = false ∧ ¬ StartsComment (c :: cs) ∧
      c ≠ '"' ∧ c ≠ '\'' ∧ ∀ kind w, Vocabulary kind w → ¬ w <+: c :: cs := by
  constructor
  · intro hnone
    have hno : ∀ {m}, firstMatch? (c :: cs) ≠ some m := by simp [hnone]
    have hblank : isBlank c = false := Bool.eq_false_iff.2 fun h => hno (firstMatch?_blank h cs)
    have hcomment : ¬ StartsComment (c :: cs) := by
      intro h
      obtain ⟨m, hm, -⟩ := firstMatch?_startsComment h
      exact hno hm
    have hlexeme : ∀ kind w, Vocabulary kind w → ¬ w <+: c :: cs := by
      intro kind w hw hbegins
      obtain ⟨m, kind', hm, -⟩ := exists_firstMatch?_of_begins hcomment hw hbegins
      exact hno hm
    have hquote : c ≠ '"' := fun h => hno (h ▸ firstMatch?_string cs)
    have hapostrophe : c ≠ '\'' := fun h => hno (h ▸ firstMatch?_char cs)
    exact ⟨hblank, hcomment, hquote, hapostrophe, hlexeme⟩
  · intro h
    obtain ⟨hblank, hcomment, hquote, hapostrophe, hnone⟩ := h
    have hnot : ∀ {kind w}, ¬ Longest (c :: cs) kind w :=
      fun hlongest => hnone _ _ hlongest.lexeme hlongest.begins
    obtain ⟨shape, hshape, hstarts⟩ := Shape.exists_ofHead c
    cases shape with
    | word => exact absurd (longest_word hstarts cs) hnot
    | number => exact absurd (longest_number hstarts cs) hnot
    | string => exact absurd hstarts hquote
    | char => exact absurd hstarts hapostrophe
    | mark =>
      rw [firstMatch?_mark hshape hblank hcomment]
      cases hfind : Kind.punctuators.findSome? fun kind => (Rule.ofKind kind).match? (c :: cs) with
      | none => rfl
      | some m =>
        obtain ⟨kind, -, hlongest⟩ := longest_mark hshape hfind
        exact absurd hlongest hnot

/-! ### The tokens of a source -/

/-- What maximal munch asks of a token, where `rest` is the text from its start on. -/
structure Munches (rest : List Char) (t : Token) : Prop where
  noComment : ¬ StartsComment rest
  /-- A known token is the longest lexeme at its place. -/
  longest : t.kind ≠ .unknown → Longest rest t.kind t.text.toList
  /-- It is a lexeme of no other kind. -/
  kind : t.kind ≠ .unknown → ∀ kind, Vocabulary kind t.text.toList → kind = t.kind
  /-- It is a keyword exactly if the table of keywords has its text. -/
  keyword : t.kind ≠ .unknown →
    (t.kind ∈ Kind.keywords ↔ ∃ kind ∈ Kind.keywords, kind.spelling? = some t.text)
  /-- An unknown token is one character, and no lexeme stands at its place. -/
  unknown : t.kind = .unknown →
    (∃ c, t.text.toList = [c] ∧ rest.head? = some c) ∧
      ∀ kind w, Vocabulary kind w → ¬ w <+: rest

/-- A matched token is what maximal munch asks for. -/
theorem munches_token {cs : List Char} {m : Match} {kind : Kind} (hm : firstMatch? cs = some m)
    (hkind : m.kind? = some kind) (span : Span) :
    Munches cs ⟨kind, String.ofList m.taken, span⟩ := by
  obtain ⟨hcomment, hlongest⟩ := longest_of_firstMatch? hm hkind
  have hkeyword : kind ∈ Kind.keywords ↔
      ∃ kind' ∈ Kind.keywords, kind'.spelling? = some (String.ofList m.taken) := by
    rw [hlongest.lexeme.kind_mem_keywords]
    constructor
    · intro h
      obtain ⟨kind', hkind', hspelled⟩ := h
      exact ⟨kind', hkind', hspelled ▸ spelling?_keyword kind' hkind'⟩
    · intro h
      obtain ⟨kind', hkind', hspelling⟩ := h
      exact ⟨kind', hkind', by simp [Kind.spelled, hspelling]⟩
  constructor
  · exact hcomment
  · intro _
    simpa using hlongest
  · intro _ kind' hkind'
    rw [String.toList_ofList] at hkind'
    exact hkind'.unique hlongest.lexeme
  · exact fun _ => hkeyword
  · exact fun hunknown => absurd hunknown hlongest.lexeme.ne_unknown

/-- A character that nothing matches begins no lexeme. -/
theorem munches_unknown {c : Char} {cs : List Char} (h : firstMatch? (c :: cs) = none)
    (span : Span) : Munches (c :: cs) ⟨.unknown, c.toString, span⟩ := by
  obtain ⟨-, hcomment, -, -, hnone⟩ := firstMatch?_eq_none_iff.1 h
  constructor
  · exact hcomment
  · exact fun hne => absurd rfl hne
  · exact fun hne => absurd rfl hne
  · exact fun hne => absurd rfl hne
  · exact fun _ => ⟨⟨c, by simp, rfl⟩, hnone⟩

/-- The token stands in the text `cs` from `p` on, and munches what is there. -/
def MunchesIn (p : Position) (cs : List Char) (t : Token) : Prop :=
  ∃ front rest, front ++ rest = cs ∧ p.offset + byteLength front = t.span.start.offset ∧
    Munches rest t

theorem MunchesIn.head {p stop : Position} {cs : List Char} {kind : Kind} {text : String}
    (h : Munches cs ⟨kind, text, ⟨p, stop⟩⟩) : MunchesIn p cs ⟨kind, text, ⟨p, stop⟩⟩ :=
  ⟨[], cs, rfl, rfl, h⟩

theorem MunchesIn.after {p : Position} {taken cs : List Char} {t : Token}
    (h : MunchesIn (p.after taken) cs t) : MunchesIn p (taken ++ cs) t := by
  obtain ⟨front, rest, rfl, hoffset, hmunches⟩ := h
  rw [offset_after] at hoffset
  have hfront : p.offset + byteLength (taken ++ front) = t.span.start.offset := by
    rw [byteLength_append, ← hoffset, Nat.add_assoc]
  exact ⟨taken ++ front, rest, List.append_assoc taken front rest, hfront, hmunches⟩

/-- Every token of a scan munches the text from its start on. -/
theorem Lexes.munches {p : Position} {cs : List Char} {ts : List Token} (h : Lexes p cs ts) :
    ∀ t ∈ ts, t.kind ≠ .eof → MunchesIn p cs t := by
  induction h with
  | done p =>
    intro t ht hne
    obtain rfl := List.mem_singleton.1 ht
    exact absurd rfl hne
  | @unknown p c cs ts hnone _ ih =>
    intro t ht hne
    rcases List.mem_cons.1 ht with rfl | ht
    · exact .head (munches_unknown hnone _)
    · have hin : MunchesIn (p.after [c]) cs t := ih t ht hne
      exact hin.after
  | @gap p cs m ts hm _ _ ih =>
    intro t ht hne
    rw [← firstMatch?_append hm]
    exact (ih t ht hne).after
  | @token p cs m kind ts hm hkind _ ih =>
    intro t ht hne
    rcases List.mem_cons.1 ht with rfl | ht
    · exact .head (munches_token hm hkind _)
    · rw [← firstMatch?_append hm]
      exact (ih t ht hne).after

/-- The tokens of a source are lexemes. -/
theorem vocabulary_of_tokenize {source : String} {tokens : List Token}
    (h : tokenize source = .ok tokens) {t : Token} (ht : t ∈ tokens) (heof : t.kind ≠ .eof)
    (hunknown : t.kind ≠ .unknown) : Vocabulary t.kind t.text.toList := by
  obtain ⟨front, rest, -, -, hmunches⟩ := (Lexes.of_tokensFrom h).munches t ht heof
  exact (hmunches.longest hunknown).lexeme

/-- The quotes of the literals of a source can be taken off. -/
theorem literalValue?_of_tokenize {source : String} {tokens : List Token}
    (h : tokenize source = .ok tokens) {t : Token} (ht : t ∈ tokens)
    (hkind : t.kind = .string ∨ t.kind = .char) :
    ∃ value, Escape.literalValue? t.text = some value := by
  have hvocabulary := vocabulary_of_tokenize h ht (by grind) (by grind)
  obtain ⟨quote, inner, hquote, htext⟩ := hvocabulary.exists_quotes hkind
  exact ⟨_, Escape.literalValue?_of_quotes inner hquote htext⟩

/-- At the start of every token of a source stands no comment. A known token is the
longest lexeme there, and where an unknown one stands there is none. -/
theorem tokenize_munches {source : String} {tokens : List Token}
    (h : tokenize source = .ok tokens) :
    ∀ t ∈ tokens, t.kind ≠ .eof → ∃ front rest,
      splitAtByte? t.span.start.offset source.toList = some (front, rest) ∧ Munches rest t := by
  intro t ht hne
  obtain ⟨front, rest, happend, hoffset, hmunches⟩ := (Lexes.of_tokensFrom h).munches t ht hne
  have hstart : byteLength front = t.span.start.offset := by
    rw [← hoffset]
    exact (Nat.zero_add _).symm
  exact ⟨front, rest, by rw [← hstart, ← happend, splitAtByte?_append], hmunches⟩

/-- Three plus signs are an increment and a sum, a second point ends a number, and a
single ampersand is unknown. -/
theorem tokenize_munches_plusPlus :
    ∃ tokens t, tokenize "é+++1.5.x&'\\''" = .ok tokens ∧
      tokens.map (·.text) = ["é", "++", "+", "1.5", ".", "x", "&", "'\\''", "EOF"] ∧
      t ∈ tokens ∧ t.lexeme = .ofKind .plusPlus ∧ t.kind ≠ .eof ∧
      ∃ front rest, splitAtByte? t.span.start.offset "é+++1.5.x&'\\''".toList = some (front, rest) ∧
        Munches rest t := by
  have hchars : "é+++1.5.x&'\\''".toList =
      ['é', '+', '+', '+', '1', '.', '5', '.', 'x', '&', '\'', '\\', '\'', '\''] := rfl
  have hlexes : ∃ tokens, Lexes .start "é+++1.5.x&'\\''".toList tokens ∧
      tokens.map (·.text) = ["é", "++", "+", "1.5", ".", "x", "&", "'\\''", "EOF"] ∧
      ∃ t ∈ tokens, t.lexeme = .ofKind .plusPlus ∧ t.kind ≠ .eof := by
    rw [hchars]
    exact ⟨_, .unknown rfl (.token rfl rfl (.token rfl rfl (.token rfl rfl (.token rfl rfl
      (.token rfl rfl (.unknown rfl (.token rfl rfl (.done _)))))))), rfl,
      _, List.mem_cons_of_mem _ List.mem_cons_self, rfl, by decide⟩
  obtain ⟨tokens, hlexes, htexts, t, ht, hlexeme, hne⟩ := hlexes
  exact ⟨tokens, t, hlexes.tokensFrom_eq, htexts, ht, hlexeme, hne,
    tokenize_munches hlexes.tokensFrom_eq t ht hne⟩

end ClassScript

import ClassScript.Proofs.Text.WholeWords
import ClassScript.Proofs.Token.MaximalMunch

/-!
# The characters beside a word

Two tokens that follow one another have at most a gap between them (`Tiles.neighbours`). A gap
begins and ends with a blank or the mark of a comment, a punctuator has no word characters, and
a word takes all that could belong to it. So a word of a source stands whole between its
neighbours, if these are words or punctuators.
-/

namespace ClassScript

open Lexical Text

variable {inWord : Char → Bool}

/-! ### The ends of a gap -/

/-- A gap begins with a blank or a slash. -/
theorem Gap.head?_not_word (hclass : WordClass inWord) {gap rest : List Char} (h : Gap gap rest) :
    ∀ c ∈ gap.head?, inWord c = false := by
  have hslash : ∀ c ∈ some '/', inWord c = false := by
    rintro _ ⟨⟩
    exact hclass.slash
  cases h with
  | nil => exact nofun
  | @blanks run cs _ hne hblank =>
    obtain ⟨d, run, rfl⟩ := List.exists_cons_of_ne_nil hne
    rintro _ ⟨⟩
    exact hclass.blank d (hblank d List.mem_cons_self)
  | lineComment | blockComment | openComment => exact hslash

theorem mem_getLast?_append {c : Char} {a b : List Char} (h : c ∈ (a ++ b).getLast?) :
    c ∈ b.getLast? ∨ b = [] ∧ c ∈ a.getLast? := by
  cases b with
  | nil => exact .inr ⟨rfl, by rwa [List.append_nil] at h⟩
  | cons d b =>
    rw [List.getLast?_append, List.getLast?_cons, Option.some_or, ← List.getLast?_cons] at h
    exact .inl h

/-- A line comment before a token ends with its line. -/
theorem Gap.getLast?_not_word (hclass : WordClass inWord) {gap rest : List Char}
    (h : Gap gap rest) (hne : rest ≠ []) (hline : rest.head? ≠ some '\n') :
    ∀ c ∈ gap.getLast?, inWord c = false := by
  induction h with
  | nil => exact nofun
  | blanks _ hblank _ ih =>
    intro c hc
    rcases mem_getLast?_append hc with hc | ⟨-, hc⟩
    · exact ih hne hline c hc
    · exact hclass.blank c (hblank c (List.mem_of_getLast? hc))
  | lineComment _ hend _ ih =>
    intro c hc
    rcases mem_getLast?_append hc with hc | ⟨rfl, -⟩
    · exact ih hne hline c hc
    · rcases hend with hnil | hfeed
      · exact absurd hnil hne
      · exact absurd hfeed hline
  | blockComment _ _ ih =>
    intro c hc
    rcases mem_getLast?_append hc with hc | ⟨-, hc⟩
    · exact ih hne hline c hc
    · rw [List.getLast?_append] at hc
      obtain rfl : '/' = c := Option.some.inj hc
      exact hclass.slash
  | openComment => exact absurd rfl hne

/-! ### Words take all they can -/

/-- Is a token of this kind a word? -/
def Kind.isWord (kind : Kind) : Bool := kind = .identifier || Kind.keywords.contains kind

/-- Is a token of this kind a punctuator? -/
def Kind.isPunctuator (kind : Kind) : Bool := Kind.punctuators.contains kind

/-- Is a token of this kind a word or a punctuator? -/
def Kind.isSpelled (kind : Kind) : Bool := kind.isWord || kind.isPunctuator

/-- Keywords are words too. -/
theorem isWord_of_vocabulary {kind : Kind} {w : List Char} (h : Vocabulary kind w)
    (hkind : kind.isWord = true) : IsWord w := by
  cases h with
  | name hw _ => exact hw
  | keyword hmem => exact isWord_spelled hmem
  | number | string | char | charEscape => cases hkind
  | punctuator hmem =>
    have hnot : ∀ kind ∈ Kind.punctuators, ¬ kind.isWord = true := by decide
    exact absurd hkind (hnot kind hmem)

/-- Keywords and punctuators have one spelling. -/
theorem eq_spelled_of_vocabulary {kind : Kind} {w : List Char} (h : Vocabulary kind w)
    (hkind : kind ∈ Kind.keywords ++ Kind.punctuators) : w = kind.spelled := by
  cases h with
  | name | number | string | char | charEscape => exact absurd hkind (by decide)
  | keyword | punctuator => rfl

/-- No character of a punctuator is one of a word. -/
theorem not_word_of_vocabulary (hclass : WordClass inWord) {kind : Kind} {w : List Char}
    (h : Vocabulary kind w) (hkind : kind.isPunctuator = true) :
    w ≠ [] ∧ ∀ c ∈ w, inWord c = false := by
  have hmem : kind ∈ Kind.punctuators := List.contains_iff_mem.1 hkind
  have hne : ∀ kind ∈ Kind.punctuators, kind.spelled ≠ [] := by decide
  rw [eq_spelled_of_vocabulary h (List.mem_append_right _ hmem)]
  exact ⟨hne kind hmem, hclass.punctuator kind hmem⟩

theorem IsWord.ne_nil {w : List Char} (h : IsWord w) : w ≠ [] := by
  obtain ⟨c, rest, rfl, -, -⟩ := h
  exact List.cons_ne_nil c rest

theorem IsWord.isWordPart {w : List Char} (h : IsWord w) :
    ∀ c ∈ w, Pattern.isWordPart c = true := by
  obtain ⟨c, rest, rfl, hc, hrest⟩ := h
  exact List.forall_mem_cons.2 ⟨isWordPart_of_isWordStart hc, hrest⟩

/-- A word goes on with any character of words. -/
theorem IsWord.concat {w : List Char} (h : IsWord w) {c : Char}
    (hc : Pattern.isWordPart c = true) : IsWord (w ++ [c]) := by
  obtain ⟨d, rest, rfl, hd, hrest⟩ := h
  refine ⟨d, rest ++ [c], rfl, hd, fun e he => ?_⟩
  rcases List.mem_append.1 he with he | he
  · exact hrest e he
  · rwa [List.mem_singleton.1 he]

/-- A word is the longest lexeme at its place, so nothing of a word follows. -/
theorem Longest.not_word_next {kind : Kind} {w rest : List Char} (h : Longest (w ++ rest) kind w)
    (hw : IsWord w) : ∀ c ∈ rest.head?, Pattern.isWordPart c = false := by
  intro c hc
  refine Bool.eq_false_iff.2 fun hpart => ?_
  obtain ⟨rest, rfl⟩ := List.head?_eq_some_iff.1 hc
  have hlonger := h.longest _ _ (vocabulary_ofWord (hw.concat hpart)) ⟨rest, by simp⟩
  have hlength := hlonger.length_le
  rw [List.length_append, List.length_singleton] at hlength
  omega

/-! ### Neighbours -/

/-- The gap between two tokens that follow one another. -/
theorem Tiles.neighbours {o : Nat} {cs : List Char} {ts us vs : List Token} {t u : Token}
    (h : Tiles o cs ts) (hts : ts = us ++ t :: u :: vs) :
    ∃ front gap rest, cs = front ++ (t.text.toList ++ (gap ++ (u.written ++ rest))) ∧
      t.kind ≠ .eof ∧ t.span.start.offset = o + byteLength front ∧
      t.span.stop.offset = t.span.start.offset + byteLength t.text.toList ∧
      u.span.start.offset = t.span.stop.offset + byteLength gap ∧ Gap gap (u.written ++ rest) := by
  induction h generalizing us with
  | stop =>
    have := congrArg List.length hts
    simp at this
    omega
  | @token o gap rest t' ts _ hkind _ hstart hstop hrest ih =>
    cases us with
    | nil =>
      obtain ⟨rfl, rfl⟩ := List.cons.inj hts
      cases hrest with
      | stop hgap hkind' _ hoffset =>
        have hwritten : u.written = [] := if_pos hkind'
        refine ⟨gap, rest, [], ?_, hkind, hstart, hstop, hoffset, ?_⟩
        · rw [hwritten, List.append_nil, List.append_nil]
        · rwa [hwritten]
      | @token _ gap' rest' _ _ hgap hkind' _ hoffset =>
        have hwritten : u.written = u.text.toList := if_neg hkind'
        refine ⟨gap, gap', rest', ?_, hkind, hstart, hstop, hoffset, ?_⟩
        · rw [hwritten]
        · rwa [hwritten]
    | cons v us =>
      obtain ⟨rfl, htail⟩ := List.cons.inj hts
      obtain ⟨front, gap', rest', rfl, heof, hstart', hrest'⟩ := ih htail
      refine ⟨gap ++ (t'.text.toList ++ front), gap', rest', by simp, heof, ?_, hrest'⟩
      rw [hstart', hstop, hstart, byteLength_append, byteLength_append]
      omega

theorem vocabulary_of_isSpelled {source : String} {tokens : List Token}
    (h : tokenize source = .ok tokens) {t : Token} (ht : t ∈ tokens)
    (hkind : t.kind.isSpelled = true) :
    t.written = t.text.toList ∧ Vocabulary t.kind t.text.toList := by
  have heof : t.kind ≠ .eof := fun heof => absurd (heof ▸ hkind) (by decide)
  have hunknown : t.kind ≠ .unknown := fun hunknown => absurd (hunknown ▸ hkind) (by decide)
  obtain ⟨_, _, -, hmunches⟩ := tokenize_munches h t ht heof
  exact ⟨if_neg heof, (hmunches.longest hunknown).lexeme⟩

section

variable {source : String} {tokens us vs : List Token} {t u : Token}
  (h : tokenize source = .ok tokens) (htokens : tokens = us ++ t :: u :: vs)

include h htokens

/-- Two tokens in a row, with the text before, between and behind them. -/
theorem exists_neighbours : ∃ front gap rest,
    source.toList = front ++ (t.text.toList ++ (gap ++ (u.written ++ rest))) ∧
    t.span.start.offset = byteLength front ∧
    t.span.stop.offset = byteLength (front ++ t.text.toList) ∧
    u.span.start.offset = byteLength (front ++ (t.text.toList ++ gap)) ∧
    Gap gap (u.written ++ rest) ∧
    (t.kind ≠ .unknown → Longest (t.text.toList ++ (gap ++ (u.written ++ rest))) t.kind
      t.text.toList) := by
  have htiles : Tiles 0 source.toList tokens := (Lexes.of_tokensFrom h).tiles
  obtain ⟨front, gap, rest, hsource, heof, hstart, hstop, hnext, hgap⟩ := htiles.neighbours htokens
  rw [Nat.zero_add] at hstart
  refine ⟨front, gap, rest, hsource, hstart, ?_, ?_, hgap, ?_⟩
  · rw [hstop, hstart, byteLength_append]
  · rw [hnext, hstop, hstart, byteLength_append, byteLength_append, Nat.add_assoc]
  · obtain ⟨front', rest', hsplit, hmunches⟩ := tokenize_munches h t (by simp [htokens]) heof
    rw [hstart, hsource, splitAtByte?_append] at hsplit
    cases hsplit
    exact hmunches.longest

/-- Neither a gap nor a punctuator goes on with a word before it. -/
theorem not_word_after (hclass : WordClass inWord) (hu : u.kind.isPunctuator = true) :
    ∃ before after, source.toList = before ++ (t.text.toList ++ after) ∧
      t.span.start.offset = byteLength before ∧
      t.span.stop.offset = byteLength (before ++ t.text.toList) ∧
      ∀ c ∈ after.head?, inWord c = false := by
  obtain ⟨front, gap, rest, hsource, hstart, hstop, -, hgap, -⟩ := exists_neighbours h htokens
  refine ⟨front, gap ++ (u.written ++ rest), hsource, hstart, hstop, ?_⟩
  cases gap with
  | cons d gap => exact hgap.head?_not_word hclass
  | nil =>
    obtain ⟨hwritten, hlexeme⟩ := vocabulary_of_isSpelled h (t := u) (by simp [htokens])
      (by simp [Kind.isSpelled, hu])
    obtain ⟨hne, hnot⟩ := not_word_of_vocabulary hclass hlexeme hu
    obtain ⟨d, ds, hd⟩ := List.exists_cons_of_ne_nil hne
    rw [hwritten, hd]
    rintro _ ⟨⟩
    exact hnot d (by simp [hd])

/-- A word does not go on with a gap, nor with a word or punctuator before it. -/
theorem not_word_before (hclass : WordClass inWord) (ht : t.kind.isSpelled = true)
    (hu : u.kind.isWord = true) :
    ∃ before after, source.toList = before ++ after ∧ u.span.start.offset = byteLength before ∧
      ∀ c ∈ before.getLast?, inWord c = false := by
  obtain ⟨front, gap, rest, hsource, -, -, hstart, hgap, hlongest⟩ := exists_neighbours h htokens
  refine ⟨front ++ (t.text.toList ++ gap), u.written ++ rest, by rw [hsource]; simp, hstart, ?_⟩
  obtain ⟨hwritten, hlexeme⟩ := vocabulary_of_isSpelled h (t := u) (by simp [htokens])
    (by simp [Kind.isSpelled, hu])
  obtain ⟨d, ds, hd, hfirst, -⟩ := isWord_of_vocabulary hlexeme hu
  rw [hwritten, hd] at hgap hlongest
  have hunknown : t.kind ≠ .unknown := fun hunknown => absurd (hunknown ▸ ht) (by decide)
  obtain ⟨-, hlexeme⟩ := vocabulary_of_isSpelled h (t := t) (by simp [htokens]) ht
  intro c hc
  rw [← List.append_assoc] at hc
  rcases mem_getLast?_append hc with hc | ⟨rfl, hlast⟩
  · refine hgap.getLast?_not_word hclass (by simp) ?_ c hc
    rintro ⟨⟩
    cases hfirst
  · rcases Bool.or_eq_true_iff.1 ht with ht | ht
    · -- Two words cannot touch: the first would have taken the second.
      have hpart := (hlongest hunknown).not_word_next (isWord_of_vocabulary hlexeme ht) d rfl
      rw [isWordPart_of_isWordStart hfirst] at hpart
      cases hpart
    · obtain ⟨hne, hnot⟩ := not_word_of_vocabulary hclass hlexeme ht
      rcases mem_getLast?_append hlast with hlast | ⟨hnil, -⟩
      · exact hnot c (List.mem_of_getLast? hlast)
      · exact absurd hnil hne

end

end ClassScript

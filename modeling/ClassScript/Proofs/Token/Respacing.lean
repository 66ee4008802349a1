import ClassScript.Proofs.Token.MaximalMunch

/-!
# Tokens that stand apart

The tokens of a source, written with blanks between them, are scanned into the same
tokens again, whatever blanks and however many (`tokenize_respaced`). A token was
recognised before the text that came after it in the source. That it is recognised
before a blank too has one reason for all kinds: no lexeme but a literal has a blank
in it, and a literal ends at its own quote. So a lexeme is the longest one before a
blank (`longest_before_blank`), and a character at which no lexeme stands begins none
there either (`firstMatch?_unknown_before_blank`).
-/

namespace ClassScript

open Lexical Text

/-- The text begins with a blank. -/
def StartsBlank (cs : List Char) : Prop := ∃ c rest, cs = c :: rest ∧ isBlank c = true

/-! ### Lexemes without blanks -/

theorem isBlank_of_isDigit {c : Char} (h : c.isDigit = true) : isBlank c = false :=
  isBlank_of_isWordPart (isWordPart_of_isDigit h)

theorem not_isBlank_of_isWord {w : List Char} (h : IsWord w) : ∀ c ∈ w, isBlank c = false := by
  obtain ⟨c, cs, rfl, hc, hcs⟩ := h
  intro d hd
  rcases List.mem_cons.1 hd with rfl | hd
  · exact isBlank_of_isWordPart (isWordPart_of_isWordStart hc)
  · exact isBlank_of_isWordPart (hcs d hd)

theorem not_isBlank_of_isNumeral {w : List Char} (h : IsNumeral w) :
    ∀ c ∈ w, isBlank c = false := by
  obtain ⟨d, ds, fs, rfl, hds, hfs⟩ := h
  intro c hc
  rcases List.mem_append.1 hc with hc | hc
  · exact isBlank_of_isDigit (hds c hc)
  · rcases hfs with rfl | ⟨f, gs, rfl, hgs⟩
    · cases hc
    · rcases List.mem_cons.1 hc with rfl | hc
      · decide
      · exact isBlank_of_isDigit (hgs c hc)

/-- Only literals have blanks in them. -/
theorem Shape.Has.not_isBlank {shape : Shape} {kind : Kind} {w : List Char} (h : shape.Has kind w)
    (hstring : shape ≠ .string) (hchar : shape ≠ .char) : ∀ c ∈ w, isBlank c = false := by
  cases shape with
  | word => exact not_isBlank_of_isWord h.1
  | number => exact not_isBlank_of_isNumeral h.1
  | string => exact absurd rfl hstring
  | char => exact absurd rfl hchar
  | mark =>
    have hall : ∀ kind ∈ Kind.punctuators, kind.spelled.all (!isBlank ·) = true := by decide
    rw [h.2]
    simpa using hall kind h.1

/-- A text without blanks that begins before a blank ends before it. -/
theorem begins_of_not_isBlank {v w rest : List Char} (hv : ∀ c ∈ v, isBlank c = false)
    (hbegins : v <+: w ++ rest) (hrest : StartsBlank rest) : v <+: w := by
  rcases List.prefix_or_prefix_of_prefix hbegins (List.prefix_append w rest) with h | h
  · exact h
  · obtain ⟨more, rfl⟩ := h
    cases more with
    | nil => simp
    | cons c more =>
      -- The first character beyond `w` is the blank.
      obtain ⟨b, tail, rfl, hb⟩ := hrest
      rw [List.prefix_append_right_inj] at hbegins
      obtain ⟨rfl, -⟩ := List.cons_prefix_cons.1 hbegins
      rw [hv c (by simp)] at hb
      cases hb

/-! ### Recognition before a blank -/

section

variable {kind : Kind} {w rest : List Char}

theorem longest_before_blank (h : Vocabulary kind w) (hrest : StartsBlank rest) :
    Longest (w ++ rest) kind w := by
  obtain ⟨c, cs, rfl, hhas⟩ := h.shape
  have hlongest : ∀ kind' v, Vocabulary kind' v → v <+: c :: cs ++ rest → v <+: c :: cs := by
    intro kind' v hv hbegins
    have hhas' := hv.has_of_begins hbegins
    obtain ⟨shape, hshape, -⟩ := Shape.exists_ofHead c
    rw [hshape] at hhas hhas'
    obtain ⟨rest', hrest'⟩ := hbegins
    cases shape with
    | string =>
      -- Both are read up to the quote after their bodies, which is the same one.
      obtain ⟨⟨body, hbody, hw⟩, -⟩ := hhas
      obtain ⟨⟨body', hbody', rfl⟩, -⟩ := hhas'
      have hclose := closeQuote_body (by decide) hbody rest
      have hclose' := closeQuote_body (by decide) hbody' rest'
      have htext : body' ++ '"' :: rest' = body ++ '"' :: rest := by
        rw [hw] at hrest'
        simpa using hrest'
      rw [htext, hclose, Option.some.injEq, Prod.mk.injEq] at hclose'
      simp [hw, hclose'.1]
    | char =>
      have hsplit := charLiteral_append hhas.1 rest
      have hsplit' := charLiteral_append hhas'.1 rest'
      rw [hrest', hsplit, Option.some.injEq, Prod.mk.injEq] at hsplit'
      simp [hsplit'.1]
    | _ =>
      have hblank := hhas'.not_isBlank (by decide) (by decide)
      exact begins_of_not_isBlank hblank ⟨rest', hrest'⟩ hrest
  exact ⟨h, List.prefix_append _ rest, hlongest⟩

/-- No lexeme begins with a comment. -/
theorem not_startsComment_of_vocabulary (h : Vocabulary kind w) : ¬ StartsComment w := by
  intro hcomment
  obtain ⟨c, cs, rfl, hhas⟩ := h.shape
  have hslash : '/' = c := by
    rcases hcomment with hbegins | hbegins <;> exact (List.cons_prefix_cons.1 hbegins).1
  have hmark : Shape.ofHead '/' = .mark := by decide
  rw [← hslash, hmark] at hhas
  have hall : ∀ kind ∈ Kind.punctuators,
      ¬ (['/', '/'] <+: kind.spelled ∨ ['/', '*'] <+: kind.spelled) := by decide
  rw [← hslash, hhas.2] at hcomment
  exact hall kind hhas.1 hcomment

theorem not_startsComment_before_blank (h : ¬ StartsComment w) (hrest : StartsBlank rest) :
    ¬ StartsComment (w ++ rest) := by
  have hslash : isBlank '/' = false := by decide
  have hstar : isBlank '*' = false := by decide
  intro hcomment
  apply h
  rcases hcomment with hbegins | hbegins
  · exact .inl (begins_of_not_isBlank (by simp [hslash]) hbegins hrest)
  · exact .inr (begins_of_not_isBlank (by simp [hslash, hstar]) hbegins hrest)

/-- A lexeme is recognised before a blank. -/
theorem firstMatch?_before_blank (h : Vocabulary kind w) (hrest : StartsBlank rest) :
    ∃ meaning, firstMatch? (w ++ rest) = some ⟨meaning, w, rest⟩ ∧
      Match.kind? ⟨meaning, w, rest⟩ = some kind := by
  have hcomment := not_startsComment_before_blank (not_startsComment_of_vocabulary h) hrest
  obtain ⟨⟨meaning, taken, rest'⟩, hm, hkind, rfl⟩ :=
    firstMatch?_token_iff.2 ⟨hcomment, longest_before_blank h hrest⟩
  obtain rfl := List.append_cancel_left (firstMatch?_append hm)
  exact ⟨meaning, hm, hkind⟩

/-- A character at which no rule matches is not recognised before a blank either. -/
theorem firstMatch?_unknown_before_blank {c : Char} {cs : List Char}
    (h : firstMatch? (c :: cs) = none) (hrest : StartsBlank rest) :
    firstMatch? (c :: rest) = none := by
  obtain ⟨hblank, -, hquote, hapostrophe, hnone⟩ := firstMatch?_eq_none_iff.1 h
  have hsingle : ¬ StartsComment [c] := by
    intro hcomment
    rcases hcomment with hbegins | hbegins <;> exact absurd hbegins.length_le (by simp)
  have hlexeme : ∀ kind w, Vocabulary kind w → ¬ w <+: c :: rest := by
    intro kind w hw hbegins
    have hhas := hw.has_of_begins hbegins
    obtain ⟨shape, hshape, hstarts⟩ := Shape.exists_ofHead c
    have hstring : shape ≠ .string := by
      rintro rfl
      exact hquote hstarts
    have hchar : shape ≠ .char := by
      rintro rfl
      exact hapostrophe hstarts
    -- The lexeme ends before the blank, so it stood at the character in the source.
    have hbefore : w <+: [c] :=
      begins_of_not_isBlank ((hshape ▸ hhas).not_isBlank hstring hchar) hbegins hrest
    exact hnone kind w hw (hbefore.trans (List.prefix_append [c] cs))
  exact firstMatch?_eq_none_iff.2
    ⟨hblank, not_startsComment_before_blank hsingle hrest, hquote, hapostrophe, hlexeme⟩

end

/-! ### Scanning tokens that stand apart -/

/-- The token is scanned again wherever a blank follows it, and does not begin with
one. -/
structure Token.StandsApart (t : Token) : Prop where
  known : t.kind ≠ .eof
  scans : Scans StartsBlank t.text.toList [t.lexeme]
  head : ∀ rest, ¬ StartsBlank (t.text.toList ++ rest)

theorem standsApart_token {cs : List Char} {m : Match} {kind : Kind} (hm : firstMatch? cs = some m)
    (hkind : m.kind? = some kind) (span : Span) :
    Token.StandsApart ⟨kind, String.ofList m.taken, span⟩ := by
  obtain ⟨-, hlongest⟩ := longest_of_firstMatch? hm hkind
  have hlexeme := hlongest.lexeme
  constructor
  · exact kind?_ne_eof hm hkind
  · rw [String.toList_ofList]
    exact .of_match String.toList_ofList fun rest hrest => firstMatch?_before_blank hlexeme hrest
  · intro rest hblank
    obtain ⟨c, cs, hw, -⟩ := hlexeme.shape
    obtain ⟨b, tail, heq, hb⟩ := hblank
    have hhead := hlexeme.isBlank_head
    rw [String.toList_ofList, hw, List.cons_append] at heq
    rw [hw, (List.cons.inj heq).1] at hhead
    exact absurd (hb.symm.trans hhead) (by decide)

theorem standsApart_unknown {c : Char} {cs : List Char} (h : firstMatch? (c :: cs) = none)
    (span : Span) : Token.StandsApart ⟨.unknown, c.toString, span⟩ := by
  have htext : c.toString.toList = [c] := by simp
  constructor
  · exact Kind.noConfusion
  · rw [htext]
    intro p rest ts hrest hlexes
    exact ⟨[⟨.unknown, c.toString, ⟨p, p.next c⟩⟩], rfl,
      .unknown (firstMatch?_unknown_before_blank h hrest) hlexes⟩
  · intro rest hblank
    obtain ⟨b, tail, heq, hb⟩ := hblank
    rw [htext] at heq
    obtain ⟨rfl, -⟩ := List.cons.inj heq
    rw [(firstMatch?_eq_none_iff.1 h).1] at hb
    cases hb

/-- The tokens of a scan stand apart, up to the end of the input. -/
theorem Lexes.standApart {p : Position} {cs : List Char} {ts : List Token} (h : Lexes p cs ts) :
    ∃ words stop, ts = words ++ [.endOfInput stop] ∧ ∀ t ∈ words, t.StandsApart := by
  induction h with
  | done p => exact ⟨[], p, rfl, by simp⟩
  | unknown hnone _ ih =>
    obtain ⟨words, stop, rfl, hwords⟩ := ih
    exact ⟨_ :: words, stop, rfl, List.forall_mem_cons.2 ⟨standsApart_unknown hnone _, hwords⟩⟩
  | gap _ _ _ ih => exact ih
  | token hm hkind _ ih =>
    obtain ⟨words, stop, rfl, hwords⟩ := ih
    exact ⟨_ :: words, stop, rfl, List.forall_mem_cons.2 ⟨standsApart_token hm hkind _, hwords⟩⟩

/-- Blanks that something else follows are skipped. -/
theorem scans_blanks {gap : List Char} (hne : gap ≠ []) (hgap : ∀ c ∈ gap, isBlank c = true) :
    Scans (fun rest => ¬ StartsBlank rest) gap [] := by
  intro p rest ts hrest hlexes
  obtain ⟨c, cs, rfl⟩ := List.exists_cons_of_ne_nil hne
  obtain ⟨hc, hcs⟩ := List.forall_mem_cons.1 hgap
  have hhead : ∀ d, rest.head? = some d → isBlank d = false := by
    intro d hd
    obtain ⟨tail, rfl⟩ := List.head?_eq_some_iff.1 hd
    exact Bool.eq_false_iff.2 fun hblank => hrest ⟨d, tail, rfl, hblank⟩
  obtain ⟨htake, hdrop⟩ := span_boundary hcs hhead
  have hmatch := firstMatch?_blank hc (cs ++ rest)
  rw [htake, hdrop] at hmatch
  exact ⟨[], rfl, .gap hmatch rfl hlexes⟩

section

variable {gaps : List (List Char)}

theorem startsBlank_interleave {tokens : List Token} (hne : tokens ≠ [])
    (hlength : gaps.length = tokens.length)
    (hgaps : ∀ gap ∈ gaps, gap ≠ [] ∧ ∀ c ∈ gap, isBlank c = true) :
    StartsBlank (interleave gaps tokens) := by
  obtain ⟨t, ts, rfl⟩ := List.exists_cons_of_ne_nil hne
  obtain ⟨gap, gaps, rfl⟩ := List.exists_cons_of_length_eq_add_one hlength
  obtain ⟨hgap, hblank⟩ := hgaps gap List.mem_cons_self
  obtain ⟨c, cs, rfl⟩ := List.exists_cons_of_ne_nil hgap
  exact ⟨c, _, rfl, hblank c List.mem_cons_self⟩

/-- Tokens that stand apart are scanned again with blanks between them. -/
theorem scans_interleave {words : List Token} (stop : Position)
    (hwords : ∀ t ∈ words, t.StandsApart) (hlength : gaps.length = words.length + 1)
    (hgaps : ∀ gap ∈ gaps, gap ≠ [] ∧ ∀ c ∈ gap, isBlank c = true) :
    Scans (· = []) (interleave gaps (words ++ [.endOfInput stop])) (words.map Token.lexeme) := by
  -- One gap and one token at a time, from the last to the first.
  induction words generalizing gaps with
  | nil =>
    obtain ⟨gap, rfl⟩ := List.length_eq_one_iff.1 hlength
    obtain ⟨hne, hblank⟩ := hgaps gap List.mem_cons_self
    have hgap : interleave [gap] ([] ++ [.endOfInput stop]) = gap := by
      simp [interleave, Token.written, Token.endOfInput]
    rw [hgap]
    apply (scans_blanks hne hblank).mono
    intro rest hnil hstarts
    obtain ⟨c, cs, hcons, -⟩ := hstarts
    rw [hnil] at hcons
    cases hcons
  | cons t words ih =>
    obtain ⟨gap, gaps, rfl⟩ := List.exists_cons_of_length_eq_add_one hlength
    obtain ⟨ht, hwords⟩ := List.forall_mem_cons.1 hwords
    obtain ⟨⟨hne, hblank⟩, hgaps⟩ := List.forall_mem_cons.1 hgaps
    have hlength : gaps.length = words.length + 1 := Nat.succ.inj hlength
    have hstarts : StartsBlank (interleave gaps (words ++ [.endOfInput stop])) :=
      startsBlank_interleave (by simp) (by simpa using hlength) hgaps
    have htail := ht.scans.append (ih hwords hlength hgaps) fun rest hnil => by
      rw [hnil, List.append_nil]
      exact hstarts
    have hall := (scans_blanks hne hblank).append htail fun rest _ => by
      rw [List.append_assoc]
      exact ht.head _
    have hwritten : t.written = t.text.toList := if_neg ht.known
    simpa [interleave, hwritten] using hall

/-- The tokens of a source, written with any blanks before, between and after them,
are scanned into the same tokens up to the places where they stand. -/
theorem tokenize_respaced {source : String} {tokens : List Token}
    (h : tokenize source = .ok tokens) (hlength : gaps.length = tokens.length)
    (hgaps : ∀ gap ∈ gaps, gap ≠ [] ∧ ∀ c ∈ gap, isBlank c = true) :
    ∃ words : List Lexeme, (∀ w ∈ words, w.kind ≠ .eof) ∧
      tokens.map Token.lexeme = words ++ [.eof] ∧
      ∃ tokens', tokenize (String.ofList (interleave gaps tokens)) = .ok tokens' ∧
        tokens'.map Token.lexeme = words ++ [.eof] := by
  obtain ⟨words, stop, rfl, hwords⟩ := (Lexes.of_tokensFrom h).standApart
  have hknown : ∀ w ∈ words.map Token.lexeme, w.kind ≠ .eof := by
    intro w hw
    obtain ⟨t, ht, rfl⟩ := List.mem_map.1 hw
    exact (hwords t ht).known
  have hscans := scans_interleave stop hwords (by simpa using hlength) hgaps
  rw [← String.toList_ofList (l := interleave gaps _)] at hscans
  obtain ⟨tokens', htokens', hlexemes⟩ := hscans.tokenize rfl
  exact ⟨words.map Token.lexeme, hknown, by simp [Token.lexeme, Lexeme.eof, Token.endOfInput],
    tokens', htokens', hlexemes⟩

end

/-- A string with a blank, a line feed and an escaped quote, an unknown character, a
slash that a comment follows, and a number before a point. -/
theorem tokenize_respaced_literal :
    ∃ gaps tokens, tokenize "a=\"b \n\\\"\"&/ //c\n1." = .ok tokens ∧
      gaps = [[' '], ['\n'], ['\t', ' '], ['　'], [' '], [' '], ['\r', '\n'], [' ']] ∧
      gaps.length = tokens.length ∧ (∀ gap ∈ gaps, gap ≠ [] ∧ ∀ c ∈ gap, isBlank c = true) ∧
      ∃ words : List Lexeme, (∀ w ∈ words, w.kind ≠ .eof) ∧
        tokens.map Token.lexeme = words ++ [.eof] ∧
        ∃ tokens', tokenize (String.ofList (interleave gaps tokens)) = .ok tokens' ∧
          tokens'.map Token.lexeme = words ++ [.eof] := by
  have hchars : "a=\"b \n\\\"\"&/ //c\n1.".toList =
      ['a', '=', '"', 'b', ' ', '\n', '\\', '"', '"', '&', '/', ' ', '/', '/', 'c', '\n', '1',
        '.'] :=
    rfl
  have hlexes : ∃ tokens, Lexes .start "a=\"b \n\\\"\"&/ //c\n1.".toList tokens ∧
      8 = tokens.length := by
    rw [hchars]
    exact ⟨_, .token rfl rfl (.token rfl rfl (.token rfl rfl (.unknown rfl (.token rfl rfl
      (.gap rfl rfl (.gap rfl rfl (.gap rfl rfl (.token rfl rfl (.token rfl rfl
        (.done _)))))))))), rfl⟩
  obtain ⟨tokens, hlexes, hlength⟩ := hlexes
  have hgaps : ∀ gap ∈ [[' '], ['\n'], ['\t', ' '], ['　'], [' '], [' '], ['\r', '\n'], [' ']],
      gap ≠ [] ∧ ∀ c ∈ gap, isBlank c = true := by
    simp only [← List.all_eq_true]
    decide
  exact ⟨_, tokens, hlexes.tokensFrom_eq, rfl, hlength, hgaps,
    tokenize_respaced hlexes.tokensFrom_eq hlength hgaps⟩

end ClassScript

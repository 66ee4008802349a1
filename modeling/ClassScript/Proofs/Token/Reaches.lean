import ClassScript.Proofs.Token.Respacing

/-!
# A scan up to a place

`Reaches rest cs` follows a scan of `cs ++ rest` up to `rest`. The text after the place is
there to be read, so a place in the middle of a token or a comment is not reached. A scan
that comes to a place goes on there as if it began there (`Reaches.tokensFrom_eq`), and
it ends at the end of the text or at an error (`reaches_end_or_failure`).

A quote is a place that does not depend on what comes after it: no token and no gap goes on
over a quote, except a comment that is not finished there (`takes_append_iff`). So a scan
comes to a quote exactly if the text before it, alone, is scanned to its end and that is
not inside a comment (`reaches_iff_completes`).
-/

namespace ClassScript

open Lexical Text

/-! ### A scan up to a place -/

/-- The error that a matched text is, if it is one. -/
def Lexical.Match.failure? (m : Match) : Option CompileError.Cause :=
  match m.meaning with
  | .unterminated quote => some (.unterminatedLiteral quote)
  | .invalidChar => some (.invalidCharLiteral (String.ofList m.taken))
  | _ => none

/-- A scan takes `w`, a token or a gap, from the beginning of `cs`. -/
def Lexical.Takes (cs w : List Char) : Prop :=
  ∃ m, firstMatch? cs = some m ∧ m.failure? = none ∧ m.taken = w

/-- A scan of the text `cs ++ rest` comes to `rest`. -/
inductive Lexical.Reaches (rest : List Char) : List Char → Prop
  | nil : Reaches rest []
  | unknown {c : Char} {cs : List Char} : firstMatch? (c :: (cs ++ rest)) = none →
      Reaches rest cs → Reaches rest (c :: cs)
  | taken {w cs : List Char} : Takes (w ++ (cs ++ rest)) w → Reaches rest cs →
      Reaches rest (w ++ cs)

/-- What is taken at a place is one thing. -/
theorem Lexical.Takes.unique {cs w w' : List Char} (h : Takes cs w) (h' : Takes cs w') :
    w = w' := by
  obtain ⟨m, hm, -, rfl⟩ := h
  obtain ⟨m', hm', -, rfl⟩ := h'
  rw [Option.some.inj (hm.symm.trans hm')]

theorem Lexical.Takes.firstMatch?_ne_none {cs w : List Char} (h : Takes cs w) :
    firstMatch? cs ≠ none := by
  obtain ⟨m, hm, -⟩ := h
  simp [hm]

/-- An error ends the scan. -/
theorem tokensFrom_of_failure {p : Position} {cs : List Char} {m : Match}
    {cause : CompileError.Cause} (hm : firstMatch? cs = some m)
    (hfailure : m.failure? = some cause) : tokensFrom p cs = .error (.atPosition cause p) := by
  rw [tokensFrom_of_match hm]
  unfold Match.failure? at hfailure
  cases hmeaning : m.meaning with
  | unterminated quote =>
    rw [hmeaning] at hfailure
    cases hfailure
    rfl
  | invalidChar =>
    rw [hmeaning] at hfailure
    cases hfailure
    rfl
  | _ => simp [hmeaning] at hfailure

/-- What a scan takes adds at most a token in front of the others. -/
theorem tokensFrom_of_takes {p : Position} {w cs : List Char} (h : Takes (w ++ cs) w) :
    ∃ us, tokensFrom p (w ++ cs) = (tokensFrom (p.after w) cs).map (us ++ ·) := by
  obtain ⟨m, hm, hfailure, rfl⟩ := h
  obtain hrest : m.rest = cs := List.append_cancel_left (firstMatch?_append hm)
  rw [tokensFrom_of_match hm, hrest]
  unfold Match.failure? at hfailure
  cases hmeaning : m.meaning with
  | gap =>
    refine ⟨[], ?_⟩
    dsimp only
    cases tokensFrom (p.after m.taken) cs <;> rfl
  | token kind =>
    refine ⟨[⟨kind, String.ofList m.taken, ⟨p, p.after m.taken⟩⟩], ?_⟩
    dsimp only
    cases tokensFrom (p.after m.taken) cs <;> rfl
  | word =>
    refine ⟨[⟨.ofWord (String.ofList m.taken), String.ofList m.taken, ⟨p, p.after m.taken⟩⟩], ?_⟩
    dsimp only
    cases tokensFrom (p.after m.taken) cs <;> rfl
  | unterminated quote => simp [hmeaning] at hfailure
  | invalidChar => simp [hmeaning] at hfailure

theorem tokensFrom_of_unknown {p : Position} {c : Char} {cs : List Char}
    (h : firstMatch? (c :: cs) = none) :
    ∃ us, tokensFrom p (c :: cs) = (tokensFrom (p.next c) cs).map (us ++ ·) := by
  refine ⟨[⟨.unknown, c.toString, ⟨p, p.next c⟩⟩], ?_⟩
  rw [tokensFrom.eq_def]
  dsimp only
  split
  · cases tokensFrom (p.next c) cs <;> rfl
  · rename_i m hm
    rw [h] at hm
    cases hm

/-- A scan that comes to a place goes on there as if it began there. -/
theorem Lexical.Reaches.tokensFrom_eq {rest cs : List Char} (h : Reaches rest cs) (p : Position) :
    ∃ us, tokensFrom p (cs ++ rest) = (tokensFrom (p.after cs) rest).map (us ++ ·) := by
  induction h generalizing p with
  | nil =>
    refine ⟨[], ?_⟩
    rw [List.nil_append, Position.after_nil]
    cases tokensFrom p rest <;> rfl
  | @unknown c cs hnone _ ih =>
    obtain ⟨us, hus⟩ := tokensFrom_of_unknown (p := p) hnone
    obtain ⟨us', hus'⟩ := ih (p.next c)
    refine ⟨us ++ us', ?_⟩
    rw [List.cons_append, hus, hus', Position.after_cons]
    cases tokensFrom ((p.next c).after cs) rest <;> simp [Except.map]
  | @taken w cs htakes _ ih =>
    obtain ⟨us, hus⟩ := tokensFrom_of_takes (p := p) htakes
    obtain ⟨us', hus'⟩ := ih (p.after w)
    refine ⟨us ++ us', ?_⟩
    rw [List.append_assoc, hus, hus', Position.after_append]
    cases tokensFrom ((p.after w).after cs) rest <;> simp [Except.map]

/-- A scan comes to the end of a text, or to an error in it. -/
theorem reaches_end_or_failure (cs : List Char) :
    Reaches [] cs ∨ ∃ a r m cause, cs = a ++ r ∧ Reaches r a ∧ firstMatch? r = some m ∧
      m.failure? = some cause := by
  -- On the length of the text, since what is taken can be long.
  induction hn : cs.length using Nat.strongRecOn generalizing cs with
  | ind n ih =>
    cases cs with
    | nil => exact .inl .nil
    | cons c cs =>
      cases hmatch : firstMatch? (c :: cs) with
      | none =>
        rcases ih cs.length (by rw [← hn]; simp) cs rfl with hend | ⟨a, r, m, cause, rfl, h⟩
        · exact .inl (.unknown (by simpa using hmatch) hend)
        · exact .inr ⟨c :: a, r, m, cause, rfl, .unknown hmatch h.1, h.2⟩
      | some m =>
        cases hfailure : m.failure? with
        | some cause => exact .inr ⟨[], c :: cs, m, cause, rfl, .nil, hmatch, hfailure⟩
        | none =>
          have happend := firstMatch?_append hmatch
          have hlt : m.rest.length < n := hn ▸ firstMatch?_length_lt hmatch
          rcases ih m.rest.length hlt m.rest rfl with hend | ⟨a, r, m', cause, heq, h⟩
          · refine .inl (happend ▸ .taken ⟨m, ?_, hfailure, rfl⟩ hend)
            rw [List.append_nil, happend, hmatch]
          · refine .inr ⟨m.taken ++ a, r, m', cause, ?_, .taken ⟨m, ?_, hfailure, rfl⟩ h.1, h.2⟩
            · rw [← happend, heq, List.append_assoc]
            · rw [← heq, happend, hmatch]

/-- A scan succeeds if it comes to the end of the text. -/
theorem tokensFrom_ok_iff {p : Position} {cs : List Char} :
    (∃ ts, tokensFrom p cs = .ok ts) ↔ Reaches [] cs := by
  constructor
  · intro h
    obtain ⟨ts, hts⟩ := h
    rcases reaches_end_or_failure cs with hend | ⟨a, r, m, cause, rfl, hreaches, hm, hfailure⟩
    · exact hend
    · obtain ⟨us, hus⟩ := hreaches.tokensFrom_eq p
      rw [hus, tokensFrom_of_failure hm hfailure] at hts
      cases hts
  · intro h
    obtain ⟨us, hus⟩ := h.tokensFrom_eq p
    rw [List.append_nil, (Lexes.done _).tokensFrom_eq] at hus
    exact ⟨_, hus⟩

/-- It fails at the first place where the rule that matches is an error. -/
theorem tokensFrom_error_iff {p : Position} {cs : List Char} {e : CompileError} :
    tokensFrom p cs = .error e ↔ ∃ a r m cause, cs = a ++ r ∧ Reaches r a ∧
      firstMatch? r = some m ∧ m.failure? = some cause ∧ e = .atPosition cause (p.after a) := by
  constructor
  · intro h
    rcases reaches_end_or_failure cs with hend | ⟨a, r, m, cause, rfl, hreaches, hm, hfailure⟩
    · obtain ⟨ts, hts⟩ := tokensFrom_ok_iff (p := p).2 hend
      rw [hts] at h
      cases h
    · obtain ⟨us, hus⟩ := hreaches.tokensFrom_eq p
      rw [hus, tokensFrom_of_failure hm hfailure] at h
      cases h
      exact ⟨a, r, m, cause, rfl, hreaches, hm, hfailure, rfl⟩
  · intro h
    obtain ⟨a, r, m, cause, rfl, hreaches, hm, hfailure, rfl⟩ := h
    obtain ⟨us, hus⟩ := hreaches.tokensFrom_eq p
    rw [hus, tokensFrom_of_failure hm hfailure]
    rfl

/-! ### What a scan skips -/

/-- A scan skips `w` at once where `rest` follows it: all blanks up to another
character, or a comment. -/
inductive Skips : List Char → List Char → Prop
  | blanks {w rest : List Char} : w ≠ [] → (∀ c ∈ w, isBlank c = true) →
      (∀ c, rest.head? = some c → isBlank c = false) → Skips w rest
  | lineComment {body rest : List Char} : '\n' ∉ body → (rest = [] ∨ rest.head? = some '\n') →
      Skips ('/' :: '/' :: body) rest
  | blockComment {body rest : List Char} : ¬ ['*', '/'] <:+: body →
      Skips ('/' :: '*' :: (body ++ ['*', '/'])) rest
  | openComment {body : List Char} : ¬ ['*', '/'] <:+: body → Skips ('/' :: '*' :: body) []

/-- The text is a comment that goes on if more text follows. -/
def Unfinished (cs : List Char) : Prop :=
  (∃ body, cs = '/' :: '/' :: body ∧ '\n' ∉ body) ∨
    ∃ body, cs = '/' :: '*' :: body ∧ ¬ ['*', '/'] <:+: body

/-- A comment that is not finished is skipped at the end of the text. -/
theorem Unfinished.skips {cs : List Char} (h : Unfinished cs) : Skips cs [] := by
  rcases h with ⟨body, rfl, hbody⟩ | ⟨body, rfl, hbody⟩
  · exact .lineComment hbody (.inl rfl)
  · exact .openComment hbody

theorem Unfinished.startsComment {cs : List Char} (h : Unfinished cs) : StartsComment cs := by
  rcases h with ⟨body, rfl, -⟩ | ⟨body, rfl, -⟩
  · exact .inl (List.prefix_append ['/', '/'] body)
  · exact .inr (List.prefix_append ['/', '*'] body)

theorem closeComment_body {body : List Char} (h : ¬ ['*', '/'] <:+: body) (rest : List Char) :
    Pattern.closeComment (body ++ ('*' :: '/' :: rest)) = some (body ++ ['*', '/'], rest) := by
  induction body with
  | nil => rfl
  | cons c body ih =>
    rw [List.infix_cons_iff, not_or] at h
    -- The mark does not stand at `c`, also not with what follows the body.
    have hmark : ∀ tail, c = '*' → body ++ ('*' :: '/' :: rest) = '/' :: tail → False := by
      rintro tail rfl htail
      cases body with
      | nil => simp at htail
      | cons d body =>
        obtain ⟨rfl, -⟩ := List.cons.inj htail
        exact h.1 (List.prefix_append ['*', '/'] body)
    rw [List.cons_append, Pattern.closeComment.eq_3 _ _ hmark, ih h.2]
    rfl

/-- A comment stays open only if its closing mark is nowhere in the text. -/
theorem closeComment_eq_none_iff {cs : List Char} :
    Pattern.closeComment cs = none ↔ ¬ ['*', '/'] <:+: cs := by
  refine ⟨closeComment_eq_none, fun h => ?_⟩
  cases hclose : Pattern.closeComment cs with
  | none => rfl
  | some parts =>
    obtain ⟨body, hbody, -⟩ := closeComment_eq_some hclose
    refine absurd ⟨body, parts.2, ?_⟩ h
    rw [← hbody]
    exact Pattern.closeComment_append hclose

theorem firstMatch?_lineComment (cs : List Char) :
    firstMatch? ('/' :: '/' :: cs) =
      some ⟨.gap, '/' :: '/' :: cs.takeWhile (· != '\n'), cs.dropWhile (· != '\n')⟩ :=
  rfl

/-- What is skipped is what the table calls a gap. -/
theorem Skips.firstMatch?_eq {w rest : List Char} (h : Skips w rest) :
    firstMatch? (w ++ rest) = some ⟨.gap, w, rest⟩ := by
  cases h with
  | blanks hne hblank hrest =>
    obtain ⟨c, cs, rfl⟩ := List.exists_cons_of_ne_nil hne
    obtain ⟨hc, hcs⟩ := List.forall_mem_cons.1 hblank
    obtain ⟨htake, hdrop⟩ := span_boundary hcs hrest
    rw [List.cons_append, firstMatch?_blank hc, htake, hdrop]
  | @lineComment body _ hbody hrest =>
    have hline : ∀ c ∈ body, (c != '\n') = true := by
      intro c hc
      rw [bne_iff_ne]
      rintro rfl
      exact hbody hc
    have hstop : ∀ c, rest.head? = some c → (c != '\n') = false := by
      intro c hc
      rcases hrest with rfl | hnewline
      · cases hc
      · obtain rfl := Option.some.inj (hc.symm.trans hnewline)
        decide
    obtain ⟨htake, hdrop⟩ := span_boundary hline hstop
    rw [List.cons_append, List.cons_append, firstMatch?_lineComment, htake, hdrop]
  | @blockComment body _ hbody =>
    have hclose := closeComment_body hbody rest
    rw [List.cons_append, List.cons_append, List.append_assoc, firstMatch?_comment]
    simp only [List.cons_append, List.nil_append, hclose]
  | @openComment body hbody =>
    rw [List.append_nil, firstMatch?_comment, closeComment_eq_none_iff.2 hbody]

theorem skips_of_firstMatch? {cs : List Char} {m : Match} (hm : firstMatch? cs = some m)
    (hgap : m.meaning = .gap) : Skips m.taken m.rest := by
  obtain ⟨rule, hmem, hmeaning, hsplit⟩ := exists_rule_of_firstMatch? hm
  have hall : ∀ r ∈ rules, r.meaning = .gap → r.pattern = .blanks ∨ r.pattern = .lineComment ∨
      (r.pattern = .blockComment ∨ r.pattern = .openComment) := by decide
  rcases hall rule hmem (hmeaning.trans hgap) with hp | hp | hp
  · rw [hp] at hsplit
    obtain ⟨hne, hblank⟩ := split?_blanks hsplit
    refine .blanks hne hblank fun c hc => ?_
    -- The pattern of blanks takes all of them.
    cases cs with
    | nil => cases hsplit
    | cons d cs =>
      simp only [Pattern.split?] at hsplit
      split at hsplit
      · simp only [Option.some.injEq, Prod.mk.injEq] at hsplit
        have hnot := List.head?_dropWhile_not isBlank cs
        rw [hsplit.2, hc] at hnot
        simpa using hnot
      · cases hsplit
  · rw [hp] at hsplit
    obtain ⟨body, htaken, hbody, hstop⟩ := split?_lineComment hsplit
    rw [htaken]
    exact .lineComment hbody hstop
  · obtain ⟨cs', rfl⟩ := split?_comment hp hsplit
    rw [firstMatch?_comment] at hm
    cases hclose : Pattern.closeComment cs' with
    | some parts =>
      obtain ⟨taken, left⟩ := parts
      rw [hclose] at hm
      cases hm
      obtain ⟨body, rfl, hbody⟩ := closeComment_eq_some hclose
      exact .blockComment hbody
    | none =>
      rw [hclose] at hm
      cases hm
      exact .openComment (closeComment_eq_none hclose)

/-- A scan takes gaps and tokens. -/
theorem takes_iff {w rest : List Char} :
    Takes (w ++ rest) w ↔
      Skips w rest ∨ ¬ StartsComment (w ++ rest) ∧ ∃ kind, Longest (w ++ rest) kind w := by
  constructor
  · intro h
    obtain ⟨m, hm, hfailure, rfl⟩ := h
    cases hkind : m.kind? with
    | some kind =>
      obtain ⟨hcomment, hlongest⟩ := longest_of_firstMatch? hm hkind
      exact .inr ⟨hcomment, kind, hlongest⟩
    | none =>
      -- What is neither a token nor an error is a gap.
      have hgap : m.meaning = .gap := by
        unfold Match.failure? at hfailure
        unfold Match.kind? at hkind
        cases hmeaning : m.meaning <;> simp_all
      have hskips := skips_of_firstMatch? hm hgap
      rw [List.append_cancel_left (firstMatch?_append hm)] at hskips
      exact .inl hskips
  · intro h
    rcases h with hskips | ⟨hcomment, kind, hlongest⟩
    · exact ⟨_, hskips.firstMatch?_eq, rfl, rfl⟩
    · obtain ⟨m, hm, hkind, htaken⟩ := firstMatch?_token_iff.2 ⟨hcomment, hlongest⟩
      refine ⟨m, hm, ?_, htaken⟩
      unfold Match.kind? at hkind
      unfold Match.failure?
      cases hmeaning : m.meaning <;> simp_all

/-! ### Before a quote -/

/-- Is the character one that opens a literal? -/
def isQuote (c : Char) : Bool := c == '"' || c == '\''

/-- The text begins with a quote. -/
def StartsQuote (cs : List Char) : Prop := ∃ c rest, cs = c :: rest ∧ isQuote c = true

theorem isQuote_eq_false {p : Char → Bool} {c : Char} (hc : p c = true) (hquote : p '"' = false)
    (hapostrophe : p '\'' = false) : isQuote c = false := by
  rw [isQuote, Bool.or_eq_false_iff, beq_eq_false_iff_ne, beq_eq_false_iff_ne]
  constructor
  · rintro rfl
    rw [hquote] at hc
    cases hc
  · rintro rfl
    rw [hapostrophe] at hc
    cases hc

theorem not_isQuote_of_isWord {w : List Char} (h : IsWord w) : ∀ c ∈ w, isQuote c = false := by
  obtain ⟨c, cs, rfl, hc, hcs⟩ := h
  refine List.forall_mem_cons.2 ⟨isQuote_eq_false hc (by decide) (by decide), fun d hd => ?_⟩
  exact isQuote_eq_false (hcs d hd) (by decide) (by decide)

theorem not_isQuote_of_isNumeral {w : List Char} (h : IsNumeral w) :
    ∀ c ∈ w, isQuote c = false := by
  obtain ⟨d, ds, fs, rfl, hds, hfs⟩ := h
  have hdigit : ∀ {c : Char}, c.isDigit = true → isQuote c = false :=
    fun hc => isQuote_eq_false hc (by decide) (by decide)
  intro c hc
  rcases List.mem_append.1 hc with hc | hc
  · exact hdigit (hds c hc)
  · rcases hfs with rfl | ⟨f, gs, rfl, hgs⟩
    · cases hc
    · rcases List.mem_cons.1 hc with rfl | hc
      · decide
      · exact hdigit (hgs c hc)

/-- Only literals have quotes in them. -/
theorem Shape.Has.not_isQuote {shape : Shape} {kind : Kind} {w : List Char} (h : shape.Has kind w)
    (hstring : shape ≠ .string) (hchar : shape ≠ .char) : ∀ c ∈ w, isQuote c = false := by
  cases shape with
  | word => exact not_isQuote_of_isWord h.1
  | number => exact not_isQuote_of_isNumeral h.1
  | string => exact absurd rfl hstring
  | char => exact absurd rfl hchar
  | mark =>
    have hall : ∀ kind ∈ Kind.punctuators, kind.spelled.all (!isQuote ·) = true := by decide
    rw [h.2]
    simpa using hall kind h.1

/-- Two strings that begin one text are the same. -/
theorem string_unique {kind kind' : Kind} {v w cs : List Char} (h : Shape.string.Has kind v)
    (h' : Shape.string.Has kind' w) (hv : v <+: cs) (hw : w <+: cs) : v = w := by
  obtain ⟨⟨body, hbody, rfl⟩, -⟩ := h
  obtain ⟨⟨body', hbody', rfl⟩, -⟩ := h'
  obtain ⟨rest, rfl⟩ := hv
  obtain ⟨rest', hrest'⟩ := hw
  have htext : body' ++ '"' :: rest' = body ++ '"' :: rest := by simpa using hrest'
  have hclose := closeQuote_body (by decide) hbody' rest'
  rw [htext, closeQuote_body (by decide) hbody rest, Option.some.injEq, Prod.mk.injEq] at hclose
  rw [hclose.1]

/-- Two char literals that begin one text are the same. -/
theorem char_unique {v w cs : List Char} (h : Vocabulary .char v) (h' : Vocabulary .char w)
    (hv : v <+: cs) (hw : w <+: cs) : v = w := by
  obtain ⟨rest, rfl⟩ := hv
  obtain ⟨rest', hrest'⟩ := hw
  have hsplit := charLiteral_append h' rest'
  rw [hrest', charLiteral_append h rest, Option.some.injEq, Prod.mk.injEq] at hsplit
  exact hsplit.1

section

variable {r : List Char} (hr : StartsQuote r)

include hr

/-- A text without quotes that begins before a quote ends before it. -/
theorem begins_before_quote {v w : List Char} (hv : ∀ c ∈ v, isQuote c = false)
    (hbegins : v <+: w ++ r) : v <+: w := by
  rcases List.prefix_or_prefix_of_prefix hbegins (List.prefix_append w r) with h | h
  · exact h
  · obtain ⟨more, rfl⟩ := h
    cases more with
    | nil => simp
    | cons c more =>
      -- The first character beyond `w` is the quote.
      obtain ⟨q, tail, rfl, hq⟩ := hr
      rw [List.prefix_append_right_inj] at hbegins
      obtain ⟨rfl, -⟩ := List.cons_prefix_cons.1 hbegins
      rw [hv c (by simp)] at hq
      cases hq

theorem startsComment_append_iff {cs : List Char} :
    StartsComment (cs ++ r) ↔ StartsComment cs := by
  constructor
  · rintro (h | h)
    · exact .inl (begins_before_quote hr (by simp [isQuote]) h)
    · exact .inr (begins_before_quote hr (by simp [isQuote]) h)
  · rintro (h | h)
    · exact .inl (h.trans (List.prefix_append cs r))
    · exact .inr (h.trans (List.prefix_append cs r))

/-- The text behind a quote does not make a lexeme longer. -/
theorem longest_append_iff {w cs : List Char} {kind : Kind} :
    Longest (w ++ (cs ++ r)) kind w ↔ Longest (w ++ cs) kind w := by
  rw [← List.append_assoc]
  constructor
  · intro h
    refine ⟨h.lexeme, List.prefix_append w cs, fun kind' v hv hbegins => ?_⟩
    exact h.longest kind' v hv (hbegins.trans (List.prefix_append _ r))
  · intro h
    have hbegins : w <+: w ++ cs ++ r := h.begins.trans (List.prefix_append _ r)
    refine ⟨h.lexeme, hbegins, fun kind' v hv hbegins' => ?_⟩
    obtain ⟨c, ds, rfl, hhas⟩ := h.lexeme.shape
    have hhas' := hv.has_of_begins hbegins'
    cases hshape : Shape.ofHead c with
    | string =>
      rw [hshape] at hhas hhas'
      obtain rfl := string_unique hhas' hhas hbegins' hbegins
      exact List.prefix_refl _
    | char =>
      rw [hshape] at hhas hhas'
      obtain rfl := char_unique hhas'.1 hhas.1 hbegins' hbegins
      exact List.prefix_refl _
    | _ =>
      rw [hshape] at hhas'
      have hquote := hhas'.not_isQuote (by decide) (by decide)
      exact h.longest kind' v hv (begins_before_quote hr hquote hbegins')

/-- A comment that goes on is not skipped up to a quote. -/
theorem Skips.not_unfinished {w : List Char} (h : Skips w r) : ¬ Unfinished w := by
  obtain ⟨q, tail, rfl, hq⟩ := hr
  intro hunfinished
  cases h with
  | blanks hne hblank _ =>
    obtain ⟨more, rfl⟩ | ⟨more, rfl⟩ := hunfinished.startsComment
    · exact absurd (hblank '/' List.mem_cons_self) (by decide)
    · exact absurd (hblank '/' List.mem_cons_self) (by decide)
  | lineComment _ hstop =>
    obtain rfl : q = '\n' := by simpa using hstop
    exact absurd hq (by decide)
  | @blockComment body _ _ =>
    obtain ⟨_, heq, -⟩ | ⟨body', heq, hbody'⟩ := hunfinished
    · simp at heq
    · obtain rfl : body ++ ['*', '/'] = body' := by simpa using heq
      exact hbody' (List.suffix_append body _).isInfix

/-- A gap before a quote is one without the quote too, and no comment that goes on. -/
theorem skips_append_iff {w cs : List Char} :
    Skips w (cs ++ r) ↔ Skips w cs ∧ ¬ (cs = [] ∧ Unfinished w) := by
  constructor
  · intro h
    have hfinished : ¬ (cs = [] ∧ Unfinished w) := by
      rintro ⟨rfl, hunfinished⟩
      exact Skips.not_unfinished hr h hunfinished
    refine ⟨?_, hfinished⟩
    obtain ⟨q, tail, rfl, hq⟩ := hr
    generalize hrest : cs ++ q :: tail = rest at h
    cases h with
    | blanks hne hblank hstop =>
      refine .blanks hne hblank fun c hc => hstop c ?_
      rw [← hrest, List.head?_append, hc]
      rfl
    | lineComment hbody hstop =>
      cases cs with
      | nil => exact .lineComment hbody (.inl rfl)
      | cons c cs =>
        rw [← hrest] at hstop
        exact .lineComment hbody (.inr (by simpa using hstop))
    | blockComment hbody => exact .blockComment hbody
    | openComment => simp at hrest
  · rintro ⟨h, hfinished⟩
    cases h with
    | blanks hne hblank hstop =>
      refine .blanks hne hblank fun c hc => ?_
      cases cs with
      | nil =>
        obtain ⟨q, tail, rfl, hq⟩ := hr
        obtain rfl : q = c := by simpa using hc
        rw [Bool.eq_false_iff]
        intro hblank
        rw [isQuote_eq_false hblank (by decide) (by decide)] at hq
        cases hq
      | cons d cs => exact hstop c hc
    | lineComment hbody hstop =>
      cases cs with
      | nil => exact absurd ⟨rfl, .inl ⟨_, rfl, hbody⟩⟩ hfinished
      | cons c cs => exact .lineComment hbody (.inr (by simpa using hstop))
    | blockComment hbody => exact .blockComment hbody
    | openComment hbody => exact absurd ⟨rfl, .inr ⟨_, rfl, hbody⟩⟩ hfinished

/-- Nor does it change what a scan takes, but for a comment that is not finished. -/
theorem takes_append_iff {w cs : List Char} :
    Takes (w ++ (cs ++ r)) w ↔ Takes (w ++ cs) w ∧ ¬ (cs = [] ∧ Unfinished w) := by
  rw [takes_iff, takes_iff, skips_append_iff hr, ← List.append_assoc, startsComment_append_iff hr,
    List.append_assoc]
  simp only [longest_append_iff hr]
  constructor
  · rintro (h | ⟨hcomment, kind, hlongest⟩)
    · exact ⟨.inl h.1, h.2⟩
    · refine ⟨.inr ⟨hcomment, kind, hlongest⟩, ?_⟩
      rintro ⟨-, hunfinished⟩
      exact not_startsComment_of_vocabulary hlongest.lexeme hunfinished.startsComment
  · rintro ⟨h | h, hfinished⟩
    · exact .inl ⟨h, hfinished⟩
    · exact .inr h

theorem firstMatch?_append_eq_none_iff {c : Char} {cs : List Char} :
    firstMatch? (c :: (cs ++ r)) = none ↔ firstMatch? (c :: cs) = none := by
  rw [firstMatch?_eq_none_iff, firstMatch?_eq_none_iff, ← List.cons_append,
    startsComment_append_iff hr]
  refine and_congr_right fun _ => and_congr_right fun _ => and_congr_right fun hquote =>
    and_congr_right fun hapostrophe => ?_
  constructor
  · intro h kind w hw hbegins
    exact h kind w hw (hbegins.trans (List.prefix_append _ r))
  · intro h kind w hw hbegins
    -- The lexeme does not begin with a quote, so it has none.
    obtain ⟨shape, hshape, hstarts⟩ := Shape.exists_ofHead c
    have hhas : shape.Has kind w := hshape ▸ hw.has_of_begins hbegins
    have hstring : shape ≠ .string := by
      rintro rfl
      exact hquote hstarts
    have hchar : shape ≠ .char := by
      rintro rfl
      exact hapostrophe hstarts
    exact h kind w hw (begins_before_quote hr (hhas.not_isQuote hstring hchar) hbegins)

end

/-! ### Comments at the end of a text -/

/-- A scan of the text ends inside a comment. -/
def EndsInComment (cs : List Char) : Prop :=
  ∃ front comment, cs = front ++ comment ∧ Reaches comment front ∧ Unfinished comment

/-- The text is scanned to its end, and that is not inside a comment. -/
def Completes (cs : List Char) : Prop :=
  (∃ tokens, tokenize (String.ofList cs) = .ok tokens) ∧ ¬ EndsInComment cs

theorem Unfinished.endsInComment {cs : List Char} (h : Unfinished cs) : EndsInComment cs :=
  ⟨[], cs, rfl, .nil, h⟩

theorem EndsInComment.unknown {c : Char} {cs : List Char} (hnone : firstMatch? (c :: cs) = none)
    (h : EndsInComment cs) : EndsInComment (c :: cs) := by
  obtain ⟨front, comment, rfl, hfront, hcomment⟩ := h
  exact ⟨c :: front, comment, rfl, .unknown hnone hfront, hcomment⟩

/-- A scan that ends inside a comment still does so with more text before it. -/
theorem EndsInComment.taken {w cs : List Char} (htakes : Takes (w ++ cs) w)
    (h : EndsInComment cs) : EndsInComment (w ++ cs) := by
  obtain ⟨front, comment, rfl, hfront, hcomment⟩ := h
  exact ⟨w ++ front, comment, by rw [List.append_assoc], .taken htakes hfront, hcomment⟩

section

variable {r : List Char} (hr : StartsQuote r)

include hr

/-- A scan that comes to a quote has left all comments. -/
theorem Lexical.Reaches.not_endsInComment {cs : List Char} (h : Reaches r cs) :
    ¬ EndsInComment cs := by
  -- The scan that comes to a comment takes the same steps as the one that comes to the quote.
  rintro ⟨front, comment, heq, hfront, hcomment⟩
  have hskip : Takes comment comment := ⟨_, by simpa using hcomment.skips.firstMatch?_eq, rfl, rfl⟩
  induction h generalizing front with
  | nil =>
    obtain ⟨-, rfl⟩ := List.append_eq_nil_iff.1 heq.symm
    exact hskip.firstMatch?_ne_none rfl
  | @unknown c cs hnone _ ih =>
    rw [firstMatch?_append_eq_none_iff hr] at hnone
    cases hfront with
    | nil =>
      rw [List.nil_append] at heq
      exact hskip.firstMatch?_ne_none (heq ▸ hnone)
    | unknown _ hfront =>
      obtain ⟨rfl, hcs⟩ := List.cons.inj heq
      exact ih _ hcs hfront
    | taken htakes _ =>
      rw [← List.append_assoc, ← heq] at htakes
      exact htakes.firstMatch?_ne_none hnone
  | @taken w cs htakes _ ih =>
    obtain ⟨htakes, hfinished⟩ := (takes_append_iff hr).1 htakes
    cases hfront with
    | nil =>
      obtain rfl : w ++ cs = comment := heq
      obtain hw : w = w ++ cs := htakes.unique hskip
      have hcs : cs = [] := List.self_eq_append_right.1 hw
      subst hcs
      exact hfinished ⟨rfl, by simpa using hcomment⟩
    | unknown hnone _ =>
      rw [← List.cons_append, ← heq] at hnone
      exact htakes.firstMatch?_ne_none hnone
    | @taken w' front htakes' hfront =>
      rw [← List.append_assoc, ← heq] at htakes'
      obtain rfl := htakes.unique htakes'
      rw [List.append_assoc] at heq
      exact ih front (List.append_cancel_left heq) hfront

/-- A scan comes to a quote exactly if the text before it, alone, is scanned to its end
and that is not inside a comment. -/
theorem reaches_iff_completes {cs : List Char} : Reaches r cs ↔ Completes cs := by
  rw [Completes, tokenize, String.toList_ofList, tokensFrom_ok_iff]
  constructor
  · intro h
    refine ⟨?_, h.not_endsInComment hr⟩
    induction h with
    | nil => exact .nil
    | unknown hnone _ ih =>
      rw [firstMatch?_append_eq_none_iff hr] at hnone
      exact .unknown (by rwa [List.append_nil]) ih
    | taken htakes _ ih =>
      obtain ⟨htakes, -⟩ := (takes_append_iff hr).1 htakes
      exact .taken (by rwa [List.append_nil]) ih
  · rintro ⟨h, hcomment⟩
    induction h with
    | nil => exact .nil
    | unknown hnone _ ih =>
      rw [List.append_nil] at hnone
      have hrest := ih fun hends => hcomment (.unknown hnone hends)
      exact .unknown ((firstMatch?_append_eq_none_iff hr).2 hnone) hrest
    | @taken w cs htakes _ ih =>
      rw [List.append_nil] at htakes
      have hrest := ih fun hends => hcomment (.taken htakes hends)
      refine .taken ((takes_append_iff hr).2 ⟨htakes, ?_⟩) hrest
      rintro ⟨rfl, hunfinished⟩
      rw [List.append_nil] at hcomment
      exact hcomment hunfinished.endsInComment

end

end ClassScript

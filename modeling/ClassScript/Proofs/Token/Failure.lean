import ClassScript.Proofs.Token.Reaches

/-!
# Where a scan fails

A scan fails at a quote that opens no literal, and nowhere else. The error tells an open
literal from a char literal that is closed but holds no character or more than one
(`LiteralError`). What stands before the quote is scanned as if it stood alone, so the
place of the failure can be told without the scan that fails (`tokenize_fails_exactly`).
-/

namespace ClassScript

open Lexical Text

/-! ### Bad literals -/

/-- The text begins with a quote that opens no literal: a double quote that is not closed,
or a single quote with which no char literal begins. -/
def StartsBadLiteral (cs : List Char) : Prop :=
  (∃ tail, cs = '"' :: tail ∧
    ∀ body rest, QuotedBody '"' true body → tail ≠ body ++ '"' :: rest) ∨
  ∃ tail, cs = '\'' :: tail ∧ ∀ w, Vocabulary .char w → ¬ w <+: cs

/-- The text begins with a single quote that is closed in its line, after `body`. -/
def StartsClosedChar (cs body : List Char) : Prop :=
  QuotedBody '\'' false body ∧ ∃ rest, cs = '\'' :: (body ++ '\'' :: rest)

/-- The search for a closing quote fails only if there is none. -/
theorem closeQuote_eq_none_iff {quote : Char} {spansLines : Bool} {cs : List Char}
    (hquote : quote ≠ '\\') : Pattern.closeQuote quote spansLines cs = none ↔
      ∀ body rest, QuotedBody quote spansLines body → cs ≠ body ++ quote :: rest := by
  constructor
  · rintro h body rest hbody rfl
    rw [closeQuote_body hquote hbody] at h
    cases h
  · intro h
    cases hclose : Pattern.closeQuote quote spansLines cs with
    | none => rfl
    | some parts =>
      obtain ⟨body, hbody, htaken⟩ := quotedBody_of_closeQuote hclose
      refine absurd ?_ (h body parts.2 hbody)
      rw [← Pattern.closeQuote_append hclose, htaken]
      simp

/-- The same of the pattern of a char literal. -/
theorem charLiteral_eq_none_iff {cs : List Char} :
    Pattern.charLiteral.split? cs = none ↔ ∀ w, Vocabulary .char w → ¬ w <+: cs := by
  constructor
  · rintro h w hw ⟨rest, rfl⟩
    rw [charLiteral_append hw] at h
    cases h
  · intro h
    cases hsplit : Pattern.charLiteral.split? cs with
    | none => rfl
    | some parts =>
      refine absurd ⟨parts.2, Pattern.split?_append hsplit⟩ (h parts.1 ?_)
      exact vocabulary_charLiteral hsplit

/-- The error at a bad literal: a char literal that is closed is reported with all of its
text, any other literal with its quote. -/
structure LiteralError (cs : List Char) (cause : CompileError.Cause) : Prop where
  closed : ∀ body, StartsClosedChar cs body →
    cause = .invalidCharLiteral (String.ofList ('\'' :: (body ++ ['\''])))
  unclosed : (∀ body, ¬ StartsClosedChar cs body) → ∀ quote, cs.head? = some quote →
    cause = .unterminatedLiteral quote

/-- At a bad literal a rule matches that is an error. -/
theorem exists_failure_of_startsBadLiteral {cs : List Char} (h : StartsBadLiteral cs) :
    ∃ m cause, firstMatch? cs = some m ∧ m.failure? = some cause ∧ LiteralError cs cause := by
  rcases h with ⟨tail, rfl, hopen⟩ | ⟨tail, rfl, hchar⟩
  · rw [← closeQuote_eq_none_iff (by decide)] at hopen
    refine ⟨_, _, by rw [firstMatch?_string, hopen], rfl, ?_, ?_⟩
    · rintro body ⟨-, rest, heq⟩
      simp at heq
    · rintro - quote ⟨⟩
      rfl
  · rw [← charLiteral_eq_none_iff] at hchar
    cases hclose : Pattern.closeQuote '\'' false tail with
    | some parts =>
      refine ⟨_, _, by rw [firstMatch?_char, hchar, hclose], rfl, ?_, ?_⟩
      · rintro body ⟨hbody, rest, heq⟩
        obtain rfl := (List.cons.inj heq).2
        rw [closeQuote_body (by decide) hbody] at hclose
        cases hclose
        rfl
      · intro hnone
        obtain ⟨body, hbody, htaken⟩ := quotedBody_of_closeQuote hclose
        refine absurd ⟨hbody, parts.2, ?_⟩ (hnone body)
        rw [← Pattern.closeQuote_append hclose, htaken]
        simp
    | none =>
      refine ⟨_, _, by rw [firstMatch?_char, hchar, hclose], rfl, ?_, ?_⟩
      · rintro body ⟨hbody, rest, heq⟩
        obtain rfl := (List.cons.inj heq).2
        rw [closeQuote_body (by decide) hbody] at hclose
        cases hclose
      · rintro - quote ⟨⟩
        rfl

/-- The rules for errors want a quote. -/
theorem startsQuote_of_failure {cs : List Char} {m : Match} {cause : CompileError.Cause}
    (hm : firstMatch? cs = some m) (hfailure : m.failure? = some cause) :
    ∃ tail, cs = '"' :: tail ∨ cs = '\'' :: tail := by
  obtain ⟨rule, hmem, hmeaning, hsplit⟩ := exists_rule_of_firstMatch? hm
  have hrules : ∀ rule ∈ rules, (Match.failure? ⟨rule.meaning, [], []⟩).isSome = true →
      rule.pattern = .exact ['"'] ∨ rule.pattern = .quoted '\'' false ∨
        rule.pattern = .exact ['\''] := by
    decide
  have hfails : (Match.failure? ⟨rule.meaning, [], []⟩).isSome = true := by
    rw [hmeaning]
    unfold Match.failure? at hfailure ⊢
    cases hkind : m.meaning with
    | unterminated quote => rfl
    | invalidChar => rfl
    | _ => simp [hkind] at hfailure
  rcases hrules rule hmem hfails with hp | hp | hp
  · rw [hp] at hsplit
    obtain ⟨htaken, happend⟩ := Pattern.stripText_eq hsplit
    rw [htaken] at happend
    exact ⟨_, .inl happend.symm⟩
  · rw [hp] at hsplit
    cases cs with
    | nil => cases hsplit
    | cons c tail =>
      simp only [Pattern.split?] at hsplit
      split at hsplit
      · rename_i hc
        exact ⟨tail, .inr (by rw [hc])⟩
      · cases hsplit
  · rw [hp] at hsplit
    obtain ⟨htaken, happend⟩ := Pattern.stripText_eq hsplit
    rw [htaken] at happend
    exact ⟨_, .inr happend.symm⟩

/-- An error is never reported elsewhere. -/
theorem startsBadLiteral_of_failure {cs : List Char} {m : Match} {cause : CompileError.Cause}
    (hm : firstMatch? cs = some m) (hfailure : m.failure? = some cause) :
    StartsBadLiteral cs := by
  obtain ⟨tail, rfl | rfl⟩ := startsQuote_of_failure hm hfailure
  · refine .inl ⟨tail, rfl, ?_⟩
    rw [← closeQuote_eq_none_iff (by decide)]
    cases hclose : Pattern.closeQuote '"' true tail with
    | none => rfl
    | some parts =>
      rw [firstMatch?_string, hclose] at hm
      cases hm
      cases hfailure
  · refine .inr ⟨tail, rfl, ?_⟩
    rw [← charLiteral_eq_none_iff]
    cases hsplit : Pattern.charLiteral.split? ('\'' :: tail) with
    | none => rfl
    | some parts =>
      rw [firstMatch?_char, hsplit] at hm
      cases hm
      cases hfailure

theorem StartsBadLiteral.startsQuote {cs : List Char} (h : StartsBadLiteral cs) :
    StartsQuote cs := by
  rcases h with ⟨tail, rfl, -⟩ | ⟨tail, rfl, -⟩
  · exact ⟨_, tail, rfl, rfl⟩
  · exact ⟨_, tail, rfl, rfl⟩

/-- A scan that comes to a bad literal fails there. -/
theorem tokenize_of_badLiteral {source : String} {a r : List Char}
    (hsource : source.toList = a ++ r) (ha : Completes a) (hr : StartsBadLiteral r) :
    ∃ cause, tokenize source = .error (.atPosition cause (Position.start.after a)) ∧
      LiteralError r cause := by
  obtain ⟨m, cause, hm, hfailure, hcause⟩ := exists_failure_of_startsBadLiteral hr
  have hreaches : Reaches r a := (reaches_iff_completes hr.startsQuote).2 ha
  refine ⟨cause, ?_, hcause⟩
  exact tokensFrom_error_iff.2 ⟨a, r, m, cause, hsource, hreaches, hm, hfailure, rfl⟩

/-- A scan that fails has come to a bad literal. -/
theorem exists_badLiteral_of_tokenize {source : String} {e : CompileError}
    (h : tokenize source = .error e) :
    ∃ a r, source.toList = a ++ r ∧ Completes a ∧ StartsBadLiteral r ∧
      e.position = Position.start.after a := by
  obtain ⟨a, r, m, cause, hsource, hreaches, hm, hfailure, rfl⟩ := tokensFrom_error_iff.1 h
  have hbad := startsBadLiteral_of_failure hm hfailure
  exact ⟨a, r, hsource, (reaches_iff_completes hbad.startsQuote).1 hreaches, hbad, rfl⟩

/-- A scan fails at an offset exactly if the text before it is scanned to its end, not
inside a comment, and a bad literal begins there. The error is then the one of that
literal, at the position of the offset. -/
theorem tokenize_fails_exactly (source : String) :
    (∀ offset, (∃ e, tokenize source = .error e ∧ e.position.offset = offset) ↔
      ∃ a r, source.toList = a ++ r ∧ byteLength a = offset ∧ Completes a ∧ StartsBadLiteral r) ∧
    ∀ a r, source.toList = a ++ r → Completes a → StartsBadLiteral r →
      ∃ cause, tokenize source = .error (.atPosition cause (Position.start.after a)) ∧
        LiteralError r cause := by
  have hoffset (a : List Char) : (Position.start.after a).offset = byteLength a := by
    rw [offset_after]
    exact Nat.zero_add _
  refine ⟨fun offset => ⟨?_, ?_⟩, fun a r => tokenize_of_badLiteral⟩
  · rintro ⟨e, he, rfl⟩
    obtain ⟨a, r, hsource, ha, hr, hposition⟩ := exists_badLiteral_of_tokenize he
    exact ⟨a, r, hsource, by rw [hposition, hoffset], ha, hr⟩
  · rintro ⟨a, r, hsource, rfl, ha, hr⟩
    obtain ⟨cause, herror, -⟩ := tokenize_of_badLiteral hsource ha hr
    exact ⟨_, herror, hoffset a⟩

/-- Quotes in comments and in a string are passed over, and a char literal with two escapes
is reported with all of its text. -/
theorem tokenize_fails_exactly_escapes :
    ∃ a r, "/*'*/ \"'\" // \"\n'\\n\\t'".toList = a ++ r ∧ Completes a ∧ StartsBadLiteral r ∧
      tokenize "/*'*/ \"'\" // \"\n'\\n\\t'" =
        .error (.atPosition (.invalidCharLiteral "'\\n\\t'") ⟨2, 1, 15⟩) := by
  have hreaches : Reaches ['\'', '\\', 'n', '\\', 't', '\'']
      (['/', '*', '\'', '*', '/'] ++ ([' '] ++ (['"', '\'', '"'] ++ ([' '] ++
        (['/', '/', ' ', '"'] ++ (['\n'] ++ [])))))) :=
    .taken ⟨_, rfl, rfl, rfl⟩ (.taken ⟨_, rfl, rfl, rfl⟩ (.taken ⟨_, rfl, rfl, rfl⟩
      (.taken ⟨_, rfl, rfl, rfl⟩ (.taken ⟨_, rfl, rfl, rfl⟩ (.taken ⟨_, rfl, rfl, rfl⟩ .nil)))))
  have hbad : StartsBadLiteral ['\'', '\\', 'n', '\\', 't', '\''] :=
    .inr ⟨_, rfl, charLiteral_eq_none_iff.1 rfl⟩
  have hcompletes := (reaches_iff_completes hbad.startsQuote).1 hreaches
  have hbody : QuotedBody '\'' false ['\\', 'n', '\\', 't'] :=
    .escape (by decide) (.escape (by decide) .nil)
  have hsource : "/*'*/ \"'\" // \"\n'\\n\\t'".toList =
      (['/', '*', '\'', '*', '/'] ++ ([' '] ++ (['"', '\'', '"'] ++ ([' '] ++
        (['/', '/', ' ', '"'] ++ (['\n'] ++ [])))))) ++ ['\'', '\\', 'n', '\\', 't', '\''] := rfl
  refine ⟨_, _, hsource, hcompletes, hbad, ?_⟩
  obtain ⟨cause, herror, hcause⟩ := (tokenize_fails_exactly _).2 _ _ hsource hcompletes hbad
  rw [hcause.closed _ ⟨hbody, [], rfl⟩] at herror
  exact herror

end ClassScript

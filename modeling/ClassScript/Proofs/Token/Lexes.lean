import ClassScript.Token.Scan

/-!
# The steps of a scan

`Lexes p cs ts` says that the text `cs`, which begins at `p`, is cut into the
tokens `ts`. It has one rule for each thing that a scan can do at a place: end,
take a character that nothing matches, skip a gap, take a token. A successful
scan is exactly such a derivation (`tokensFrom_eq_ok_iff`), so facts about token
lists are proved by induction on it and do not open the scan again.

The second half says what kinds of texts the rules match.
-/

namespace ClassScript

open Lexical

/-- The kind of the token that a matched text is, if it is a token. -/
def Lexical.Match.kind? (m : Match) : Option Kind :=
  match m.meaning with
  | .token kind => some kind
  | .word => some (.ofWord (String.ofList m.taken))
  | _ => none

/-- The text `cs` from `p` on is cut into `ts`. -/
inductive Lexes : Position → List Char → List Token → Prop
  | done (p : Position) : Lexes p [] [.endOfInput p]
  | unknown {p : Position} {c : Char} {cs : List Char} {ts : List Token} :
      firstMatch? (c :: cs) = none → Lexes (p.next c) cs ts →
      Lexes p (c :: cs) (⟨.unknown, c.toString, ⟨p, p.next c⟩⟩ :: ts)
  | gap {p : Position} {cs : List Char} {m : Match} {ts : List Token} :
      firstMatch? cs = some m → m.meaning = .gap → Lexes (p.after m.taken) m.rest ts →
      Lexes p cs ts
  | token {p : Position} {cs : List Char} {m : Match} {kind : Kind} {ts : List Token} :
      firstMatch? cs = some m → m.kind? = some kind → Lexes (p.after m.taken) m.rest ts →
      Lexes p cs (⟨kind, String.ofList m.taken, ⟨p, p.after m.taken⟩⟩ :: ts)

theorem firstMatch?_nil : firstMatch? [] = none := rfl

/-- By induction on the text, one rule for each thing that the scan can do. -/
theorem Lexes.of_tokensFrom {p : Position} {cs : List Char} {ts : List Token}
    (h : tokensFrom p cs = .ok ts) : Lexes p cs ts := by
  -- One case for each branch of the scan. The last two are its errors.
  fun_induction tokensFrom p cs generalizing ts with
  | case1 p =>
    cases h
    exact .done p
  | case2 p c cs hnone ih =>
    cases hrest : tokensFrom (p.next c) cs with
    | error e => rw [hrest] at h; cases h
    | ok rest =>
      rw [hrest] at h
      cases h
      exact .unknown hnone (ih hrest)
  | case3 p c cs m hm _ stop hgap =>
    rename_i ih
    exact .gap hm hgap (ih h)
  | case4 p c cs m hm _ stop kind hkind =>
    rename_i ih
    cases hrest : tokensFrom (p.after m.taken) m.rest with
    | error e => rw [hrest] at h; cases h
    | ok rest =>
      rw [hrest] at h
      cases h
      exact .token hm (by simp [Match.kind?, hkind]) (ih hrest)
  | case5 p c cs m hm _ stop hword text =>
    rename_i ih
    cases hrest : tokensFrom (p.after m.taken) m.rest with
    | error e => rw [hrest] at h; cases h
    | ok rest =>
      rw [hrest] at h
      cases h
      exact .token hm (by simp [Match.kind?, hword, text]) (ih hrest)
  | case6 => cases h
  | case7 => cases h

/-- What a scan does where a rule matches. -/
theorem tokensFrom_of_match {p : Position} {cs : List Char} {m : Match}
    (hm : firstMatch? cs = some m) :
    tokensFrom p cs =
      let stop := p.after m.taken
      let text := String.ofList m.taken
      match m.meaning with
      | .gap => tokensFrom stop m.rest
      | .token kind => return ⟨kind, text, ⟨p, stop⟩⟩ :: (← tokensFrom stop m.rest)
      | .word => return ⟨.ofWord text, text, ⟨p, stop⟩⟩ :: (← tokensFrom stop m.rest)
      | .unterminated quote => .error (.atPosition (.unterminatedLiteral quote) p)
      | .invalidChar => .error (.atPosition (.invalidCharLiteral text) p) := by
  cases cs with
  | nil => rw [firstMatch?_nil] at hm; cases hm
  | cons c cs =>
    rw [tokensFrom.eq_def]
    dsimp only
    split
    · rename_i hnone
      rw [hm] at hnone
      cases hnone
    · rename_i m' hm'
      obtain rfl : m = m' := Option.some.inj (hm.symm.trans hm')
      rfl

/-- Every derivation is what the scan does. -/
theorem Lexes.tokensFrom_eq {p : Position} {cs : List Char} {ts : List Token}
    (h : Lexes p cs ts) : tokensFrom p cs = .ok ts := by
  induction h with
  | done p => unfold tokensFrom; rfl
  | unknown hnone _ ih =>
    unfold tokensFrom
    split
    · rw [ih]; rfl
    · rename_i m hm
      rw [hnone] at hm
      cases hm
  | gap hm hgap _ ih =>
    rw [tokensFrom_of_match hm, hgap]
    exact ih
  | token hm hkind _ ih =>
    rw [tokensFrom_of_match hm]
    -- A word is a token too, of the kind that its text tells.
    unfold Match.kind? at hkind
    split at hkind
    · rename_i hmeaning
      cases hkind
      simp only [hmeaning, ih]
      rfl
    · rename_i hmeaning
      cases hkind
      simp only [hmeaning, ih]
      rfl
    · cases hkind

/-- A scan succeeds exactly along the rules. -/
theorem tokensFrom_eq_ok_iff {p : Position} {cs : List Char} {ts : List Token} :
    tokensFrom p cs = .ok ts ↔ Lexes p cs ts :=
  ⟨Lexes.of_tokensFrom, Lexes.tokensFrom_eq⟩

/-! ### What the rules match -/

namespace Lexical

/-- The match of a rule whose meaning singles out its pattern. -/
theorem split?_of_firstMatch? {cs : List Char} {m : Match} {pattern : Pattern}
    (hm : firstMatch? cs = some m)
    (hrule : ∀ rule ∈ rules, rule.meaning = m.meaning → rule.pattern = pattern) :
    pattern.split? cs = some (m.taken, m.rest) := by
  obtain ⟨rule, hmem, hmeaning, hsplit⟩ := exists_rule_of_firstMatch? hm
  rw [← hrule rule hmem hmeaning]
  exact hsplit

/-- What is taken as a word was matched by the pattern of words. -/
theorem split?_of_word {cs : List Char} {m : Match} (hm : firstMatch? cs = some m)
    (hword : m.meaning = .word) : Pattern.word.split? cs = some (m.taken, m.rest) := by
  refine split?_of_firstMatch? hm ?_
  rw [hword]
  decide

theorem split?_of_number {cs : List Char} {m : Match} (hm : firstMatch? cs = some m)
    (hnumber : m.meaning = .token .number) :
    Pattern.number.split? cs = some (m.taken, m.rest) := by
  refine split?_of_firstMatch? hm ?_
  rw [hnumber]
  decide

theorem meaning_of_kind?_identifier {cs : List Char} {m : Match} (hm : firstMatch? cs = some m)
    (hkind : m.kind? = some .identifier) :
    m.meaning = .word ∧ Kind.ofWord (String.ofList m.taken) = .identifier := by
  obtain ⟨rule, hmem, hmeaning, -⟩ := exists_rule_of_firstMatch? hm
  unfold Match.kind? at hkind
  split at hkind
  · rename_i kind hm'
    cases hkind
    have hnot : ∀ r ∈ rules, r.meaning ≠ .token .identifier := by decide
    exact absurd (hmeaning.trans hm') (hnot rule hmem)
  · rename_i hm'
    exact ⟨hm', Option.some.inj hkind⟩
  · cases hkind

end Lexical

/-- A word of the language: a letter or underscore, then letters, digits and
underscores. -/
def IsWord (cs : List Char) : Prop :=
  ∃ c rest, cs = c :: rest ∧ Pattern.isWordStart c = true ∧ ∀ d ∈ rest, Pattern.isWordPart d = true

theorem isWord_cons (c : Char) (rest : List Char) (hc : Pattern.isWordStart c = true)
    (hrest : rest.all Pattern.isWordPart = true) : IsWord (c :: rest) :=
  ⟨c, rest, rfl, hc, List.all_eq_true.1 hrest⟩

/-- The pattern of words takes words only. -/
theorem isWord_of_split? {cs taken rest : List Char}
    (h : Pattern.word.split? cs = some (taken, rest)) : IsWord taken := by
  cases cs with
  | nil => cases h
  | cons c cs =>
    simp only [Pattern.split?] at h
    split at h
    · rename_i hc
      cases h
      exact ⟨c, _, rfl, hc, fun d hd => List.all_eq_true.1 List.all_takeWhile d hd⟩
    · cases h

/-- A word that is no keyword. -/
def IsName (name : String) : Prop :=
  IsWord name.toList ∧ Kind.ofWord name = .identifier

/-- What is known of a token by its kind: an identifier is a name, and a number
begins with a digit. -/
structure Token.IsLexeme (t : Token) : Prop where
  word : t.kind = .identifier → IsName t.text
  number : t.kind = .number → ∃ d rest, t.text.toList = d :: rest ∧ d.isDigit = true

theorem isLexeme_endOfInput (p : Position) : (Token.endOfInput p).IsLexeme :=
  ⟨by simp [Token.endOfInput], by simp [Token.endOfInput]⟩

/-- A word is an identifier or a keyword. -/
theorem ofWord_ne {text : String} {kind : Kind} (h : kind ∉ Kind.keywords)
    (hi : kind ≠ .identifier) : Kind.ofWord text ≠ kind := by
  unfold Kind.ofWord
  cases hk : Kind.keyword? text with
  | none => exact hi.symm
  | some k =>
    rintro rfl
    exact h (List.mem_of_find?_eq_some hk)

/-- By induction on the derivation. -/
theorem Lexes.isLexeme {p : Position} {cs : List Char} {ts : List Token} (h : Lexes p cs ts) :
    ∀ t ∈ ts, t.IsLexeme := by
  induction h with
  | done p =>
    intro t ht
    obtain rfl := List.mem_singleton.1 ht
    exact isLexeme_endOfInput p
  | unknown _ _ ih => exact List.forall_mem_cons.2 ⟨⟨by simp, by simp⟩, ih⟩
  | gap _ _ _ ih => exact ih
  | @token p cs m kind ts hm hkind _ ih =>
    refine List.forall_mem_cons.2 ⟨⟨?_, ?_⟩, ih⟩
    · rintro rfl
      obtain ⟨hword, hof⟩ := meaning_of_kind?_identifier hm hkind
      exact ⟨by simpa using isWord_of_split? (split?_of_word hm hword), hof⟩
    · rintro rfl
      -- A word is an identifier or a keyword, so the rule for numbers has matched.
      have hmeaning : m.meaning = .token .number := by
        unfold Match.kind? at hkind
        split at hkind
        · rename_i hm'
          rw [hm', Option.some.inj hkind]
        · exact absurd (Option.some.inj hkind) (ofWord_ne (by decide) (by decide))
        · cases hkind
      have hsplit := split?_of_number hm hmeaning
      cases cs with
      | nil => cases hsplit
      | cons c cs =>
        simp only [Pattern.split?] at hsplit
        split at hsplit
        · rename_i hc
          simp only [Pattern.prepend, Option.some.injEq, Prod.mk.injEq] at hsplit
          exact ⟨c, _, by rw [String.toList_ofList, ← hsplit.1]; rfl, hc⟩
        · cases hsplit

theorem isLexeme_of_tokenize {source : String} {ts : List Token} (h : tokenize source = .ok ts) :
    ∀ t ∈ ts, t.IsLexeme :=
  (Lexes.of_tokensFrom h).isLexeme

end ClassScript

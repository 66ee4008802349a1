import ClassScript.Proofs.Token.Lexes
import ClassScript.Text.Bytes

/-!
# Tokens tile their source

Between two tokens of a text, before the first and before the end of the input,
stand gaps: blanks and comments and nothing else (`Gap`). The gaps and the tokens
together are the text, in order and without loss (`Tiles`), and a token's offsets
cut its own text out of the source.
-/

namespace ClassScript

open Lexical Text

/-! ### Gaps -/

/-- `Gap cs rest` says that `cs`, where `rest` follows it, holds only blanks and
comments. A line comment runs up to a line feed or the end of the text, a block
comment up to the first mark that closes it. One that is never closed can only
stand at the end of the text. -/
inductive Gap : List Char → List Char → Prop
  | nil (rest : List Char) : Gap [] rest
  | blanks {run cs rest : List Char} : run ≠ [] → (∀ c ∈ run, isBlank c = true) →
      Gap cs rest → Gap (run ++ cs) rest
  | lineComment {body cs rest : List Char} : '\n' ∉ body →
      (cs ++ rest = [] ∨ (cs ++ rest).head? = some '\n') →
      Gap cs rest → Gap ('/' :: '/' :: body ++ cs) rest
  | blockComment {body cs rest : List Char} : ¬ ['*', '/'] <:+: body →
      Gap cs rest → Gap ('/' :: '*' :: body ++ ['*', '/'] ++ cs) rest
  | openComment {body : List Char} : ¬ ['*', '/'] <:+: body → Gap ('/' :: '*' :: body) []

theorem not_infix_cons {c : Char} {cs : List Char} (hc : ¬ ['*', '/'] <+: c :: cs)
    (hcs : ¬ ['*', '/'] <:+: cs) : ¬ ['*', '/'] <:+: c :: cs := by
  rw [List.infix_cons_iff]
  rintro (h | h)
  · exact hc h
  · exact hcs h

/-- A comment that is closed is closed at the first mark. -/
theorem closeComment_eq_some {cs taken rest : List Char}
    (h : Pattern.closeComment cs = some (taken, rest)) :
    ∃ body, taken = body ++ ['*', '/'] ∧ ¬ ['*', '/'] <:+: body := by
  fun_induction Pattern.closeComment cs generalizing taken rest with
  | case1 => cases h
  | case2 r =>
    cases h
    exact ⟨[], rfl, by simp⟩
  | case3 c r hne ih =>
    obtain ⟨⟨taken', rest'⟩, hr, hp⟩ := Option.map_eq_some_iff.1 h
    obtain ⟨body, rfl, hbody⟩ := ih hr
    cases hp
    refine ⟨c :: body, rfl, not_infix_cons ?_ hbody⟩
    -- A mark at `c` would have closed the comment there.
    intro hprefix
    have hr' := Pattern.closeComment_append hr
    obtain ⟨tail, htail⟩ := hprefix
    cases body with
    | nil => simp at htail
    | cons d body =>
      simp only [List.cons_append, List.nil_append, List.cons.injEq] at htail
      obtain ⟨rfl, rfl, -⟩ := htail
      exact hne _ rfl (by rw [← hr']; rfl)

/-- A comment that is not closed has no mark that closes it. -/
theorem closeComment_eq_none {cs : List Char} (h : Pattern.closeComment cs = none) :
    ¬ ['*', '/'] <:+: cs := by
  fun_induction Pattern.closeComment cs with
  | case1 => simp
  | case2 r => cases h
  | case3 c r hne ih =>
    refine not_infix_cons ?_ (ih (Option.map_eq_none_iff.1 h))
    rintro ⟨tail, htail⟩
    simp only [List.cons_append, List.nil_append, List.cons.injEq] at htail
    obtain ⟨rfl, rfl⟩ := htail
    exact hne tail rfl rfl

/-! ### What a scan skips -/

theorem split?_blanks {cs taken rest : List Char}
    (h : Pattern.blanks.split? cs = some (taken, rest)) :
    taken ≠ [] ∧ ∀ c ∈ taken, isBlank c = true := by
  cases cs with
  | nil => cases h
  | cons c cs =>
    simp only [Pattern.split?] at h
    split at h
    · rename_i hc
      cases h
      refine ⟨by simp, List.forall_mem_cons.2 ⟨hc, ?_⟩⟩
      exact fun d hd => List.all_eq_true.1 List.all_takeWhile d hd
    · cases h

theorem dropWhile_ne_newline (cs : List Char) :
    cs.dropWhile (· != '\n') = [] ∨ (cs.dropWhile (· != '\n')).head? = some '\n' := by
  cases h : cs.dropWhile (· != '\n') with
  | nil => exact .inl rfl
  | cons c rest =>
    have hc := List.head_dropWhile_not (· != '\n') (l := cs) (by simp [h])
    simp only [h, List.head_cons, bne_eq_false_iff_eq] at hc
    exact .inr (by rw [hc]; rfl)

theorem split?_lineComment {cs taken rest : List Char}
    (h : Pattern.lineComment.split? cs = some (taken, rest)) :
    ∃ body, taken = '/' :: '/' :: body ∧ '\n' ∉ body ∧ (rest = [] ∨ rest.head? = some '\n') := by
  unfold Pattern.split? at h
  split at h
  -- All other patterns and texts do not match.
  any_goals contradiction
  rename_i cs' hpattern
  cases h
  refine ⟨_, rfl, fun hmem => ?_, dropWhile_ne_newline cs'⟩
  have hne := List.all_eq_true.1 (List.all_takeWhile (p := (· != '\n')) (l := cs')) '\n' hmem
  simp at hne

/-- A comment is skipped up to the mark that closes it, or with all that follows. -/
theorem firstMatch?_comment (cs : List Char) :
    firstMatch? ('/' :: '*' :: cs) = some (match Pattern.closeComment cs with
      | some (taken, rest) => ⟨.gap, '/' :: '*' :: taken, rest⟩
      | none => ⟨.gap, '/' :: '*' :: cs, []⟩) := by
  have hblock : Pattern.blockComment.split? ('/' :: '*' :: cs) =
      (Pattern.closeComment cs).map (Pattern.prepend ['/', '*']) := rfl
  -- Neither blanks nor a line comment come before, and an open comment comes last.
  simp only [firstMatch?, rules, List.cons_append, List.findSome?_cons, Rule.match?, hblock]
  cases Pattern.closeComment cs <;> rfl

theorem split?_comment {p : Pattern} (hp : p = .blockComment ∨ p = .openComment)
    {cs taken rest : List Char} (h : p.split? cs = some (taken, rest)) :
    ∃ cs', cs = '/' :: '*' :: cs' := by
  unfold Pattern.split? at h
  split at h
  all_goals first | exact ⟨_, rfl⟩ | simp at hp h

/-- What a scan skips can stand in front of any gap before the rest of the text. -/
theorem Gap.cons_match {cs gap rest : List Char} {m : Match} (hm : firstMatch? cs = some m)
    (hgap : m.meaning = .gap) (hrest : gap ++ rest = m.rest) (h : Gap gap rest) :
    Gap (m.taken ++ gap) rest := by
  obtain ⟨rule, hmem, hmeaning, hsplit⟩ := exists_rule_of_firstMatch? hm
  have hpattern : rule.pattern = .blanks ∨ rule.pattern = .lineComment ∨
      (rule.pattern = .blockComment ∨ rule.pattern = .openComment) := by
    have hall : ∀ r ∈ rules, r.meaning = .gap → r.pattern = .blanks ∨ r.pattern = .lineComment ∨
        (r.pattern = .blockComment ∨ r.pattern = .openComment) := by decide
    exact hall rule hmem (hmeaning.trans hgap)
  rcases hpattern with hp | hp | hp
  · rw [hp] at hsplit
    obtain ⟨hne, hblank⟩ := split?_blanks hsplit
    exact .blanks hne hblank h
  · rw [hp] at hsplit
    obtain ⟨body, htaken, hbody, hstop⟩ := split?_lineComment hsplit
    rw [htaken]
    exact .lineComment hbody (hrest ▸ hstop) h
  · obtain ⟨cs', rfl⟩ := split?_comment hp hsplit
    rw [firstMatch?_comment] at hm
    cases hclose : Pattern.closeComment cs' with
    | some parts =>
      obtain ⟨taken, left⟩ := parts
      rw [hclose] at hm
      cases hm
      obtain ⟨body, rfl, hbody⟩ := closeComment_eq_some hclose
      exact .blockComment hbody h
    | none =>
      rw [hclose] at hm
      cases hm
      obtain ⟨rfl, rfl⟩ := List.append_eq_nil_iff.1 hrest
      rw [List.append_nil]
      exact .openComment (closeComment_eq_none hclose)

/-! ### Tilings -/

/-- The text that a token stands for in its source; the end of the input has none. -/
def Token.written (t : Token) : List Char :=
  if t.kind = .eof then [] else t.text.toList

/-- The text `cs` from the offset `o` on is a gap, a token, a gap, a token and so on
up to the end of the input. -/
inductive Tiles : Nat → List Char → List Token → Prop
  | stop {o : Nat} {gap : List Char} {t : Token} : Gap gap [] → t.kind = .eof →
      t.span.start = t.span.stop → t.span.start.offset = o + byteLength gap → Tiles o gap [t]
  | token {o : Nat} {gap rest : List Char} {t : Token} {ts : List Token} :
      Gap gap (t.text.toList ++ rest) → t.kind ≠ .eof → t.text ≠ "" →
      t.span.start.offset = o + byteLength gap →
      t.span.stop.offset = t.span.start.offset + byteLength t.text.toList →
      Tiles t.span.stop.offset rest ts → Tiles o (gap ++ (t.text.toList ++ rest)) (t :: ts)

/-- The first gap of a tiling may grow to the left. -/
theorem Tiles.prepend {o : Nat} {piece cs : List Char} {ts : List Token}
    (h : Tiles (o + byteLength piece) cs ts)
    (hpiece : ∀ gap rest, gap ++ rest = cs → Gap gap rest → Gap (piece ++ gap) rest) :
    Tiles o (piece ++ cs) ts := by
  cases h with
  | @stop _ _ t hgap hkind hspan hoffset =>
    refine .stop (hpiece cs [] (List.append_nil cs) hgap) hkind hspan ?_
    rw [hoffset, byteLength_append, Nat.add_assoc]
  | @token _ gap rest t ts hgap hkind htext hstart hstop hts =>
    rw [← List.append_assoc]
    refine .token (hpiece gap _ rfl hgap) hkind htext ?_ hstop hts
    rw [hstart, byteLength_append, Nat.add_assoc]

theorem offset_next (p : Position) (c : Char) : (p.next c).offset = p.offset + c.utf8Size := by
  unfold Position.next
  split <;> rfl

theorem offset_after (p : Position) (cs : List Char) :
    (p.after cs).offset = p.offset + byteLength cs := by
  induction cs generalizing p with
  | nil => rfl
  | cons c cs ih => rw [Position.after_cons, ih, offset_next, byteLength_cons, Nat.add_assoc]

theorem kind?_ne_eof {cs : List Char} {m : Match} {kind : Kind} (hm : firstMatch? cs = some m)
    (hkind : m.kind? = some kind) : kind ≠ .eof := by
  obtain ⟨rule, hmem, hmeaning, -⟩ := exists_rule_of_firstMatch? hm
  unfold Match.kind? at hkind
  split at hkind
  · rename_i kind' hm'
    cases hkind
    have hnot : ∀ r ∈ rules, r.meaning ≠ .token .eof := by decide
    rintro rfl
    exact hnot rule hmem (hmeaning.trans hm')
  · cases hkind
    exact ofWord_ne (by decide) (by decide)
  · cases hkind

/-- The tokens of a text tile it. -/
theorem Lexes.tiles {p : Position} {cs : List Char} {ts : List Token} (h : Lexes p cs ts) :
    Tiles p.offset cs ts := by
  induction h with
  | done p => exact .stop (.nil []) rfl rfl rfl
  | @unknown p c cs ts _ _ ih =>
    rw [offset_next] at ih
    have htext : c.toString.toList = [c] := by simp
    have htile := Tiles.token (t := ⟨.unknown, c.toString, ⟨p, p.next c⟩⟩)
      (.nil (c.toString.toList ++ cs)) (by simp) (by simp [Char.toString]) rfl
      (by simp [offset_next]) (by simpa [offset_next] using ih)
    simpa using htile
  | @gap p cs m ts hm hgap _ ih =>
    rw [offset_after] at ih
    rw [← firstMatch?_append hm]
    -- What is skipped joins the gap before the next token.
    exact ih.prepend fun gap rest hrest h => h.cons_match hm hgap hrest
  | @token p cs m kind ts hm hkind _ ih =>
    obtain ⟨rule, _, _, hsplit⟩ := exists_rule_of_firstMatch? hm
    have hne := Pattern.split?_ne_nil hsplit
    have htile := Tiles.token (t := ⟨kind, String.ofList m.taken, ⟨p, p.after m.taken⟩⟩)
      (.nil ((String.ofList m.taken).toList ++ m.rest)) (kind?_ne_eof hm hkind)
      (by simpa [← String.toList_inj] using hne) rfl (by simp [offset_after]) ih
    rw [← firstMatch?_append hm]
    simpa using htile

/-! ### Slices of a text -/

theorem splitAtByte?_append (front rest : List Char) :
    splitAtByte? (byteLength front) (front ++ rest) = some (front, rest) := by
  induction front with
  | nil => cases rest <;> rfl
  | cons c front ih =>
    have hpos := c.utf8Size_pos
    have hne : c.utf8Size + byteLength front ≠ 0 := by omega
    have hsub : c.utf8Size + byteLength front - c.utf8Size = byteLength front := by omega
    rw [List.cons_append, byteLength_cons, splitAtByte?, if_neg hne, if_pos (Nat.le_add_right _ _),
      hsub, ih]
    rfl

theorem slice?_append (front middle rest : List Char) :
    slice? (front ++ (middle ++ rest)) (byteLength front) (byteLength front + byteLength middle) =
      some middle := by
  have hsub : byteLength front + byteLength middle - byteLength front = byteLength middle :=
    Nat.add_sub_cancel_left _ _
  simp [slice?, splitAtByte?_append, hsub]

theorem byteLength_pos {cs : List Char} (h : cs ≠ []) : 0 < byteLength cs := by
  cases cs with
  | nil => exact absurd rfl h
  | cons c cs =>
    have hpos := c.utf8Size_pos
    rw [byteLength_cons]
    omega

/-! ### What a tiling says -/

namespace Tiles

variable {o : Nat} {cs : List Char} {ts : List Token}

/-- The last token, and no other, ends the input, where the text ends. -/
theorem ends (h : Tiles o cs ts) : ∃ words stop, ts = words ++ [stop] ∧
    (∀ t ∈ words, t.kind ≠ .eof) ∧ stop.kind = .eof ∧ stop.span.start = stop.span.stop ∧
    stop.span.start.offset = o + byteLength cs := by
  induction h with
  | stop _ hkind hspan hoffset => exact ⟨[], _, rfl, by simp, hkind, hspan, hoffset⟩
  | @token o gap rest t ts _ hkind _ hstart hstop _ ih =>
    obtain ⟨words, stop, rfl, hwords, hkind', hspan, hoffset⟩ := ih
    refine ⟨t :: words, stop, rfl, List.forall_mem_cons.2 ⟨hkind, hwords⟩, hkind', hspan, ?_⟩
    rw [hoffset, hstop, hstart, byteLength_append, byteLength_append]
    omega

/-- A token's offsets cut its own text out of the source, and it is not empty. -/
theorem slices (h : Tiles o cs ts) {front : List Char} (hfront : byteLength front = o) :
    ∀ t ∈ ts, t.kind ≠ .eof → t.text ≠ "" ∧ t.span.start.offset < t.span.stop.offset ∧
      slice? (front ++ cs) t.span.start.offset t.span.stop.offset = some t.text.toList := by
  induction h generalizing front with
  | stop _ hkind _ _ => exact List.forall_mem_singleton.2 fun hne => absurd hkind hne
  | @token o gap rest t ts _ hkind htext hstart hstop _ ih =>
    have hstart' : t.span.start.offset = byteLength (front ++ gap) := by
      rw [hstart, byteLength_append, hfront]
    have hnonempty : t.text.toList ≠ [] := by simpa using htext
    refine List.forall_mem_cons.2 ⟨fun _ => ⟨htext, ?_, ?_⟩, ?_⟩
    · have := byteLength_pos hnonempty
      omega
    · rw [hstop, hstart', ← List.append_assoc front gap]
      exact slice?_append (front ++ gap) t.text.toList rest
    · have hfront' : byteLength (front ++ gap ++ t.text.toList) = t.span.stop.offset := by
        rw [byteLength_append, hstop, hstart']
      simpa using ih hfront'

theorem offset_le (h : Tiles o cs ts) : ∀ t ∈ ts, o ≤ t.span.start.offset := by
  induction h with
  | stop _ _ _ hoffset => exact List.forall_mem_singleton.2 (by omega)
  | token _ _ _ hstart hstop _ ih =>
    exact List.forall_mem_cons.2 ⟨by omega, fun u hu => by have := ih u hu; omega⟩

/-- The spans are in order and do not overlap. -/
theorem ordered (h : Tiles o cs ts) :
    ts.Pairwise fun t u => t.span.stop.offset ≤ u.span.start.offset := by
  induction h with
  | stop => exact List.pairwise_singleton _ _
  | token _ _ _ _ _ hts ih => exact List.pairwise_cons.2 ⟨hts.offset_le, ih⟩

end Tiles

/-! ### Gaps and tokens in turn -/

/-- The gaps and what the tokens stand for, in turn. -/
def interleave : List (List Char) → List Token → List Char
  | gap :: gaps, t :: ts => gap ++ (t.written ++ interleave gaps ts)
  | _, _ => []

/-- The offset at which the last of the given tokens ends, or `o` if there is none. -/
def endOffset (o : Nat) (ts : List Token) : Nat :=
  (ts.getLast?.map (·.span.stop.offset)).getD o

theorem endOffset_cons (o : Nat) (t : Token) (ts : List Token) :
    endOffset o (t :: ts) = endOffset t.span.stop.offset ts := by
  cases ts with
  | nil => rfl
  | cons u us => simp [endOffset, List.getLast?_cons]

theorem Tiles.gaps {o : Nat} {cs : List Char} {ts : List Token} (h : Tiles o cs ts) :
    ∃ gaps, gaps.length = ts.length ∧ interleave gaps ts = cs ∧
      ∀ gs gap gs' us t us', gaps = gs ++ gap :: gs' → ts = us ++ t :: us' →
        gs.length = us.length →
        o + byteLength (interleave gs us) = endOffset o us ∧
        endOffset o us + byteLength gap = t.span.start.offset ∧
        Gap gap (t.written ++ interleave gs' us') := by
  induction h with
  | @stop o gap t hgap hkind _ hoffset =>
    refine ⟨[gap], rfl, by simp [interleave, Token.written, hkind], ?_⟩
    rintro (_ | ⟨g, gs⟩) gap' gs' (_ | ⟨u, us⟩) t' us' hgaps hts hlength
    · cases hgaps
      cases hts
      exact ⟨rfl, hoffset.symm, by simpa [Token.written, hkind, interleave] using hgap⟩
    · cases hlength
    · cases hlength
    · simp at hgaps
  | @token o gap rest t ts hgap hkind _ hstart hstop _ ih =>
    obtain ⟨gaps, hlen, hinter, hgaps⟩ := ih
    have hwritten : t.written = t.text.toList := if_neg hkind
    refine ⟨gap :: gaps, by simp [hlen], by simp [interleave, hinter, hwritten], ?_⟩
    -- The gap asked for is the first one, or one of the gaps of the rest.
    rintro (_ | ⟨g, gs⟩) gap' gs' (_ | ⟨u, us⟩) t' us' hgaps' hts hlength
    · cases hgaps'
      cases hts
      exact ⟨rfl, hstart.symm, by rw [hwritten, hinter]; exact hgap⟩
    · cases hlength
    · cases hlength
    · cases hgaps'
      cases hts
      obtain ⟨hend, hat, hgap'⟩ := hgaps gs gap' gs' us t' us' rfl rfl (Nat.succ.inj hlength)
      rw [endOffset_cons]
      refine ⟨?_, hat, hgap'⟩
      rw [interleave, byteLength_append, byteLength_append, hwritten]
      omega

/-- The tokens of a source, and all that is between them. -/
structure Tiling (source : List Char) (tokens : List Token) : Prop where
  /-- The last token, and no other, ends the input: with an empty span, at the end. -/
  ends : ∃ words stop, tokens = words ++ [stop] ∧ (∀ t ∈ words, t.kind ≠ .eof) ∧
    stop.kind = .eof ∧ stop.span.start = stop.span.stop ∧
    stop.span.start.offset = byteLength source
  /-- Every other token is not empty, and is the slice of the source at its span. -/
  slices : ∀ t ∈ tokens, t.kind ≠ .eof → t.text ≠ "" ∧
    t.span.start.offset < t.span.stop.offset ∧
    slice? source t.span.start.offset t.span.stop.offset = some t.text.toList
  /-- The spans are in order and do not overlap. -/
  ordered : tokens.Pairwise fun t u => t.span.stop.offset ≤ u.span.start.offset
  /-- What stands before a token is a gap, from the end of the token before to its
  own start. Gaps and tokens in turn make up the source. -/
  gaps : ∃ gaps, gaps.length = tokens.length ∧ interleave gaps tokens = source ∧
    ∀ gs gap gs' us t us', gaps = gs ++ gap :: gs' → tokens = us ++ t :: us' →
      gs.length = us.length →
      byteLength (interleave gs us) = endOffset 0 us ∧
      endOffset 0 us + byteLength gap = t.span.start.offset ∧
      Gap gap (t.written ++ interleave gs' us')

/-- Scanning loses nothing: the tokens and the gaps between them tile the source. -/
theorem tokenize_tiling {source : String} {tokens : List Token}
    (h : tokenize source = .ok tokens) : Tiling source.toList tokens := by
  have htiles : Tiles 0 source.toList tokens := (Lexes.of_tokensFrom h).tiles
  refine ⟨?_, htiles.slices (show byteLength [] = 0 from rfl), htiles.ordered, ?_⟩
  · simpa using htiles.ends
  · simpa using htiles.gaps

/-- A source with an unknown character of two bytes, both comments and an open one. -/
theorem tokenize_tiling_comments :
    ∃ tokens, tokenize "é // b\n+1/**/(/*" = .ok tokens ∧
      tokens.map (·.text) = ["é", "+", "1", "(", "EOF"] ∧
      Tiling "é // b\n+1/**/(/*".toList tokens := by
  have hchars : "é // b\n+1/**/(/*".toList =
      ['é', ' ', '/', '/', ' ', 'b', '\n', '+', '1', '/', '*', '*', '/', '(', '/', '*'] := rfl
  have hlexes : ∃ tokens, Lexes .start "é // b\n+1/**/(/*".toList tokens ∧
      tokens.map (·.text) = ["é", "+", "1", "(", "EOF"] := by
    rw [hchars]
    exact ⟨_, .unknown rfl (.gap rfl rfl (.gap rfl rfl (.gap rfl rfl (.token rfl rfl (.token rfl rfl
      (.gap rfl rfl (.token rfl rfl (.gap rfl rfl (.done _))))))))), rfl⟩
  obtain ⟨tokens, hlexes, htexts⟩ := hlexes
  exact ⟨tokens, hlexes.tokensFrom_eq, htexts, tokenize_tiling hlexes.tokensFrom_eq⟩

end ClassScript

import Mathlib.Algebra.GroupWithZero.Nat
import Mathlib.Data.List.Induction
import ClassScript.Proofs.Parse.Nesting

/-!
# Positions are true

A position names a point of a text by line, by column and by byte offset. It is true of the
text if the three agree: the offset is a place between characters, the line is counted by the
line feeds before that place, and the column by the characters after the last of them.

Positions are made in one way only, by reading characters from the beginning of the text on.
`GoesOn source p cs` says that `p` was come to so and that `cs` is left of the text; then `p`
is true. A scan and a cursor keep this, and the spans of nodes and the places of errors are
taken from tokens, so all positions that reading a text gives are true.
-/

namespace ClassScript

open Lexical
open Text (byteLength byteLength_append)

/-! ### True positions -/

/-- The characters of a text after its last line feed. -/
def lastLine (cs : List Char) : List Char := (cs.reverse.takeWhile (· ≠ '\n')).reverse

/-- The position is that of its offset in the text. -/
def Position.IsTrue (source : String) (p : Position) : Prop :=
  ∃ before rest, source.toList = before ++ rest ∧ p.offset = byteLength before ∧
    p.line = 1 + before.count '\n' ∧ p.column = 1 + (lastLine before).length

/-- Both ends of the span are true positions. -/
def Span.IsTrue (source : String) (span : Span) : Prop :=
  span.start.IsTrue source ∧ span.stop.IsTrue source

/-- The place of the error and the span of the token it carries are true. -/
def CompileError.IsTrue (source : String) (e : CompileError) : Prop :=
  e.position.IsTrue source ∧ ∀ t ∈ e.token, t.span.IsTrue source

theorem after_concat (p : Position) (cs : List Char) (c : Char) :
    p.after (cs ++ [c]) = (p.after cs).next c := by
  rw [Position.after_append]
  rfl

theorem lastLine_newline (cs : List Char) : lastLine (cs ++ ['\n']) = [] := by
  simp [lastLine]

theorem lastLine_concat {c : Char} (hc : c ≠ '\n') (cs : List Char) :
    lastLine (cs ++ [c]) = lastLine cs ++ [c] := by
  simp [lastLine, hc]

/-- Reading counts lines by line feeds, and columns from the last one. -/
theorem line_column_after (cs : List Char) :
    (Position.start.after cs).line = 1 + cs.count '\n' ∧
      (Position.start.after cs).column = 1 + (lastLine cs).length := by
  induction cs using List.reverseRecOn with
  | nil => exact ⟨rfl, rfl⟩
  | append_singleton cs c ih =>
    obtain ⟨hline, hcolumn⟩ := ih
    rw [after_concat, Position.next]
    by_cases hc : c = '\n'
    · subst hc
      rw [if_pos rfl, lastLine_newline, List.count_append]
      exact ⟨by simp [hline, Nat.add_assoc], rfl⟩
    · rw [if_neg hc, lastLine_concat hc, List.count_append]
      exact ⟨by simp [hline, hc], by simp [hcolumn, Nat.add_assoc]⟩

/-- At `p` the text goes on with `cs`: reading what is before leads to `p`. -/
def GoesOn (source : String) (p : Position) (cs : List Char) : Prop :=
  ∃ front, source.toList = front ++ cs ∧ p = Position.start.after front

theorem goesOn_start (source : String) : GoesOn source .start source.toList := ⟨[], rfl, rfl⟩

namespace GoesOn

variable {source : String} {p : Position} {taken cs : List Char}

theorem after (h : GoesOn source p (taken ++ cs)) : GoesOn source (p.after taken) cs := by
  obtain ⟨front, hsource, rfl⟩ := h
  refine ⟨front ++ taken, ?_, ?_⟩
  · rw [hsource, List.append_assoc]
  · rw [Position.after_append]

theorem next {c : Char} (h : GoesOn source p (c :: cs)) : GoesOn source (p.next c) cs := by
  rw [← List.singleton_append] at h
  exact h.after

theorem afterMatch {m : Match} (h : GoesOn source p cs) (hm : firstMatch? cs = some m) :
    GoesOn source (p.after m.taken) m.rest := by
  rw [← firstMatch?_append hm] at h
  exact h.after

theorem isTrue (h : GoesOn source p cs) : p.IsTrue source := by
  obtain ⟨front, hsource, rfl⟩ := h
  obtain ⟨hline, hcolumn⟩ := line_column_after front
  refine ⟨front, cs, hsource, ?_, hline, hcolumn⟩
  rw [offset_after]
  exact Nat.zero_add _

end GoesOn

/-- Lines and columns of a text of fewer than `2 ^ 32 - 1` characters fit into 32 bits. -/
theorem Position.IsTrue.lt {source : String} {p : Position} (h : p.IsTrue source)
    (hlength : source.length < UInt32.size - 1) :
    p.line < UInt32.size ∧ p.column < UInt32.size := by
  obtain ⟨before, rest, hsource, -, hline, hcolumn⟩ := h
  have hbefore : before.length ≤ source.length := by
    rw [← String.length_toList, hsource, List.length_append]
    exact Nat.le_add_right _ _
  have hcount : before.count '\n' ≤ before.length := List.count_le_length
  have hlast : (lastLine before).length ≤ before.length := by
    have hle := (List.takeWhile_sublist (· ≠ '\n') (l := before.reverse)).length_le
    rw [List.length_reverse] at hle
    rwa [lastLine, List.length_reverse]
  omega

/-! ### Tokens and the errors of a scan -/

theorem Lexes.isTrue {source : String} {p : Position} {cs : List Char} {ts : List Token}
    (h : Lexes p cs ts) (hp : GoesOn source p cs) : ∀ t ∈ ts, t.span.IsTrue source := by
  induction h with
  | done p => exact List.forall_mem_singleton.2 ⟨hp.isTrue, hp.isTrue⟩
  | unknown _ _ ih => exact List.forall_mem_cons.2 ⟨⟨hp.isTrue, hp.next.isTrue⟩, ih hp.next⟩
  | gap hm _ _ ih => exact ih (hp.afterMatch hm)
  | token hm _ _ ih =>
    have hstop := hp.afterMatch hm
    exact List.forall_mem_cons.2 ⟨⟨hp.isTrue, hstop.isTrue⟩, ih hstop⟩

theorem isTrue_of_tokenize {source : String} {tokens : List Token}
    (h : tokenize source = .ok tokens) : ∀ t ∈ tokens, t.span.IsTrue source :=
  (Lexes.of_tokensFrom h).isTrue (goesOn_start source)

theorem eq_error_of_bind {ε α β : Type} {x : Except ε α} {f : α → β} {e : ε}
    (h : (do return f (← x)) = Except.error e) : x = .error e := by
  cases x with
  | error => cases h; rfl
  | ok => cases h

/-- A scan fails where it stands. -/
theorem isTrue_of_tokensFrom {source : String} {p : Position} {cs : List Char} {e : CompileError}
    (h : tokensFrom p cs = .error e) (hp : GoesOn source p cs) : e.IsTrue source := by
  fun_induction tokensFrom p cs with
  | case1 => cases h
  | case2 p c cs hnone ih => exact ih (eq_error_of_bind h) hp.next
  | case3 p c cs m hm _ stop hgap ih => exact ih h (hp.afterMatch hm)
  | case4 p c cs m hm _ stop kind hkind ih => exact ih (eq_error_of_bind h) (hp.afterMatch hm)
  | case5 p c cs m hm _ stop hword text ih => exact ih (eq_error_of_bind h) (hp.afterMatch hm)
  | case6 | case7 =>
    cases h
    exact ⟨hp.isTrue, by simp [CompileError.atPosition]⟩

/-! ### Nodes and the errors of a parse -/

/-- The spans of a unit begin and end with tokens. -/
theorem isTrue_of_compile {source : String} {unit : CompilationUnit}
    (h : compile source = .ok unit) {span : Span} (hspan : unit.spanTree.Holds span) :
    span.IsTrue source := by
  obtain ⟨tokens, s, htokens, hunit⟩ := compile_eq_ok_iff.1 h
  have htrue := isTrue_of_tokenize htokens
  have hsame := Parse.ofTokens_tokens_of_tokenize htokens
  have hfits := (Parse.fits_compilationUnit (Parse.ended_ofTokens tokens) rfl).of_eq_ok hunit
  obtain ⟨w, hw, hfits⟩ := hfits
  rw [hsame] at hw
  rcases hfits with hfits | ⟨-, hempty⟩
  · obtain ⟨⟨t, ht, hstart⟩, t', ht', hstop⟩ := hfits.ends _ List.mem_cons_self span hspan
    rw [Span.IsTrue, ← hstart, ← hstop]
    have hmem {t : Token} (ht : t ∈ w) : t ∈ tokens := hw ▸ List.mem_append_left _ ht
    exact ⟨(htrue t (hmem ht)).1, (htrue t' (hmem ht')).2⟩
  · -- Nothing was read, and the span is that of the end of the input.
    rw [hempty] at hspan
    have hcurrent : (Parse.State.ofTokens tokens).current ∈ tokens := by
      have hmem : (Parse.State.ofTokens tokens).current ∈ (Parse.State.ofTokens tokens).tokens :=
        List.mem_cons_self
      rwa [hsame] at hmem
    have hstart := (htrue _ hcurrent).1
    cases hspan with
    | self => exact ⟨hstart, hstart⟩
    | inside hp _ => cases hp

/-- A parse fails at one of the tokens. -/
theorem exists_of_parseTokens {tokens : List Token} {e : CompileError}
    (h : parseTokens tokens = .error e) :
    ∃ cause, ∃ t ∈ (Parse.State.ofTokens tokens).tokens, e = .atToken cause t := by
  have hagrees := Parse.parseTokens_agrees (rfl : tokens.map Token.lexeme = _)
  rcases hagrees with ⟨u, _, hu, -⟩ | ⟨cause, t, _, ⟨i, hi, -⟩, he, -⟩
  · rw [hu] at h
    cases h
  · rw [he] at h
    cases h
    exact ⟨cause, t, List.mem_of_getElem? hi, rfl⟩

theorem isTrue_of_compile_error {source : String} {e : CompileError}
    (h : compile source = .error e) : e.IsTrue source := by
  cases htokens : tokenize source with
  | error e' =>
    rw [compile, htokens] at h
    cases h
    exact isTrue_of_tokensFrom htokens (goesOn_start source)
  | ok tokens =>
    rw [compile, htokens] at h
    obtain ⟨cause, t, ht, rfl⟩ := exists_of_parseTokens h
    rw [Parse.ofTokens_tokens_of_tokenize htokens] at ht
    have htrue := isTrue_of_tokenize htokens t ht
    exact ⟨htrue.1, by simpa [CompileError.atToken] using htrue⟩

/-! ### Cursors -/

/-- The offset is a place between characters of the text. -/
def IsBoundary (source : String) (offset : Nat) : Prop :=
  ∃ before rest, source.toList = before ++ rest ∧ byteLength before = offset

/-- A cursor reads what is there of the bytes, if these end between characters. -/
theorem advance_append (p : Position) {n : Nat} {taken rest : List Char}
    (hn : byteLength taken ≤ n) (hrest : rest = [] ∨ byteLength taken = n) :
    Cursor.advance ⟨p, taken ++ rest⟩ n = ⟨p.after taken, rest⟩ := by
  show Cursor.advance.go p n (taken ++ rest) = _
  induction taken generalizing p n with
  | nil =>
    cases rest with
    | nil => rfl
    | cons c rest =>
      have hzero : 0 = n := by simpa using hrest
      have hpos := c.utf8Size_pos
      rw [List.nil_append, Cursor.advance.go, if_neg (by omega)]
      rfl
  | cons c taken ih =>
    rw [Text.byteLength_cons] at hn hrest
    have hrest' : rest = [] ∨ byteLength taken = n - c.utf8Size := hrest.imp_right (by omega)
    rw [List.cons_append, Cursor.advance.go, if_pos (by omega), ih _ (by omega) hrest']
    rfl

/-- Of two beginnings of a text, the one with fewer bytes begins the other. -/
theorem exists_append_of_byteLength_le {cs front before rest rest' : List Char}
    (h : cs = front ++ rest) (h' : cs = before ++ rest')
    (hle : byteLength front ≤ byteLength before) : ∃ taken, before = front ++ taken := by
  have hfront : front <+: cs := ⟨rest, h.symm⟩
  have hbefore : before <+: cs := ⟨rest', h'.symm⟩
  rcases List.prefix_or_prefix_of_prefix hfront hbefore with ⟨taken, htaken⟩ | ⟨more, hmore⟩
  · exact ⟨taken, htaken.symm⟩
  · rw [← hmore, byteLength_append] at hle
    have hnil : more = [] := by
      refine Classical.byContradiction fun hne => ?_
      have := byteLength_pos hne
      omega
    exact ⟨[], by rw [← hmore, hnil, List.append_nil, List.append_nil]⟩

/-- A cursor that was moved from boundary to boundary stands at the sum of the moves, or at the
end of the text. -/
theorem goesOn_foldl_advance {source : String} {ns : List Nat}
    (h : ∀ ms, ms <+: ns → IsBoundary source (min ms.sum (byteLength source.toList))) :
    ∃ p rest, ns.foldl Cursor.advance (.ofText source) = ⟨p, rest⟩ ∧ GoesOn source p rest ∧
      p.offset = min ns.sum (byteLength source.toList) := by
  induction ns using List.reverseRecOn with
  | nil => exact ⟨.start, source.toList, rfl, goesOn_start source, by simp [Position.start]⟩
  | append_singleton ns n ih =>
    obtain ⟨before, rest', hsource', hbefore⟩ := h _ List.prefix_rfl
    obtain ⟨p, rest, hcursor, hp, hoffset⟩ :=
      ih fun ms hms => h ms (hms.trans (List.prefix_append ns [n]))
    rw [List.sum_append, List.sum_singleton] at hbefore ⊢
    obtain ⟨front, hsource, hfront⟩ := hp
    have hlength : byteLength front = p.offset := by
      rw [hfront, offset_after]
      exact (Nat.zero_add _).symm
    obtain ⟨taken, rfl⟩ := exists_append_of_byteLength_le hsource hsource' (by omega)
    rw [List.append_assoc] at hsource'
    obtain rfl : rest = taken ++ rest' := List.append_cancel_left (hsource.symm.trans hsource')
    have htotal : byteLength source.toList =
        byteLength front + (byteLength taken + byteLength rest') := by
      rw [hsource, byteLength_append, byteLength_append]
    rw [byteLength_append] at hbefore
    refine ⟨p.after taken, rest', ?_, GoesOn.after ⟨front, hsource, hfront⟩, ?_⟩
    · rw [List.foldl_append, hcursor]
      refine advance_append p (by omega) ?_
      by_cases hrest : rest' = []
      · exact .inl hrest
      · have := byteLength_pos hrest
        exact .inr (by omega)
    · rw [offset_after, ← hlength, hbefore]

/-! ### All positions -/

/-- What holds of the positions that reading the text gives: those of tokens, of nodes and of
errors, and those of a cursor that is moved from boundary to boundary. -/
structure TruePositions (source : String) : Prop where
  tokens : ∀ ts, tokenize source = .ok ts → ∀ t ∈ ts, t.span.IsTrue source
  scanError : ∀ e, tokenize source = .error e → e.IsTrue source
  nodes : ∀ unit, compile source = .ok unit →
    ∀ span, unit.spanTree.Holds span → span.IsTrue source
  error : ∀ e, compile source = .error e → e.IsTrue source
  cursor : ∀ ns : List Nat,
    (∀ ms, ms <+: ns → IsBoundary source (min ms.sum (byteLength source.toList))) →
    let p := (ns.foldl Cursor.advance (.ofText source)).position
    p.offset = min ns.sum (byteLength source.toList) ∧ p.IsTrue source
  /-- A position has room in 32 bits. -/
  bounded : source.length < UInt32.size - 1 → ∀ p : Position, p.IsTrue source →
    p.line < UInt32.size ∧ p.column < UInt32.size

/-- Every position that reading a text gives is the true position of its offset. -/
theorem positions_true (source : String) : TruePositions source where
  tokens _ h := isTrue_of_tokenize h
  scanError _ h := isTrue_of_tokensFrom h (goesOn_start source)
  nodes _ h _ hspan := isTrue_of_compile h hspan
  error _ h := isTrue_of_compile_error h
  cursor ns h := by
    obtain ⟨p, rest, hcursor, hp, hoffset⟩ := goesOn_foldl_advance h
    rw [hcursor]
    exact ⟨hoffset, hp.isTrue⟩
  bounded hlength _ hp := hp.lt hlength

end ClassScript

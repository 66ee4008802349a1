import ClassScript.Proofs.Parse.ScopeLog
import ClassScript.Proofs.Parse.TakesAfter

/-!
# Regions in braces

The body of an accessor is skipped without a look at anything but its braces. `Braced` is the
grammar of what may stand between a brace and the one that closes it. A count says the same
(`braced_iff`): no brace is closed too many on the way, and none is open in the end.

The loop that skips a body goes on as long as a brace is open, so what it passes over never
closes one too many (`BraceLoop.stops`). Where it stops at a brace, this is the one that the
grammar asks for. Where it stops at the end of the input there is none before, since a closing
brace after matching ones would have been one too many (`ClosedBy.eq_or_within`).
-/

namespace ClassScript.Parse

/-! ### Matching braces -/

/-- Tokens with matching braces. Nothing is asked of other tokens. -/
inductive Braced : List Token → Prop
  | nil : Braced []
  | token {t : Token} {ts : List Token} : t.kind.isCurly = false → Braced ts → Braced (t :: ts)
  | braces {o c : Token} {ts us : List Token} : o.kind = .openCurly → Braced ts →
      c.kind = .closeCurly → Braced us → Braced (o :: ts ++ c :: us)

theorem Braced.bracesAfterAll_eq {w : List Token} (h : Braced w) (n : Nat) :
    bracesAfterAll n w = some n := by
  induction h generalizing n with
  | nil => rfl
  | token ht _ ih =>
    rw [bracesAfterAll_cons, bracesAfter_eq_self n ht]
    exact ih n
  | braces ho _ hc _ ih ih' =>
    rw [List.cons_append, bracesAfterAll_cons, ho]
    show bracesAfterAll (n + 1) _ = _
    rw [bracesAfterAll_append, ih, Option.bind_some, bracesAfterAll_cons, hc]
    exact ih' n

/-- After matching braces one more is closed. -/
theorem Braced.bracesAfterAll_closing {w : List Token} (h : Braced w) {c : Token}
    (hc : c.kind = .closeCurly) (v : List Token) : bracesAfterAll 0 (w ++ c :: v) = none := by
  rw [bracesAfterAll_append, h.bracesAfterAll_eq, Option.bind_some, bracesAfterAll_cons, hc]
  rfl

/-- If no brace is open in the end, either all of them match, or the first one that does not is
a closing one after matching ones. The induction is on the length, because an inner pair of
braces is followed by tokens that are not part of it. -/
theorem braced_or_closing {n : Nat} {w : List Token} (h : bracesAfterAll n w = some 0) :
    (n = 0 ∧ Braced w) ∨ ∃ m u c v, n = m + 1 ∧ w = u ++ c :: v ∧ Braced u ∧
      c.kind = .closeCurly ∧ bracesAfterAll m v = some 0 := by
  induction hlength : w.length using Nat.strongRecOn generalizing n w with
  | ind l ih =>
    cases w with
    | nil =>
      cases h
      exact .inl ⟨rfl, .nil⟩
    | cons t w =>
      rw [List.length_cons] at hlength
      rw [bracesAfterAll_cons] at h
      by_cases hopen : t.kind = .openCurly
      · rw [hopen] at h
        rcases ih w.length (by omega) (n := n + 1) h rfl with
          ⟨hn, -⟩ | ⟨_, u, c, w', ⟨⟩, rfl, hu, hc, hw'⟩
        · cases hn
        -- The brace is closed by `c`, and the same is asked of what follows.
        rw [List.length_append, List.length_cons] at hlength
        rcases ih w'.length (by omega) hw' rfl with
          ⟨rfl, hbraced⟩ | ⟨m, u', c', v, rfl, rfl, hu', hrest⟩
        · exact .inl ⟨rfl, .braces hopen hu hc hbraced⟩
        · exact .inr ⟨m, t :: u ++ c :: u', c', v, rfl, by simp, .braces hopen hu hc hu', hrest⟩
      by_cases hclose : t.kind = .closeCurly
      · rw [hclose] at h
        cases n with
        | zero => cases h
        | succ m => exact .inr ⟨m, [], t, w, rfl, rfl, .nil, hclose, h⟩
      · have hcurly := isCurly_eq_false hopen hclose
        rw [bracesAfter_eq_self _ hcurly] at h
        rcases ih w.length (by omega) h rfl with
          ⟨rfl, hbraced⟩ | ⟨m, u, c, v, rfl, rfl, hu, hrest⟩
        · exact .inl ⟨rfl, .token hcurly hbraced⟩
        · exact .inr ⟨m, t :: u, c, v, rfl, rfl, .token hcurly hu, hrest⟩

theorem braced_iff {w : List Token} : Braced w ↔ bracesAfterAll 0 w = some 0 := by
  refine ⟨fun h => h.bracesAfterAll_eq 0, fun h => ?_⟩
  rcases braced_or_closing h with ⟨-, hbraced⟩ | ⟨_, _, _, _, hn, -⟩
  · exact hbraced
  · cases hn

/-- An open brace is closed by the first one after matching braces. -/
theorem exists_closing {w : List Token} (h : bracesAfterAll 1 w = some 0) :
    ∃ u c v, w = u ++ c :: v ∧ Braced u ∧ c.kind = .closeCurly := by
  rcases braced_or_closing h with ⟨hn, -⟩ | ⟨_, u, c, v, -, hw, hu, hc, -⟩
  · cases hn
  · exact ⟨u, c, v, hw, hu, hc⟩

instance (w : List Token) : Decidable (Braced w) := decidable_of_iff _ braced_iff.symm

/-! ### The brace that closes -/

/-- The brace before the tokens `ts` is closed by `close`, with `body` between the two, and
the input does not end before that. -/
structure ClosedBy (ts body : List Token) (close : Token) (rest : List Token) : Prop where
  split : ts = body ++ close :: rest
  closing : close.kind = .closeCurly
  braced : Braced body
  before_end : ∀ t ∈ body, t.kind ≠ .eof

namespace ClosedBy

variable {ts body rest : List Token} {close : Token}

/-- Tokens that close no brace too many go up to the closing brace at most: what comes after
them is that brace or part of the body. -/
theorem eq_or_within (h : ClosedBy ts body close rest) {n : Nat} {w v : List Token} {x : Token}
    (hw : bracesAfterAll 0 w = some n) (hts : ts = w ++ x :: v) :
    (body = w ∧ close = x ∧ rest = v) ∨ ∃ u, body = w ++ x :: u := by
  rcases List.append_eq_append_iff.1 (h.split.symm.trans hts) with ⟨u, rfl, hu⟩ | ⟨u, rfl, hu⟩
  · cases u with
    | nil =>
      cases hu
      exact .inl ⟨by simp, rfl, rfl⟩
    | cons t u =>
      cases hu
      rw [h.braced.bracesAfterAll_closing h.closing] at hw
      cases hw
  · cases u with
    | nil =>
      cases hu
      exact .inl ⟨by simp, rfl, rfl⟩
    | cons t u =>
      cases hu
      exact .inr ⟨u, rfl⟩

/-- No other brace closes it. -/
theorem unique (h : ClosedBy ts body close rest) {body' rest' : List Token} {close' : Token}
    (h' : ClosedBy ts body' close' rest') : body = body' ∧ close = close' ∧ rest = rest' := by
  rcases h.eq_or_within (h'.braced.bracesAfterAll_eq 0) h'.split with hsame | ⟨u, rfl⟩
  · exact hsame
  · have hcount := h.braced.bracesAfterAll_eq 0
    rw [h'.braced.bracesAfterAll_closing h'.closing] at hcount
    cases hcount

/-- No brace closes it if the input ends after tokens that close no brace too many. -/
theorem false_of_end (h : ClosedBy ts body close rest) {n : Nat} {w v : List Token} {stop : Token}
    (hw : bracesAfterAll 0 w = some n) (hts : ts = w ++ stop :: v) (hstop : stop.kind = .eof) :
    False := by
  rcases h.eq_or_within hw hts with ⟨-, rfl, -⟩ | ⟨u, rfl⟩
  · rw [h.closing] at hstop
    cases hstop
  · exact h.before_end stop (by simp) hstop

theorem tokens_eq (h : ClosedBy ts body close rest) (o : Token) :
    o :: ts = o :: body ++ [close] ++ rest := by
  rw [h.split]
  simp

theorem region (h : ClosedBy ts body close rest) {o : Token} (ho : o.kind = .openCurly) :
    Braced (o :: body ++ [close]) :=
  .braces ho h.braced h.closing .nil

/-- No part of the region from its beginning matches by itself. -/
theorem eq_region (h : ClosedBy ts body close rest) {o : Token}
    (ho : o.kind = .openCurly) {p : List Token} (hp : p <+: o :: body ++ [close])
    (hbraced : Braced p) : p = [] ∨ p = o :: body ++ [close] := by
  rw [List.cons_append, List.prefix_cons_iff] at hp
  obtain rfl | ⟨q, rfl, hq⟩ := hp
  · exact .inl rfl
  rw [List.prefix_concat_iff] at hq
  obtain rfl | ⟨v, rfl⟩ := hq
  · exact .inr rfl
  -- The brace would be closed within `q`, so `body` would close one too many.
  have hcount := hbraced.bracesAfterAll_eq 0
  rw [bracesAfterAll_cons, ho] at hcount
  obtain ⟨u, c, u', rfl, hu, hc⟩ := exists_closing hcount
  have hbody := h.braced.bracesAfterAll_eq 0
  rw [List.append_assoc, List.cons_append, hu.bracesAfterAll_closing hc] at hbody
  cases hbody

end ClosedBy

/-! ### What the loop passes over -/

/-- Before `rest`, the tokens `w` of `ts` are passed over. None of them is the end of the
input, and the number of open braces goes from `n` to `k`. -/
structure Passes (n k : Nat) (ts w rest : List Token) : Prop where
  split : ts = w ++ rest
  before_end : ∀ t ∈ w, t.kind ≠ .eof
  count : bracesAfterAll n w = some k

theorem Passes.refl (n : Nat) (ts : List Token) : Passes n n ts [] ts :=
  ⟨rfl, List.forall_mem_nil _, rfl⟩

theorem State.Ended.next_tokens {s : State} (h : s.Ended) (hkind : s.kind ≠ .eof) :
    s.next.tokens = s.following :=
  (State.next_of_more hkind (h.following_ne_nil hkind)).1

/-- One more token is passed over before the others. -/
theorem Passes.read {n m k : Nat} {w rest : List Token} {s : State} (hs : s.Ended)
    (hkind : s.kind ≠ .eof) (hcount : bracesAfter n s.kind = some m)
    (h : Passes m k s.next.tokens w rest) : Passes n k s.tokens (s.current :: w) rest where
  split := congrArg (s.current :: ·) ((hs.next_tokens hkind).symm.trans h.split)
  before_end := List.forall_mem_cons.2 ⟨hkind, h.before_end⟩
  count := by
    rw [bracesAfterAll_cons, show bracesAfter n s.current.kind = _ from hcount]
    exact h.count

/-- What the loop passes over closes no brace too many, one being left open. It stops at the
end of the input, or at a closing brace when no other one is open. -/
theorem BraceLoop.stops {depth n : Nat} {s : State} {r : State × Bool} (h : BraceLoop depth s r)
    (hdepth : depth = n + 1) (hs : s.Ended) : ∃ k w u, Passes n k s.tokens w u.tokens ∧ u.Ended ∧
      (u.kind = .eof ∧ r = (u, false) ∨ u.kind = .closeCurly ∧ k = 0 ∧ r = (u.next, true)) := by
  induction h generalizing n with
  | ended heof => exact ⟨n, [], _, .refl n _, hs, .inl ⟨heof, rfl⟩⟩
  | closed hclose =>
    obtain rfl : n = 0 := by omega
    exact ⟨0, [], _, .refl 0 _, hs, .inr ⟨hclose, rfl, rfl⟩⟩
  | opening hopen _ ih =>
    obtain ⟨k, w, u, hpasses, hstop⟩ := ih (n := n + 1) (by omega) hs.next
    exact ⟨k, _, u, hpasses.read hs (by rw [hopen]; nofun) (by rw [hopen]; rfl), hstop⟩
  | closing hclose hne _ ih =>
    obtain ⟨m, rfl⟩ : ∃ m, n = m + 1 := ⟨n - 1, by omega⟩
    obtain ⟨k, w, u, hpasses, hstop⟩ := ih (n := m) (by omega) hs.next
    exact ⟨k, _, u, hpasses.read hs (by rw [hclose]; nofun) (by rw [hclose]; rfl), hstop⟩
  | other heof hopen hclose _ ih =>
    obtain ⟨k, w, u, hpasses, hstop⟩ := ih hdepth hs.next
    have hcount := bracesAfter_eq_self n (isCurly_eq_false hopen hclose)
    exact ⟨k, _, u, hpasses.read hs heof hcount, hstop⟩

/-! ### What is skipped -/

theorem State.unexpected_of_eof {s : State} (h : s.kind = .eof) (expected : String) :
    s.unexpected expected = .atToken (.unexpectedToken "end of input" expected) s.current := by
  rw [State.unexpected, Token.display, if_pos (show s.current.kind = .eof from h)]

section

variable {s : State} (hs : s.Ended) (hopen : s.kind = .openCurly)

include hs hopen

/-- A region is skipped up to the brace that closes it, or the end of the input is met before
a brace is closed too many. -/
theorem skipBraced_cases :
    (∃ body close t, ClosedBy s.following body close t.tokens ∧ skipBraced s = .ok ⟨⟩ t) ∨
    ∃ n w t, Passes 0 n s.following w t.tokens ∧ t.kind = .eof ∧
      skipBraced s = .error (t.unexpected "`\x7d`") t := by
  have hloop := braceLoop_closeBraces Nat.one_ne_zero hs.next
  obtain ⟨n, w, u, hpasses, hu, hstop⟩ := hloop.stops (n := 0) rfl hs.next
  rw [hs.next_tokens (by rw [hopen]; nofun)] at hpasses
  rw [run_skipBraced, if_pos hopen]
  rcases hstop with ⟨heof, hr⟩ | ⟨hclose, rfl, hr⟩
  · exact .inr ⟨n, w, u, hpasses, heof, by rw [hr]; rfl⟩
  · refine .inl ⟨w, u.current, u.next, ?_, by rw [hr]; rfl⟩
    exact {
      split := by rw [hu.next_tokens (by rw [hclose]; nofun)]; exact hpasses.split
      closing := hclose
      braced := braced_iff.2 hpasses.count
      before_end := hpasses.before_end }

theorem closedBy_of_skipBraced {t : State} (hrun : skipBraced s = .ok ⟨⟩ t) :
    ∃ body close, ClosedBy s.following body close t.tokens := by
  rcases skipBraced_cases hs hopen with ⟨body, close, t', hclosed, hrun'⟩ | ⟨_, _, t', -, -, hrun'⟩
  · cases hrun.symm.trans hrun'
    exact ⟨body, close, hclosed⟩
  · cases hrun.symm.trans hrun'

theorem skipBraced_of_closedBy {body rest : List Token} {close : Token}
    (h : ClosedBy s.following body close rest) :
    ∃ t, skipBraced s = .ok ⟨⟩ t ∧ t.tokens = rest := by
  rcases skipBraced_cases hs hopen with ⟨_, _, t, hclosed, hrun⟩ | ⟨n, w, t, hpasses, heof, -⟩
  · exact ⟨t, hrun, (h.unique hclosed).2.2.symm⟩
  · exact (h.false_of_end hpasses.count hpasses.split heof).elim

theorem skipBraced_of_not_closedBy
    (h : ¬∃ body close rest, ClosedBy s.following body close rest) :
    ∃ w t, s.tokens = w ++ t.tokens ∧ (∀ x ∈ w, x.kind ≠ .eof) ∧ t.kind = .eof ∧
      skipBraced s = .error (t.unexpected "`\x7d`") t := by
  rcases skipBraced_cases hs hopen with ⟨body, close, t, hclosed, -⟩ | ⟨_, w, t, hpasses, hfails⟩
  · exact (h ⟨body, close, t.tokens, hclosed⟩).elim
  · refine ⟨s.current :: w, t, congrArg (s.current :: ·) hpasses.split, ?_, hfails⟩
    have hfirst : s.current.kind ≠ .eof := by
      rw [show s.current.kind = .openCurly from hopen]
      nofun
    exact List.forall_mem_cons.2 ⟨hfirst, hpasses.before_end⟩

end

/-! ### The place of a parser -/

/-- A parser over `tokens` stands right after `front`, whose last token is the one before. -/
structure State.StandsAfter (tokens front : List Token) (s : State) : Prop where
  tokens_eq : (State.ofTokens tokens).tokens = front ++ s.tokens
  lastStop_eq : s.lastStop = stopOf? front

theorem State.StandsAfter.ended {tokens front : List Token} {s : State}
    (h : s.StandsAfter tokens front) : s.Ended :=
  (ended_ofTokens tokens).of_append h.tokens_eq

theorem State.StandsAfter.steps {tokens front w : List Token} {s t : State}
    (h : s.StandsAfter tokens front) (hsteps : Steps s t) (hw : s.tokens = w ++ t.tokens) :
    t.StandsAfter tokens (front ++ w) := by
  obtain ⟨w', hw', hlast⟩ := hsteps.lastStop
  obtain rfl : w = w' := List.append_cancel_right (hw.symm.trans hw')
  refine ⟨by rw [h.tokens_eq, hw, List.append_assoc], ?_⟩
  rw [hlast, h.lastStop_eq, stopOf?_append]

/-- Skipping moves the parser on and changes nothing else, whether it returns or fails. -/
theorem moves_skipBraced (s : State) :
    Outcome (fun _ t => Steps s t ∧ t.depth = s.depth ∧ t.scope = s.scope)
      (fun _ t => Steps s t ∧ t.depth = s.depth ∧ t.scope = s.scope) (skipBraced s) := by
  have hsteps : Steps s (closeBraces 1 s.next).1 :=
    .head (.read s) (Runs.closeBraces 1 s.next)
  have hdepth := (closeBraces_depth 1 s.next).trans s.next_depth
  have hscope := (closeBraces_scope 1 s.next).trans s.next_scope
  rw [run_skipBraced]
  split
  · split
    · exact ⟨hsteps, hdepth, hscope⟩
    · exact ⟨hsteps, hdepth, hscope⟩
  · exact ⟨.refl, rfl, rfl⟩

/-- Wherever a parser stands before a brace, it skips the region that the brace opens if and
only if the brace is closed before the next end of the input. Then it stands right after the
closing brace, and nothing else has changed. Otherwise it fails at that end of the input. What
is skipped matches, and no part of it from its beginning does, but for the empty one. -/
theorem skipBraced_exact {tokens front : List Token} {s : State}
    (hs : s.StandsAfter tokens front) (hopen : s.kind = .openCurly) :
    ((∃ t, skipBraced s = .ok ⟨⟩ t) ↔ ∃ body close rest, ClosedBy s.following body close rest) ∧
    (∀ body close rest, ClosedBy s.following body close rest → ∃ t, skipBraced s = .ok ⟨⟩ t ∧
      t.StandsAfter tokens (front ++ (s.current :: body ++ [close])) ∧
      t.depth = s.depth ∧ t.scope = s.scope) ∧
    ((¬∃ body close rest, ClosedBy s.following body close rest) → ∃ w stop rest t,
      s.tokens = w ++ stop :: rest ∧ (∀ x ∈ w, x.kind ≠ .eof) ∧ stop.kind = .eof ∧
      skipBraced s = .error (.atToken (.unexpectedToken "end of input" "`\x7d`") stop) t ∧
      t.StandsAfter tokens (front ++ w) ∧ t.depth = s.depth ∧ t.scope = s.scope) ∧
    ∀ t, skipBraced s = .ok ⟨⟩ t → ∃ region, s.tokens = region ++ t.tokens ∧ Braced region ∧
      ∀ p, p <+: region → Braced p → p = [] ∨ p = region := by
  refine ⟨⟨fun ⟨t, hrun⟩ => ?_, fun ⟨body, close, rest, h⟩ => ?_⟩, fun body close rest h => ?_,
    fun h => ?_, fun t hrun => ?_⟩
  · obtain ⟨body, close, hclosed⟩ := closedBy_of_skipBraced hs.ended hopen hrun
    exact ⟨body, close, t.tokens, hclosed⟩
  · obtain ⟨t, hrun, -⟩ := skipBraced_of_closedBy hs.ended hopen h
    exact ⟨t, hrun⟩
  · obtain ⟨t, hrun, rfl⟩ := skipBraced_of_closedBy hs.ended hopen h
    obtain ⟨hsteps, hsame⟩ := (moves_skipBraced s).of_eq_ok hrun
    exact ⟨t, hrun, hs.steps hsteps (h.tokens_eq s.current), hsame⟩
  · obtain ⟨w, t, htokens, hbefore, heof, hrun⟩ := skipBraced_of_not_closedBy hs.ended hopen h
    have hmoves := moves_skipBraced s
    rw [hrun] at hmoves
    obtain ⟨hsteps, hsame⟩ := hmoves
    refine ⟨w, t.current, t.following, t, htokens, hbefore, heof, ?_, hs.steps hsteps htokens,
      hsame⟩
    rw [hrun, State.unexpected_of_eof heof]
  · obtain ⟨body, close, hclosed⟩ := closedBy_of_skipBraced hs.ended hopen hrun
    exact ⟨s.current :: body ++ [close], hclosed.tokens_eq s.current, hclosed.region hopen,
      fun p => hclosed.eq_region hopen⟩

/-- The body of an accessor, with a parenthesis that nothing closes, is skipped up to the brace
that closes the property. Without the last two braces the body does not end. -/
theorem skipBraced_exact_nested :
    let name : Token := ⟨.identifier, "get", .none⟩
    let o : Token := ⟨.openCurly, "\x7b", .none⟩
    let p : Token := ⟨.openParen, "(", .none⟩
    let c : Token := ⟨.closeCurly, "\x7d", .none⟩
    (∃ t, skipBraced (State.ofTokens [name, o, p, o, c, c, c]).next = .ok ⟨⟩ t ∧
      t.tokens = [c, .endOfInput .none]) ∧
    ∃ t, skipBraced (State.ofTokens [name, o, p, o, c]).next =
      .error (.atToken (.unexpectedToken "end of input" "`\x7d`") (.endOfInput .none)) t := by
  intro name o p c
  constructor
  · have hs : (State.ofTokens [name, o, p, o, c, c, c]).next.StandsAfter
        [name, o, p, o, c, c, c] [name] := ⟨rfl, rfl⟩
    have hclosed : ClosedBy [p, o, c, c, c, .endOfInput .none] [p, o, c] c [c, .endOfInput .none] :=
      ⟨rfl, rfl, by decide, by decide⟩
    obtain ⟨t, hrun, hstands, -⟩ := (skipBraced_exact hs rfl).2.1 _ _ _ hclosed
    have htokens : [name, o, p, o, c, c] ++ [c, .endOfInput .none] =
      [name, o, p, o, c, c] ++ t.tokens := hstands.tokens_eq
    exact ⟨t, hrun, (List.append_cancel_left htokens).symm⟩
  · have hs : (State.ofTokens [name, o, p, o, c]).next.StandsAfter
        [name, o, p, o, c] [name] := ⟨rfl, rfl⟩
    have hopen : ¬∃ body close rest, ClosedBy [p, o, c, .endOfInput .none] body close rest :=
      fun ⟨_, _, _, h⟩ => h.false_of_end (n := 0) (w := [p, o, c]) rfl rfl rfl
    obtain ⟨w, stop, rest, t, htokens, -, heof, hrun, -⟩ := (skipBraced_exact hs rfl).2.2.1 hopen
    have hmem : stop ∈ [o, p, o, c, .endOfInput .none] := by
      rw [show [o, p, o, c, .endOfInput .none] = w ++ stop :: rest from htokens]
      simp
    have hlast : ∀ x ∈ [o, p, o, c, .endOfInput .none], x.kind = .eof → x = .endOfInput .none := by
      decide
    obtain rfl := hlast stop hmem heof
    exact ⟨t, hrun⟩

end ClassScript.Parse

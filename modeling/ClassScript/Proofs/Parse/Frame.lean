import ClassScript.Proofs.Parse.Layout

/-!
# What a parser reads and what it looks at

A parser that succeeds has read a part of its tokens in which the braces match, up to
those that it opens or closes for good (`Parallel.reads`). It may look at more tokens
than it reads: at all of a type before a name, or at a whole class body. But it never
looks past a semicolon or a brace at which the declaration around it ends. So it does the
same on another input that is the same up to there (`Parallel.beside`).
-/

namespace ClassScript.Parse

/-! ### Matching braces -/

/-- The number of open braces after the tokens, unless they close one too many. -/
def bracesAfterAll (n : Nat) (ts : List Token) : Option Nat :=
  ts.foldlM (fun n t => bracesAfter n t.kind) n

@[simp] theorem bracesAfterAll_nil (n : Nat) : bracesAfterAll n [] = some n := rfl

@[simp] theorem bracesAfterAll_cons (n : Nat) (t : Token) (ts : List Token) :
    bracesAfterAll n (t :: ts) = (bracesAfter n t.kind).bind (bracesAfterAll · ts) := by
  simp only [bracesAfterAll, List.foldlM_cons]
  rfl

/-- The braces of two parts are counted one after the other. -/
theorem bracesAfterAll_append (n : Nat) (ts us : List Token) :
    bracesAfterAll n (ts ++ us) = (bracesAfterAll n ts).bind (bracesAfterAll · us) := by
  simp only [bracesAfterAll, List.foldlM_append]
  rfl

theorem isCurly_eq_false {k : Kind} (hopen : k ≠ .openCurly) (hclose : k ≠ .closeCurly) :
    k.isCurly = false := by
  unfold Kind.isCurly
  split <;> first | contradiction | rfl

/-! ### Looking ahead

Each of these functions stops at the token `stop` or before it, whatever follows. -/

section

variable {stop : Token} (hstop : stop.kind.endsType = true)

include hstop

theorem ne_of_endsType {k : Kind} (hk : k.endsType = false) : stop.kind ≠ k := by
  intro h
  rw [h, hk] at hstop
  cases hstop

/-- The rest behind the token does not matter, since names and points do not go on after it. -/
theorem skipDotted_before (w : List Token) :
    ∃ w', ∀ r, skipDotted (w ++ stop :: r) = w' ++ stop :: r := by
  have hdot : stop.kind ≠ .dot := ne_of_endsType hstop rfl
  have hname : stop.kind ≠ .identifier := ne_of_endsType hstop rfl
  fun_induction skipDotted w with
  | case1 d n rest h ih =>
    obtain ⟨w', hw'⟩ := ih
    exact ⟨w', fun r => by simpa [skipDotted, h] using hw' r⟩
  | case2 d n rest h => exact ⟨d :: n :: rest, fun r => by simp [skipDotted, h]⟩
  | case3 w h =>
    refine ⟨w, fun r => ?_⟩
    rcases w with _ | ⟨d, _ | ⟨n, rest⟩⟩
    · cases r <;> simp [skipDotted, hdot]
    · simp [skipDotted, hname]
    · exact absurd rfl (h d n rest)

/-- A look through angle brackets ends before the token, or without an answer. -/
theorem skipAngles_before (depth : Nat) (w : List Token) : ∃ o : Option (List Token),
    ∀ r, skipAngles depth (w ++ stop :: r) = o.map (· ++ stop :: r) := by
  induction w generalizing depth with
  | nil =>
    refine ⟨none, fun r => ?_⟩
    unfold Kind.endsType at hstop
    simp only [List.nil_append, skipAngles]
    split at hstop
    · rename_i hk
      rw [hk]
      rfl
    · rename_i hk
      rw [hk]
      rfl
    · rename_i hk
      rw [hk]
      rfl
    · cases hstop
  | cons t w ih =>
    simp only [List.cons_append, skipAngles]
    split
    · exact ih _
    · by_cases hdepth : depth = 1
      · exact ⟨some w, fun r => by simp [hdepth]⟩
      · simpa [hdepth] using ih (depth - 1)
    · exact ih _
    · exact ih _
    · exact ih _
    · exact ih _
    · exact ih _
    · exact ih _
    · exact ⟨none, fun r => rfl⟩

theorem skipTypeArguments_before (w : List Token) : ∃ o : Option (List Token),
    ∀ r, skipTypeArguments (w ++ stop :: r) = o.map (· ++ stop :: r) := by
  cases w with
  | nil =>
    have hless : stop.kind ≠ .less := ne_of_endsType hstop rfl
    exact ⟨some [], fun r => by simp [skipTypeArguments, hless]⟩
  | cons t w =>
    by_cases hless : t.kind = .less
    · simpa [skipTypeArguments, hless] using skipAngles_before hstop 1 w
    · exact ⟨some (t :: w), fun r => by simp [skipTypeArguments, hless]⟩

theorem skipQuestion_before (w : List Token) :
    ∃ w', ∀ r, skipQuestion (w ++ stop :: r) = w' ++ stop :: r := by
  cases w with
  | nil =>
    have hquestion : stop.kind ≠ .question := ne_of_endsType hstop rfl
    exact ⟨[], fun r => by simp [skipQuestion, hquestion]⟩
  | cons t w =>
    by_cases hquestion : t.kind = .question
    · exact ⟨w, fun r => by simp [skipQuestion, hquestion]⟩
    · exact ⟨t :: w, fun r => by simp [skipQuestion, hquestion]⟩

theorem skipBrackets_before (w : List Token) :
    ∃ w', ∀ r, skipBrackets (w ++ stop :: r) = w' ++ stop :: r := by
  have hopen : stop.kind ≠ .openBracket := ne_of_endsType hstop rfl
  have hclose : stop.kind ≠ .closeBracket := ne_of_endsType hstop rfl
  fun_induction skipBrackets w with
  | case1 o c rest h ih =>
    obtain ⟨w', hw'⟩ := ih
    exact ⟨w', fun r => by simpa [skipBrackets, h] using hw' r⟩
  | case2 o c rest h => exact ⟨o :: c :: rest, fun r => by simp [skipBrackets, h]⟩
  | case3 w h =>
    refine ⟨w, fun r => ?_⟩
    rcases w with _ | ⟨o, _ | ⟨c, rest⟩⟩
    · cases r <;> simp [skipBrackets, hopen]
    · simp [skipBrackets, hclose]
    · exact absurd rfl (h o c rest)

/-- Each step of the look ends before the token. -/
theorem looksLikeDeclaration_before (w r r' : List Token) :
    looksLikeDeclaration (w ++ stop :: r) = looksLikeDeclaration (w ++ stop :: r') := by
  cases w with
  | nil =>
    have hname : stop.kind ≠ .identifier := ne_of_endsType hstop rfl
    simp [looksLikeDeclaration, hname]
  | cons t w =>
    obtain ⟨w₁, hdotted⟩ := skipDotted_before hstop w
    obtain ⟨o, harguments⟩ := skipTypeArguments_before hstop w₁
    simp only [List.cons_append, looksLikeDeclaration, hdotted, harguments]
    cases o with
    | none => rfl
    | some w₂ =>
      obtain ⟨w₃, hquestion⟩ := skipQuestion_before hstop w₂
      obtain ⟨w₄, hbrackets⟩ := skipBrackets_before hstop w₃
      simp only [Option.map_some, hquestion, hbrackets]
      cases w₄ <;> rfl

end

/-- A brace is closed after a declared name. -/
theorem declaredName?_append {w : List Token} {n e : Nat} (h : bracesAfterAll (n + 1) w = some e)
    (he : e ≤ n) (r r' : List Token) : declaredName? (w ++ r) = declaredName? (w ++ r') := by
  rcases w with _ | ⟨t, _ | ⟨u, w⟩⟩
  · cases h
    omega
  · have hname : t.kind ≠ .identifier := by
      intro ht
      simp only [bracesAfterAll_cons, ht] at h
      cases h
      omega
    simp [declaredName?, hname]
  · rfl

/-- The members of a class body are looked for up to the brace that closes it. -/
theorem domMembersIn_append {w : List Token} {n e : Nat} (braces parens : Nat)
    (h : bracesAfterAll (n + braces + 1) w = some e) (he : e ≤ n) (r r' : List Token) :
    domMembersIn braces parens (w ++ r) = domMembersIn braces parens (w ++ r') := by
  induction w generalizing braces parens with
  | nil =>
    cases h
    omega
  | cons t w ih =>
    have hname := fun h : bracesAfterAll (n + braces + 1) w = some e =>
      declaredName?_append h (by omega : e ≤ n + braces) r r'
    simp only [bracesAfterAll_cons] at h
    simp only [List.cons_append, domMembersIn]
    split <;> rename_i ht <;>
      first
      | rw [ht] at h
      | rw [bracesAfter_eq_self _ (isCurly_eq_false (by assumption) (by assumption))] at h
    · exact ih (braces + 1) parens h
    · split
      · rfl
      · have hless : n + braces = n + (braces - 1) + 1 := by omega
        exact ih (braces - 1) parens (by rw [← hless]; exact h)
    · exact ih braces (parens + 1) h
    · exact ih braces (parens - 1) h
    · rw [hname h, ih braces parens h]
    · exact ih braces parens h

/-! ### What is read -/

/-- The last token is the end of the input. -/
def State.Ended (s : State) : Prop := s.tokens.getLast?.map Token.kind = some .eof

/-- Only the end of the input has nothing behind it. -/
theorem State.Ended.following_ne_nil {s : State} (h : s.Ended) (hkind : s.kind ≠ .eof) :
    s.following ≠ [] := by
  intro hnil
  rw [Ended, tokens, hnil] at h
  exact hkind (Option.some.inj h)

/-- The run has led from `s` to `t` and from the first level to the second: the tokens
that are left are a last part, and the braces in those that were read match. -/
structure Reads (l l' : Level) (s t : State) : Prop where
  tokens : ∃ w, s.tokens = w ++ t.tokens ∧ bracesAfterAll l.braces w = some l'.braces
  depth : s.depth = l.depth → t.depth = l'.depth

namespace Reads

variable {l l₁ l₂ : Level} {s t u : State}

theorem refl : Reads l l s s := ⟨⟨[], rfl, rfl⟩, id⟩

/-- What was read in two steps. -/
theorem trans (h : Reads l l₁ s t) (h' : Reads l₁ l₂ t u) : Reads l l₂ s u := by
  obtain ⟨w, hs, hw⟩ := h.tokens
  obtain ⟨v, ht, hv⟩ := h'.tokens
  refine ⟨⟨w ++ v, ?_, ?_⟩, h'.depth ∘ h.depth⟩
  · rw [hs, ht, List.append_assoc]
  · rw [bracesAfterAll_append, hw]
    exact hv

/-- Tokens are only taken off. -/
theorem length_le (h : Reads l l₁ s t) : t.tokens.length ≤ s.tokens.length := by
  obtain ⟨w, hs, -⟩ := h.tokens
  simp [hs]

/-- The end of the input stays where it is. -/
theorem ended (h : Reads l l₁ s t) (hs : s.Ended) : t.Ended := by
  obtain ⟨w, htokens, -⟩ := h.tokens
  rw [State.Ended, htokens, List.getLast?_append] at hs
  cases hlast : t.tokens.getLast? with
  | none => cases List.getLast?_eq_none_iff.1 hlast
  | some last =>
    rw [hlast] at hs
    rw [State.Ended, hlast]
    exact hs

/-- One token is read, and counted if it is a brace. -/
theorem next_of_more (h : l.after s.kind = some l₁) (heof : s.kind ≠ .eof)
    (hmore : s.following ≠ []) : Reads l l₁ s s.next := by
  obtain ⟨n, hn, rfl⟩ := Option.map_eq_some_iff.1 h
  refine ⟨⟨[s.current], ?_, ?_⟩, fun hdepth => by simp [hdepth]⟩
  · rw [(State.next_of_more heof hmore).1]
    rfl
  · rw [bracesAfterAll_cons]
    exact (congrArg (Option.bind · _) hn).trans rfl

theorem next (hs : s.Ended) (h : l.after s.kind = some l₁) : Reads l l₁ s s.next := by
  by_cases heof : s.kind = .eof
  · rw [heof] at h
    cases h
    rw [State.next_of_end (.inl heof)]
    exact .refl
  · exact .next_of_more h heof (hs.following_ne_nil heof)

end Reads

/-- A token is read if fewer tokens remain. -/
theorem State.more_of_remaining_lt {s : State} (h : s.next.remaining < s.remaining) :
    s.kind ≠ .eof ∧ s.following ≠ [] := by
  refine ⟨fun heof => ?_, fun hnil => ?_⟩
  · rw [State.next_of_end (.inl heof)] at h
    exact Nat.lt_irrefl _ h
  · rw [State.next_of_end (.inr hnil)] at h
    exact Nat.lt_irrefl _ h

/-- All braces that were open are closed. -/
theorem Reads.of_closeBraces {depth : Nat} {s t : State} (n d : Nat) (hdepth : depth ≠ 0)
    (h : closeBraces depth s = (t, true)) : Reads ⟨n + depth, d⟩ ⟨n, d⟩ s t := by
  fun_induction closeBraces depth s with
  | case1 depth s hmore hkind ih =>
    obtain ⟨heof, hfollowing⟩ := State.more_of_remaining_lt hmore
    exact (Reads.next_of_more (by rw [hkind]; rfl) heof hfollowing).trans (ih (by omega) h)
  | case2 s hmore hkind =>
    obtain ⟨heof, hfollowing⟩ := State.more_of_remaining_lt hmore
    cases h
    exact .next_of_more (by rw [hkind]; rfl) heof hfollowing
  | case3 depth s hmore hkind hone ih =>
    obtain ⟨heof, hfollowing⟩ := State.more_of_remaining_lt hmore
    have hless : n + depth = n + (depth - 1) + 1 := by omega
    rw [hless]
    exact (Reads.next_of_more (by rw [hkind]; rfl) heof hfollowing).trans (ih (by omega) h)
  | case4 depth s hmore hopen hclose ih =>
    obtain ⟨heof, hfollowing⟩ := State.more_of_remaining_lt hmore
    have hafter : Level.after ⟨n + depth, d⟩ s.kind = some ⟨n + depth, d⟩ :=
      Level.after_eq_self _ (isCurly_eq_false hopen hclose)
    exact (Reads.next_of_more hafter heof hfollowing).trans (ih hdepth h)
  | case5 depth s hmore => cases h

section

variable {α : Type} {l : Level} {p : Parse α}

/-- A repetition reads what its items read, by induction on their number. -/
theorem Reads.of_many {more : State → Bool} {m : Kind → Bool} (hm : ∀ s, more s = m s.kind)
    (hitem : ∀ s a t, s.Ended → m s.kind = true → p s = .ok a t → Reads l l s t)
    {s t : State} {as : List α} (hs : s.Ended) (h : many more p s = .ok as t) : Reads l l s t := by
  induction hn : s.remaining using Nat.strongRecOn generalizing s as with
  | ind n ih =>
    rw [many] at h
    split at h
    · rename_i hyes
      split at h
      · cases h
      · rename_i a s₁ hfirst
        have h₁ := hitem s a s₁ hs (by rw [← hm, hyes]) hfirst
        split at h
        · rename_i hlt
          split at h
          · cases h
          · rename_i as s₂ hothers
            cases h
            exact h₁.trans (ih _ (hn ▸ hlt) (h₁.ended hs) hothers rfl)
        · cases h
          exact h₁
    · cases h
      exact .refl

/-- The commas between items are no braces. -/
theorem Reads.of_commaList (stop : Kind)
    (hitem : ∀ s a t, s.Ended → p s = .ok a t → Reads l l s t)
    {s t : State} {as : List α} (hs : s.Ended) (h : commaList stop p s = .ok as t) :
    Reads l l s t := by
  induction hn : s.remaining using Nat.strongRecOn generalizing s as with
  | ind n ih =>
    rw [commaList] at h
    split at h
    · cases h
      exact .refl
    · split at h
      · cases h
      · rename_i a s₁ hfirst
        have h₁ := hitem s a s₁ hs hfirst
        split at h
        · rename_i hcomma
          have h₂ : Reads l l s s₁.next := by
            refine h₁.trans (.next (h₁.ended hs) ?_)
            exact l.after_eq_self (by rw [hcomma]; rfl)
          split at h
          · rename_i hlt
            split at h
            · cases h
            · rename_i as s₂ hothers
              cases h
              exact h₂.trans (ih _ (hn ▸ hlt) (h₂.ended hs) hothers rfl)
          · cases h
            exact h₂
        · cases h
          exact h₁

end

/-- A sequence that returns is made of two parts that return. -/
theorem bind_eq_ok_iff {α β : Type} {p : Parse α} {k : α → Parse β} {s t : State} {b : β} :
    (p >>= k) s = .ok b t ↔ ∃ a u, p s = .ok a u ∧ k a u = .ok b t := by
  show EStateM.bind p k s = _ ↔ _
  unfold EStateM.bind
  cases p s with
  | ok a u =>
    constructor
    · exact fun h => ⟨a, u, rfl, h⟩
    · rintro ⟨_, _, ⟨⟩, h⟩
      exact h
  | error e u => simp

/-- A parser that returns leads from its first level to its second. -/
theorem Parallel.reads {α β : Type} {K : Kind → Prop} {l l' : Level} {view : α → β}
    {p q : Parse α} (hpq : Parallel Eq K l l' view p q) :
    ∀ s a t, s.Ended → K s.kind → p s = .ok a t → Reads l l' s t := by
  induction hpq with
  | pure _ =>
    intro s a t _ _ h
    cases h
    exact .refl
  | bind _ _ ihp ihk =>
    intro s b t hs hK h
    obtain ⟨a, u, hp, hk⟩ := bind_eq_ok_iff.1 h
    have hread := ihp s a u hs hK hp
    exact hread.trans (ihk a a rfl u b t (hread.ended hs) trivial hk)
  | weaken hK _ _ ih => exact fun s a t hs hx h => ih s a t hs (hK _ hx) h
  | fail cause => exact fun s a t _ _ h => nomatch h
  | throw cause _ => exact fun s a t _ _ h => nomatch h
  | tooDeep => exact fun s a t _ _ h => nomatch h
  | @ask _ _ _ _ _ _ _ o k k' _ _ ih =>
    exact fun s a t hs hK h => ih (o s) s a t hs ⟨hK, s, rfl, rfl⟩ h
  | hold k k' _ _ ih => exact fun s a t hs hK h => ih _ _ _ _ rfl rfl rfl s a t hs hK h
  | position b =>
    intro s a t _ _ h
    cases h
    exact .refl
  | spanFrom b start start' =>
    intro s a t _ _ h
    cases h
    exact .refl
  | @advance _ _ _ l _ _ _ _ hcurly _ ih =>
    intro s a t hs hK h
    have hread : Reads l l s s.next := .next hs (l.after_eq_self (hcurly _ hK))
    exact hread.trans (ih s.current s.current rfl rfl s.next a t (hread.ended hs) trivial h)
  | expectDescribed expected hafter =>
    intro s a t hs _ h
    rw [run_expectDescribed] at h
    split at h
    · rename_i hkind
      cases h
      exact .next hs (by rw [hkind, hafter])
    · cases h
  | @accept _ l x hcurly =>
    intro s a t hs _ h
    rw [run_accept] at h
    split at h
    · rename_i hkind
      cases h
      exact .next hs (by rw [hkind, l.after_eq_self hcurly])
    · cases h
      exact .refl
  | deepen =>
    intro s a t _ _ h
    rw [run_deepen] at h
    split at h
    · cases h
      exact ⟨⟨[], rfl, rfl⟩, congrArg (· + 1)⟩
    · cases h
  | surface =>
    intro s a t _ _ h
    cases h
    exact ⟨⟨[], rfl, rfl⟩, congrArg (· - 1)⟩
  | modifyScope f =>
    intro s a t _ _ h
    cases h
    exact ⟨⟨[], rfl, rfl⟩, id⟩
  | beginClass name =>
    intro s a t _ _ h
    cases h
    exact ⟨⟨[], rfl, rfl⟩, id⟩
  | @skipBraced _ l =>
    intro s a t hs _ h
    rw [run_skipBraced] at h
    split at h
    · rename_i hkind
      split at h
      · rename_i hclosed
        cases h
        have hopen : Reads l l.opened s s.next := .next hs (by rw [hkind]; rfl)
        exact hopen.trans (Reads.of_closeBraces _ _ (by decide) (Prod.ext rfl hclosed))
      · cases h
    · cases h
  | many hm _ ih => exact fun s as t hs _ h => Reads.of_many hm ih hs h
  | commaList stop _ ih =>
    exact fun s as t hs _ h => Reads.of_commaList stop (fun s a t hs => ih s a t hs trivial) hs h

/-! ### What is looked at -/

/-- All but the tokens is the same. -/
structure SameContext (s s' : State) : Prop where
  lastStop : s'.lastStop = s.lastStop
  depth : s'.depth = s.depth
  scope : s'.scope = s.scope

/-- The states have the same tokens up to `stop`, which closes all of the `n` open
braces, and go on with `r` and `r'` after it. -/
structure Beside (stop : Token) (r r' : List Token) (n : Nat) (s s' : State) : Prop extends
    SameContext s s' where
  tokens : ∃ w, s.tokens = w ++ stop :: r ∧ s'.tokens = w ++ stop :: r' ∧
    bracesAfterAll n (w ++ [stop]) = some 0

section

variable {stop : Token} {r r' : List Token} {n : Nat} {s s' : State}

theorem Beside.current (h : Beside stop r r' n s s') : s'.current = s.current := by
  obtain ⟨w, hs, hs', -⟩ := h.tokens
  cases w with
  | nil => rw [(List.cons.inj hs).1, (List.cons.inj hs').1]
  | cons t w => rw [(List.cons.inj hs).1, (List.cons.inj hs').1]

theorem Beside.kind (h : Beside stop r r' n s s') : s'.kind = s.kind :=
  congrArg Token.kind h.current

/-- The one state has as many more tokens as what follows `stop` has. -/
theorem Beside.remaining (h : Beside stop r r' n s s') :
    s'.remaining + r.length = s.remaining + r'.length := by
  obtain ⟨w, hs, hs', -⟩ := h.tokens
  have hlength := congrArg List.length hs
  have hlength' := congrArg List.length hs'
  simp only [State.tokens, List.length_cons, List.length_append] at hlength hlength'
  rw [s.remaining_eq, s'.remaining_eq]
  omega

variable (hr : r ≠ [])

include hr

/-- A token is read in both, unless it is `stop`. -/
theorem Beside.next (h : Beside stop r r' n s s') {n' : Nat} (hn : bracesAfter n s.kind = some n')
    (hlt : r.length < s.next.tokens.length) : Beside stop r r' n' s.next s'.next := by
  have hkind := h.kind
  by_cases heof : s.kind = .eof
  · rw [heof] at hn
    cases hn
    rw [State.next_of_end (.inl heof), State.next_of_end (.inl (hkind.trans heof))]
    exact h
  obtain ⟨w, hs, hs', hw⟩ := h.tokens
  cases w with
  | nil =>
    obtain ⟨-, hfollowing⟩ := List.cons.inj hs
    rw [(State.next_of_more heof (hfollowing ▸ hr)).1, hfollowing] at hlt
    exact absurd hlt (Nat.lt_irrefl _)
  | cons t w =>
    obtain ⟨ht, hfollowing⟩ := List.cons.inj hs
    obtain ⟨-, hfollowing'⟩ := List.cons.inj hs'
    obtain ⟨htokens, hlast⟩ := State.next_of_more heof (by simp [hfollowing])
    obtain ⟨htokens', hlast'⟩ := State.next_of_more (hkind ▸ heof) (by simp [hfollowing'])
    refine ⟨⟨?_, by simp [h.depth], by simp [h.scope]⟩, w, ?_, ?_, ?_⟩
    · rw [hlast, hlast', h.current]
    · rw [htokens, hfollowing]
      rfl
    · rw [htokens', hfollowing']
      rfl
    · rw [List.cons_append, bracesAfterAll_cons, ← ht] at hw
      exact (congrArg (Option.bind · _) hn).symm.trans hw

omit hr in
/-- A token is read in the one state if it is read in the other. -/
theorem Beside.next_lt_iff {n' : Nat} (h : Beside stop r r' n s s')
    (h' : Beside stop r r' n' s.next s'.next) :
    s'.next.remaining < s'.remaining ↔ s.next.remaining < s.remaining := by
  have hremaining := h.remaining
  have hremaining' := h'.remaining
  omega

/-- Both runs skip to the brace that closes the outermost open one. -/
theorem Beside.closeBraces {depth : Nat} {t : State} (hdepth : depth ≠ 0)
    (h : Beside stop r r' (n + depth) s s') (hclose : closeBraces depth s = (t, true))
    (hlt : r.length < t.tokens.length) :
    ∃ t', Parse.closeBraces depth s' = (t', true) ∧ Beside stop r r' n t t' := by
  -- As long as the end is not passed, the next token is there in both states.
  have hnext {depth depth' : Nat} {s s' : State} (hdepth : depth' ≠ 0)
      (h : Beside stop r r' (n + depth) s s')
      (hafter : bracesAfter (n + depth) s.kind = some (n + depth'))
      (hclose : Parse.closeBraces depth' s.next = (t, true)) :
      Beside stop r r' (n + depth') s.next s'.next :=
    h.next hr hafter (Nat.lt_of_lt_of_le hlt (Reads.of_closeBraces n 0 hdepth hclose).length_le)
  fun_induction Parse.closeBraces depth s generalizing s' with
  | case1 depth s hmore hkind ih =>
    have h₁ := hnext (by omega) h (by rw [hkind]; rfl) hclose
    rw [Parse.closeBraces, if_pos ((h.next_lt_iff h₁).2 hmore), h.kind, hkind]
    exact ih (by omega) h₁ hclose
  | case2 s hmore hkind =>
    cases hclose
    have h₁ := h.next hr (by rw [hkind]; rfl) hlt
    rw [Parse.closeBraces, if_pos ((h.next_lt_iff h₁).2 hmore), h.kind, hkind]
    exact ⟨s'.next, rfl, h₁⟩
  | case3 depth s hmore hkind hone ih =>
    have hless : n + depth = n + (depth - 1) + 1 := by omega
    have h₁ := hnext (by omega) h (by rw [hkind, hless]; rfl) hclose
    rw [Parse.closeBraces, if_pos ((h.next_lt_iff h₁).2 hmore), h.kind, hkind]
    simp only [if_neg hone]
    exact ih (by omega) h₁ hclose
  | case4 depth s hmore hopen hcurly ih =>
    have h₁ := hnext hdepth h (bracesAfter_eq_self _ (isCurly_eq_false hopen hcurly)) hclose
    have hstep : Parse.closeBraces depth s' = Parse.closeBraces depth s'.next := by
      rw [Parse.closeBraces, if_pos ((h.next_lt_iff h₁).2 hmore), h.kind]
      split <;> first | contradiction | rfl
    rw [hstep]
    exact ih hdepth h₁ hclose
  | case5 depth s hmore => cases hclose

omit hr

variable (hstop : stop.kind.isEnd = true)

include hstop

/-- Where `stop` is not at hand, the next token is the same too. -/
theorem Beside.following (h : Beside stop r r' n s s') (hkind : s.kind.isEnd = false) :
    ∃ t us us', s.following = t :: us ∧ s'.following = t :: us' := by
  obtain ⟨w, hs, hs', -⟩ := h.tokens
  rcases w with _ | ⟨t, _ | ⟨u, w⟩⟩
  · have hcurrent : s.kind = stop.kind := congrArg Token.kind (List.cons.inj hs).1
    rw [hcurrent, hstop] at hkind
    cases hkind
  · exact ⟨stop, r, r', (List.cons.inj hs).2, (List.cons.inj hs').2⟩
  · exact ⟨u, _, _, (List.cons.inj hs).2, (List.cons.inj hs').2⟩

/-- What a question looks at is the same on both sides. -/
theorem Question.beside {γ : Type} {o : State → γ} (ho : Question o)
    (h : Beside stop r r' n s s') : o s' = o s := by
  cases ho with
  | kind => exact h.kind
  | budget => rw [State.budget, State.budget, h.depth]
  | scope => exact h.scope
  | declaration =>
    obtain ⟨w, hs, hs', -⟩ := h.tokens
    dsimp only
    rw [hs, hs', looksLikeDeclaration_before (Kind.endsType_of_isEnd hstop)]
  | constructor name =>
    rw [startsConstructor, startsConstructor, h.kind, h.current]
    by_cases hname : s.kind = .identifier
    · obtain ⟨t, us, us', hs, hs'⟩ := h.following hstop (by rw [hname]; rfl)
      simp [State.peekKind, State.tokens, hs, hs']
    · simp [hname]
  | accessor =>
    dsimp only
    rw [h.current]

end

/-- A run that returns before `stop` is passed does the same beside. -/
def ActsBeside {α : Type} (stop : Token) (r r' : List Token) (K : Kind → Prop) (l l' : Level)
    (p : Parse α) : Prop :=
  ∀ s s' a t, Beside stop r r' l.braces s s' → s.Ended → K s.kind → p s = .ok a t →
    r.length < t.tokens.length → ∃ t', p s' = .ok a t' ∧ Beside stop r r' l'.braces t t'

section

variable {α : Type} {l : Level} {p : Parse α} {stop : Token} {r r' : List Token} {t : State}
  {as : List α}

/-- The repetition goes on and stops at the same tokens on both sides. -/
theorem beside_many {more : State → Bool} {m : Kind → Bool} (hm : ∀ s, more s = m s.kind)
    (hread : ∀ s a t, s.Ended → m s.kind = true → p s = .ok a t → Reads l l s t)
    (hitem : ActsBeside stop r r' (fun x => m x = true) l l p) {s s' : State}
    (h : Beside stop r r' l.braces s s') (hs : s.Ended) (hrun : many more p s = .ok as t)
    (hlt : r.length < t.tokens.length) :
    ∃ t', many more p s' = .ok as t' ∧ Beside stop r r' l.braces t t' := by
  induction hn : s.remaining using Nat.strongRecOn generalizing s s' as with
  | ind n ih =>
    have hmore : more s' = more s := by rw [hm, hm, h.kind]
    rw [many] at hrun ⊢
    rw [hmore]
    split at hrun
    · rename_i hyes
      have hkind : m s.kind = true := by rw [← hm, hyes]
      split at hrun
      · cases hrun
      · rename_i a s₁ hfirst
        have hread₁ := hread s a s₁ hs hkind hfirst
        split at hrun
        · rename_i hless
          split at hrun
          · cases hrun
          · rename_i as s₂ hothers
            cases hrun
            have hread₂ := Reads.of_many hm hread (hread₁.ended hs) hothers
            obtain ⟨s₁', hfirst', h₁⟩ := hitem s s' a s₁ h hs hkind hfirst
              (Nat.lt_of_lt_of_le hlt hread₂.length_le)
            obtain ⟨t', hothers', ht⟩ := ih _ (hn ▸ hless) h₁ (hread₁.ended hs) hothers rfl
            have hremaining := h.remaining
            have hremaining₁ := h₁.remaining
            have hless' : s₁'.remaining < s'.remaining := by omega
            exact ⟨t', by simp [hyes, hfirst', hothers', hless'], ht⟩
        · rename_i hless
          cases hrun
          obtain ⟨s₁', hfirst', h₁⟩ := hitem s s' a t h hs hkind hfirst hlt
          have hremaining := h.remaining
          have hremaining₁ := h₁.remaining
          have hless' : ¬ s₁'.remaining < s'.remaining := by omega
          exact ⟨s₁', by simp [hyes, hfirst', hless'], h₁⟩
    · rename_i hno
      cases hrun
      exact ⟨s', by simp [hno], h⟩

/-- The same of a list, whose commas come before `stop`. -/
theorem beside_commaList (close : Kind) (hr : r ≠ [])
    (hread : ∀ s a t, s.Ended → p s = .ok a t → Reads l l s t)
    (hitem : ActsBeside stop r r' (fun _ => True) l l p) {s s' : State}
    (h : Beside stop r r' l.braces s s') (hs : s.Ended) (hrun : commaList close p s = .ok as t)
    (hlt : r.length < t.tokens.length) :
    ∃ t', commaList close p s' = .ok as t' ∧ Beside stop r r' l.braces t t' := by
  induction hn : s.remaining using Nat.strongRecOn generalizing s s' as with
  | ind n ih =>
    have hremaining := h.remaining
    rw [commaList] at hrun ⊢
    rw [h.kind]
    split at hrun
    · rename_i hend
      cases hrun
      exact ⟨s', by simp [hend], h⟩
    · rename_i hend
      split at hrun
      · cases hrun
      · rename_i a s₁ hfirst
        have hread₁ := hread s a s₁ hs hfirst
        split at hrun
        · rename_i hcomma
          have hafter : l.after s₁.kind = some l := l.after_eq_self (by rw [hcomma]; rfl)
          have hread₂ : Reads l l s₁ s₁.next := .next (hread₁.ended hs) hafter
          have hbraces : bracesAfter l.braces s₁.kind = some l.braces := by
            rw [hcomma]
            exact bracesAfter_eq_self _ rfl
          -- The item and the comma are read in both if the comma is not passed over.
          have hboth (hlt : r.length < s₁.next.tokens.length) :
              ∃ s₁', p s' = .ok a s₁' ∧ Beside stop r r' l.braces s₁ s₁' ∧
                Beside stop r r' l.braces s₁.next s₁'.next := by
            obtain ⟨s₁', hfirst', h₁⟩ := hitem s s' a s₁ h hs trivial hfirst
              (Nat.lt_of_lt_of_le hlt hread₂.length_le)
            exact ⟨s₁', hfirst', h₁, h₁.next hr hbraces hlt⟩
          split at hrun
          · rename_i hless
            split at hrun
            · cases hrun
            · rename_i as s₃ hothers
              cases hrun
              have hended := hread₂.ended (hread₁.ended hs)
              have hread₃ := Reads.of_commaList close hread hended hothers
              obtain ⟨s₁', hfirst', h₁, h₂⟩ := hboth (Nat.lt_of_lt_of_le hlt hread₃.length_le)
              obtain ⟨t', hothers', ht⟩ := ih _ (hn ▸ hless) h₂ hended hothers rfl
              have hremaining₂ := h₂.remaining
              have hless' : s₁'.next.remaining < s'.remaining := by omega
              exact ⟨t', by simp [hend, hfirst', h₁.kind, hcomma, hothers', hless'], ht⟩
          · rename_i hless
            cases hrun
            obtain ⟨s₁', hfirst', h₁, h₂⟩ := hboth hlt
            have hremaining₂ := h₂.remaining
            have hless' : ¬ s₁'.next.remaining < s'.remaining := by omega
            exact ⟨s₁'.next, by simp [hend, hfirst', h₁.kind, hcomma, hless'], h₂⟩
        · rename_i hcomma
          cases hrun
          obtain ⟨s₁', hfirst', h₁⟩ := hitem s s' a t h hs trivial hfirst hlt
          exact ⟨s₁', by simp [hend, hfirst', h₁.kind, hcomma], h₁⟩

end

/-- A parser looks at nothing past the end of the declaration that it reads a part of. -/
theorem Parallel.beside {α β : Type} {K : Kind → Prop} {l l' : Level} {view : α → β}
    {p q : Parse α} (hpq : Parallel Eq K l l' view p q) {stop : Token} {r r' : List Token}
    (hstop : stop.kind.isEnd = true) (hr : r ≠ []) : ActsBeside stop r r' K l l' p := by
  induction hpq with
  | pure _ =>
    intro s s' a t h _ _ hrun _
    cases hrun
    exact ⟨s', rfl, h⟩
  | bind hp hk ihp ihk =>
    intro s s' b t h hs hK hrun hlt
    obtain ⟨a, u, hfirst, hrest⟩ := bind_eq_ok_iff.1 hrun
    have hread := hp.reads s a u hs hK hfirst
    have hread' := (hk a a rfl).reads u b t (hread.ended hs) trivial hrest
    obtain ⟨u', hfirst', hu⟩ := ihp s s' a u h hs hK hfirst
      (Nat.lt_of_lt_of_le hlt hread'.length_le)
    obtain ⟨t', hrest', ht⟩ := ihk a a rfl u u' b t hu (hread.ended hs) trivial hrest hlt
    exact ⟨t', bind_eq_ok_iff.2 ⟨a, u', hfirst', hrest'⟩, ht⟩
  | weaken hK _ _ ih => exact fun s s' a t h hs hx => ih s s' a t h hs (hK _ hx)
  | fail cause => exact fun s s' a t _ _ _ hrun => nomatch hrun
  | throw cause _ => exact fun s s' a t _ _ _ hrun => nomatch hrun
  | tooDeep => exact fun s s' a t _ _ _ hrun => nomatch hrun
  | @ask _ _ _ _ _ _ _ o k k' ho _ ih =>
    intro s s' a t h hs hK hrun hlt
    show ∃ t', k (o s') s' = _ ∧ _
    rw [ho.beside hstop h]
    exact ih (o s) s s' a t h hs ⟨hK, s, rfl, rfl⟩ hrun hlt
  | hold k k' hend _ ih =>
    intro s s' a t h hs hK hrun hlt
    have hpeek : s'.peek 1 = s.peek 1 := by
      obtain ⟨u, us, us', hu, hu'⟩ := h.following hstop (hend _ hK)
      simp [State.peek, State.tokens, hu, hu']
    show ∃ t', k s'.current (s'.peek 1) s' = _ ∧ _
    rw [h.current, hpeek]
    exact ih _ _ _ _ rfl rfl rfl s s' a t h hs hK hrun hlt
  | position b =>
    intro s s' a t h _ _ hrun _
    cases hrun
    exact ⟨s', by rw [← h.current]; rfl, h⟩
  | spanFrom b start start' =>
    intro s s' a t h _ _ hrun _
    cases hrun
    exact ⟨s', by rw [State.spanFrom, ← h.lastStop]; rfl, h⟩
  | @advance _ _ _ l _ _ k _ hcurly hk ih =>
    intro s s' a t h hs hK hrun hlt
    have hread : Reads l l s s.next := .next hs (l.after_eq_self (hcurly _ hK))
    have hread' := (hk s.current _ rfl rfl).reads s.next a t (hread.ended hs) trivial hrun
    have hnext := h.next hr (bracesAfter_eq_self _ (hcurly _ hK))
      (Nat.lt_of_lt_of_le hlt hread'.length_le)
    show ∃ t', k s'.current s'.next = _ ∧ _
    rw [h.current]
    exact ih _ _ rfl rfl s.next s'.next a t hnext (hread.ended hs) trivial hrun hlt
  | expectDescribed expected hafter =>
    intro s s' a t h hs _ hrun hlt
    obtain ⟨n, hn, rfl⟩ := Option.map_eq_some_iff.1 hafter
    rw [run_expectDescribed] at hrun ⊢
    rw [h.kind]
    split at hrun
    · rename_i hkind
      cases hrun
      exact ⟨s'.next, by simp [hkind, h.current], h.next hr (by rw [hkind, hn]) hlt⟩
    · cases hrun
  | accept hcurly =>
    intro s s' a t h hs _ hrun hlt
    rw [run_accept] at hrun ⊢
    rw [h.kind]
    split at hrun
    · rename_i hkind
      cases hrun
      exact ⟨s'.next, by simp [hkind], h.next hr (by rw [hkind, bracesAfter_eq_self _ hcurly]) hlt⟩
    · rename_i hkind
      cases hrun
      exact ⟨s', by simp [hkind], h⟩
  | deepen =>
    intro s s' a t h _ _ hrun _
    rw [run_deepen] at hrun ⊢
    rw [h.depth]
    split at hrun
    · rename_i hdepth
      cases hrun
      exact ⟨_, if_pos hdepth, ⟨h.lastStop, rfl, h.scope⟩, h.tokens⟩
    · cases hrun
  | surface =>
    intro s s' a t h _ _ hrun _
    cases hrun
    exact ⟨_, rfl, ⟨h.lastStop, congrArg (· - 1) h.depth, h.scope⟩, h.tokens⟩
  | modifyScope f =>
    intro s s' a t h _ _ hrun _
    cases hrun
    exact ⟨_, rfl, ⟨h.lastStop, h.depth, congrArg f h.scope⟩, h.tokens⟩
  | @beginClass _ l name =>
    intro s s' a t h _ _ hrun _
    cases hrun
    obtain ⟨w, hs, hs', hw⟩ := h.tokens
    have hmembers : domMembersIn 0 0 s'.tokens = domMembersIn 0 0 s.tokens := by
      rw [hs, hs', List.append_cons w stop r, List.append_cons w stop r']
      exact domMembersIn_append (n := l.braces) 0 0 hw (Nat.zero_le _) r' r
    refine ⟨_, rfl, ⟨h.lastStop, h.depth, ?_⟩, h.tokens⟩
    exact congrArg (Scope.beginClass name) hmembers
  | @skipBraced _ l =>
    intro s s' a t h hs _ hrun hlt
    rw [run_skipBraced] at hrun ⊢
    rw [h.kind]
    split at hrun
    · rename_i hkind
      split at hrun
      · rename_i hclosed
        cases hrun
        have hclose : closeBraces 1 s.next = ((closeBraces 1 s.next).1, true) :=
          Prod.ext rfl hclosed
        have hread := Reads.of_closeBraces l.braces l.depth Nat.one_ne_zero hclose
        have hopen : bracesAfter l.braces s.kind = some (l.braces + 1) := by
          rw [hkind]
          rfl
        have hnext := h.next hr hopen (Nat.lt_of_lt_of_le hlt hread.length_le)
        obtain ⟨t', hclose', ht⟩ := hnext.closeBraces hr Nat.one_ne_zero hclose hlt
        exact ⟨t', by simp [hkind, hclose'], ht⟩
      · cases hrun
    · cases hrun
  | many hm hp ih =>
    exact fun s s' as t h hs _ hrun hlt => beside_many hm hp.reads ih h hs hrun hlt
  | commaList close hp ih =>
    intro s s' as t h hs _ hrun hlt
    exact beside_commaList close hr (fun s a t hs => hp.reads s a t hs trivial) ih h hs hrun hlt

end ClassScript.Parse

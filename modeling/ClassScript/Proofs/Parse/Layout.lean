import ClassScript.Proofs.Parse.Declarations
import ClassScript.Proofs.Parse.Parallel.Decl

/-!
# Two runs in step

Two token lists with the same kinds and texts are read in the same way, wherever the
tokens stand. `InStep` says that two parses have come to the same index of the two
lists, at the same depth and in the same scope. Each kind of step keeps that, so
parsers that are built alike do (`Parallel.agrees`): both return, and the values have
the same view, or both fail for the same cause at the same index.
-/

namespace ClassScript

/-- A token without its place. -/
def Token.unlocated (t : Token) : Token := { t with span := .none }

namespace Parse

/-! ### Lookahead does not see places -/

section

variable (ts : List Token)

theorem skipDotted_unlocated :
    skipDotted (ts.map Token.unlocated) = (skipDotted ts).map Token.unlocated := by
  fun_induction skipDotted ts with
  | case1 d n rest h ih => simpa [skipDotted, Token.unlocated, h] using ih
  | case2 d n rest h => simp [skipDotted, Token.unlocated, h]
  | case3 ts h =>
    rcases ts with _ | ⟨t, _ | ⟨u, ts⟩⟩
    · rfl
    · rfl
    · exact absurd rfl (h t u ts)

/-- The scan over angle brackets looks at kinds only. -/
theorem skipAngles_unlocated (depth : Nat) :
    skipAngles depth (ts.map Token.unlocated) =
      (skipAngles depth ts).map (List.map Token.unlocated) := by
  induction ts generalizing depth with
  | nil => rfl
  | cons t ts ih =>
    simp only [List.map_cons, skipAngles, Token.unlocated, ih]
    split <;> first | rfl | skip
    split <;> rfl

theorem skipTypeArguments_unlocated :
    skipTypeArguments (ts.map Token.unlocated) =
      (skipTypeArguments ts).map (List.map Token.unlocated) := by
  cases ts with
  | nil => rfl
  | cons t ts =>
    simp only [List.map_cons, skipTypeArguments, Token.unlocated, skipAngles_unlocated]
    split <;> rfl

theorem skipQuestion_unlocated :
    skipQuestion (ts.map Token.unlocated) = (skipQuestion ts).map Token.unlocated := by
  cases ts with
  | nil => rfl
  | cons t ts =>
    simp only [List.map_cons, skipQuestion, Token.unlocated]
    split <;> rfl

theorem skipBrackets_unlocated :
    skipBrackets (ts.map Token.unlocated) = (skipBrackets ts).map Token.unlocated := by
  fun_induction skipBrackets ts with
  | case1 d n rest h ih => simpa [skipBrackets, Token.unlocated, h] using ih
  | case2 d n rest h => simp [skipBrackets, Token.unlocated, h]
  | case3 ts h =>
    rcases ts with _ | ⟨t, _ | ⟨u, ts⟩⟩
    · rfl
    · rfl
    · exact absurd rfl (h t u ts)

theorem startsWithName_unlocated :
    startsWithName (ts.map Token.unlocated) = startsWithName ts := by
  cases ts <;> rfl

/-- Whether tokens look like a declaration does not depend on where they stand. -/
theorem looksLikeDeclaration_unlocated :
    looksLikeDeclaration (ts.map Token.unlocated) = looksLikeDeclaration ts := by
  cases ts with
  | nil => rfl
  | cons t ts =>
    simp only [List.map_cons, looksLikeDeclaration, skipDotted_unlocated,
      skipTypeArguments_unlocated]
    cases skipTypeArguments (skipDotted ts) with
    | none => rfl
    | some after =>
      simp only [Option.map_some, skipQuestion_unlocated, skipBrackets_unlocated,
        startsWithName_unlocated]
      rfl

theorem declaredName?_unlocated :
    declaredName? (ts.map Token.unlocated) = declaredName? ts := by
  rcases ts with _ | ⟨t, _ | ⟨u, ts⟩⟩ <;> rfl

/-- Nor does it matter for the members of a class that are elements. -/
theorem domMembersIn_unlocated (braces parens : Nat) :
    domMembersIn braces parens (ts.map Token.unlocated) = domMembersIn braces parens ts := by
  induction ts generalizing braces parens with
  | nil => rfl
  | cons t ts ih =>
    simp only [List.map_cons, domMembersIn, ih, declaredName?_unlocated]
    rfl

end

/-! ### States in step -/

/-- The tokens stand at the same index of the two lists. -/
def SameIndex (L L' : List Token) (t t' : Token) : Prop :=
  ∃ i : Nat, L[i]? = some t ∧ L'[i]? = some t'

/-- Both parses have come to the same index, at the same depth and in the same scope. -/
structure InStep (L L' : List Token) (s s' : State) : Prop where
  tokens : ∃ i, s.tokens = L.drop i ∧ s'.tokens = L'.drop i
  depth : s'.depth = s.depth
  scope : s'.scope = s.scope

section

variable {L L' : List Token} (hL : L.map Token.lexeme = L'.map Token.lexeme) {s s' : State}

/-- Tokens at the same place of two states in step have one index in the two lists. -/
theorem InStep.sameIndex (h : InStep L L' s s') {n : Nat} {t t' : Token}
    (ht : s.tokens[n]? = some t) (ht' : s'.tokens[n]? = some t') : SameIndex L L' t t' := by
  obtain ⟨i, hs, hs'⟩ := h.tokens
  refine ⟨i + n, ?_, ?_⟩
  · rw [← ht, hs, List.getElem?_drop]
  · rw [← ht', hs', List.getElem?_drop]

theorem InStep.current (h : InStep L L' s s') : SameIndex L L' s.current s'.current :=
  h.sameIndex (n := 0) rfl rfl

include hL

theorem InStep.lexemes (h : InStep L L' s s') : s.lexemes = s'.lexemes := by
  obtain ⟨i, hs, hs'⟩ := h.tokens
  rw [State.lexemes, State.lexemes, hs, hs', List.map_drop, List.map_drop, hL]

/-- Without their places the tokens at hand are the same. -/
theorem InStep.unlocated (h : InStep L L' s s') :
    s.tokens.map Token.unlocated = s'.tokens.map Token.unlocated := by
  have hmap (ts : List Token) : ts.map Token.unlocated =
      (ts.map Token.lexeme).map fun w => ⟨w.kind, w.text, .none⟩ := by
    rw [List.map_map]
    rfl
  rw [hmap, hmap]
  exact congrArg _ (h.lexemes hL)

theorem InStep.lexeme (h : InStep L L' s s') : s.current.lexeme = s'.current.lexeme :=
  (List.cons.inj (h.lexemes hL)).1

theorem InStep.kind (h : InStep L L' s s') : s.kind = s'.kind :=
  congrArg Lexeme.kind (h.lexeme hL)

theorem InStep.remaining (h : InStep L L' s s') : s.remaining = s'.remaining := by
  have hlength := congrArg List.length (h.lexemes hL)
  rw [State.length_lexemes, State.length_lexemes] at hlength
  omega

/-- A token is read by both or by none, since the kinds are the same. -/
theorem InStep.next (h : InStep L L' s s') : InStep L L' s.next s'.next := by
  refine ⟨?_, by simp [h.depth], by simp [h.scope]⟩
  have hkind := h.kind hL
  have hnil : s.following = [] ↔ s'.following = [] := by
    rw [← List.length_eq_zero_iff, ← List.length_eq_zero_iff, ← s.remaining_eq, ← s'.remaining_eq,
      h.remaining hL]
  obtain ⟨i, hs, hs'⟩ := h.tokens
  by_cases hend : s.kind = .eof ∨ s.following = []
  · rw [State.next_of_end hend, State.next_of_end (by rwa [← hkind, ← hnil])]
    exact ⟨i, hs, hs'⟩
  · obtain ⟨heof, hmore⟩ := not_or.1 hend
    refine ⟨i + 1, ?_, ?_⟩
    · rw [(State.next_of_more heof hmore).1, ← List.tail_drop, ← hs]
      rfl
    · rw [(State.next_of_more (hkind ▸ heof) (mt hnil.2 hmore)).1, ← List.tail_drop, ← hs']
      rfl

/-- The same of the token after the one at hand. -/
theorem InStep.peek_one (h : InStep L L' s s') :
    SameIndex L L' (s.peek 1) (s'.peek 1) ∧ (s.peek 1).lexeme = (s'.peek 1).lexeme := by
  have hlexemes := h.lexemes hL
  have hpeek (s : State) : s.peek 1 = s.following.headD s.current := by
    unfold State.peek State.tokens
    cases s.following <;> rfl
  rw [hpeek, hpeek]
  cases hs : s.following with
  | nil =>
    have hs' : s'.following = [] := by
      rw [← List.length_eq_zero_iff, ← s'.remaining_eq, ← h.remaining hL, s.remaining_eq, hs]
      rfl
    rw [hs']
    exact ⟨h.current, h.lexeme hL⟩
  | cons t ts =>
    obtain ⟨t', ts', hs', ht, -⟩ : ∃ t' ts', s'.following = t' :: ts' ∧ t'.lexeme = t.lexeme ∧
        ts'.map Token.lexeme = ts.map Token.lexeme := by
      have htail := (List.cons.inj hlexemes).2
      rw [hs] at htail
      exact List.map_eq_cons_iff.1 htail.symm
    rw [hs']
    refine ⟨h.sameIndex (n := 1) ?_ ?_, ht.symm⟩
    · rw [State.tokens, hs]
      rfl
    · rw [State.tokens, hs']
      rfl

/-- What is asked about a state has one answer in both. -/
theorem Question.inStep {γ : Type} {o : State → γ} (ho : Question o) (h : InStep L L' s s') :
    o s = o s' := by
  cases ho with
  | kind => exact h.kind hL
  | budget => rw [State.budget, State.budget, h.depth]
  | scope => exact h.scope.symm
  | declaration =>
    dsimp only
    rw [← looksLikeDeclaration_unlocated, h.unlocated hL, looksLikeDeclaration_unlocated]
  | constructor name =>
    have hpeek (s : State) : s.peekKind 1 = (s.lexemes[1]?.map Lexeme.kind).getD .eof := by
      rw [State.peekKind, State.lexemes, List.getElem?_map, Option.map_map]
      rfl
    rw [startsConstructor, startsConstructor, hpeek, hpeek, h.lexemes hL, h.kind hL,
      show s.current.text = s'.current.text from congrArg Lexeme.text (h.lexeme hL)]
  | accessor =>
    have hlexeme := h.lexeme hL
    have hkind : s.current.kind = s'.current.kind := congrArg Lexeme.kind hlexeme
    have htext : s.current.text = s'.current.text := congrArg Lexeme.text hlexeme
    simp only [accessorOf?, hkind, htext]

/-- Both pass over the same number of tokens. -/
theorem InStep.closeBraces (h : InStep L L' s s') (depth : Nat) :
    InStep L L' (closeBraces depth s).1 (closeBraces depth s').1 ∧
      (closeBraces depth s).2 = (closeBraces depth s').2 := by
  have hlt {s s' : State} (h : InStep L L' s s') :
      s'.next.remaining < s'.remaining ↔ s.next.remaining < s.remaining := by
    rw [(h.next hL).remaining hL, h.remaining hL]
  fun_induction Parse.closeBraces depth s generalizing s' with
  | case1 depth s hmore hkind ih =>
    have hstep : Parse.closeBraces depth s' = Parse.closeBraces (depth + 1) s'.next := by
      rw [Parse.closeBraces, if_pos ((hlt h).2 hmore), ← h.kind hL, hkind]
    rw [hstep]
    exact ih (h.next hL)
  | case2 s hmore hkind =>
    have hstep : Parse.closeBraces 1 s' = (s'.next, true) := by
      rw [Parse.closeBraces, if_pos ((hlt h).2 hmore), ← h.kind hL, hkind]
      rfl
    rw [hstep]
    exact ⟨h.next hL, rfl⟩
  | case3 depth s hmore hkind hdepth ih =>
    have hstep : Parse.closeBraces depth s' = Parse.closeBraces (depth - 1) s'.next := by
      rw [Parse.closeBraces, if_pos ((hlt h).2 hmore), ← h.kind hL, hkind]
      exact if_neg hdepth
    rw [hstep]
    exact ih (h.next hL)
  | case4 depth s hmore hopen hclose ih =>
    have hstep : Parse.closeBraces depth s' = Parse.closeBraces depth s'.next := by
      rw [Parse.closeBraces, if_pos ((hlt h).2 hmore), ← h.kind hL]
      split <;> first | contradiction | rfl
    rw [hstep]
    exact ih (h.next hL)
  | case5 depth s hmore =>
    have hstep : Parse.closeBraces depth s' = (s', false) := by
      rw [Parse.closeBraces, if_neg (mt (hlt h).1 hmore)]
    rw [hstep]
    exact ⟨h, rfl⟩

/-! ### Runs in step -/

/-- The two runs agree: both return and leave states in step, or both fail for the same
cause at the same index. -/
inductive Agrees {α β : Type} (L L' : List Token) (view : α → β) :
    EStateM.Result CompileError State α → EStateM.Result CompileError State α → Prop
  | ok {a a' : α} {s s' : State} : view a = view a' → InStep L L' s s' →
      Agrees L L' view (.ok a s) (.ok a' s')
  | error {t t' : Token} {s s' : State} (cause : CompileError.Cause) : SameIndex L L' t t' →
      Agrees L L' view (.error (.atToken cause t) s) (.error (.atToken cause t') s')

section

variable {α β : Type} {view : α → β} {p q : Parse α}

/-- A loop goes on in both runs or ends in both, by induction on the tokens that remain. -/
theorem agrees_many {more : State → Bool} {m : Kind → Bool} (hm : ∀ s, more s = m s.kind)
    (hitem : ∀ s s', InStep L L' s s' → m s.kind = true → Agrees L L' view (p s) (q s'))
    (h : InStep L L' s s') : Agrees L L' (List.map view) (many more p s) (many more q s') := by
  induction hn : s.remaining using Nat.strongRecOn generalizing s s' with
  | ind n ih =>
    have hmore : more s' = more s := by rw [hm, hm, h.kind hL]
    rw [many, many, hmore]
    split
    · rename_i hyes
      have hfirst := hitem s s' h (by rw [← hm, hyes])
      generalize p s = r, q s' = r' at hfirst ⊢
      cases hfirst with
      | error cause ht => exact .error cause ht
      | ok ha h₁ =>
        simp only [← h₁.remaining hL, ← h.remaining hL, hn]
        split
        · rename_i hlt
          have hothers := ih _ hlt h₁ rfl
          generalize many more p _ = r, many more q _ = r' at hothers ⊢
          cases hothers with
          | error cause ht => exact .error cause ht
          | ok has h₂ => exact .ok (by rw [List.map_cons, List.map_cons, ha, has]) h₂
        · exact .ok (by rw [List.map_cons, List.map_cons, ha]) h₁
    · exact .ok rfl h

/-- A list between commas ends in both runs at the same token. -/
theorem agrees_commaList (stop : Kind)
    (hitem : ∀ s s', InStep L L' s s' → Agrees L L' view (p s) (q s')) (h : InStep L L' s s') :
    Agrees L L' (List.map view) (commaList stop p s) (commaList stop q s') := by
  induction hn : s.remaining using Nat.strongRecOn generalizing s s' with
  | ind n ih =>
    rw [commaList, commaList, ← h.kind hL]
    split
    · exact .ok rfl h
    · have hfirst := hitem s s' h
      generalize p s = r, q s' = r' at hfirst ⊢
      cases hfirst with
      | error cause ht => exact .error cause ht
      | ok ha h₁ =>
        have h₂ := h₁.next hL
        simp only [← h₁.kind hL, ← h₂.remaining hL, ← h.remaining hL, hn]
        split
        · split
          · rename_i hlt
            have hothers := ih _ hlt h₂ rfl
            generalize commaList stop p _ = r, commaList stop q _ = r' at hothers ⊢
            cases hothers with
            | error cause ht => exact .error cause ht
            | ok has h₃ => exact .ok (by rw [List.map_cons, List.map_cons, ha, has]) h₃
          · exact .ok (by rw [List.map_cons, List.map_cons, ha]) h₂
        · exact .ok (by rw [List.map_cons, List.map_cons, ha]) h₁

end

omit hL in
/-- The second parsers run only if both of the first ones return. -/
theorem Agrees.bind {α β γ δ : Type} {view : α → β} {view' : γ → δ} {p q : Parse α}
    {k k' : α → Parse γ} (hp : Agrees L L' view (p s) (q s'))
    (hk : ∀ a a' s s', view a = view a' → InStep L L' s s' →
      Agrees L L' view' (k a s) (k' a' s')) :
    Agrees L L' view' ((p >>= k) s) ((q >>= k') s') := by
  show Agrees L L' view' (EStateM.bind p k s) (EStateM.bind q k' s')
  unfold EStateM.bind
  generalize p s = r, q s' = r' at hp ⊢
  cases hp with
  | ok ha h => exact hk _ _ _ _ ha h
  | error cause ht => exact .error cause ht

omit hL in
theorem Agrees.weaken {α β γ : Type} {view : α → β} {view' : α → γ}
    {r r' : EStateM.Result CompileError State α} (h : Agrees L L' view r r')
    (hview : ∀ a a', view a = view a' → view' a = view' a') : Agrees L L' view' r r' := by
  cases h with
  | ok ha h => exact .ok (hview _ _ ha) h
  | error cause ht => exact .error cause ht

/-- The two errors are the same, at tokens with one index. -/
theorem InStep.unexpected (h : InStep L L' s s') {α β : Type} (view : α → β) (expected : String) :
    Agrees L L' view (.error (s.unexpected expected) s) (.error (s'.unexpected expected) s') := by
  rw [State.unexpected, State.unexpected, display_eq (h.lexeme hL)]
  exact .error _ h.current

/-- Parsers that are built alike agree on states in step. -/
theorem Parallel.agrees {α β : Type} {K : Kind → Prop} {l l' : Level} {view : α → β}
    {p q : Parse α} (hpq : Parallel (SameIndex L L') K l l' view p q) :
    ∀ s s', InStep L L' s s' → K s.kind → Agrees L L' view (p s) (q s') := by
  induction hpq with
  | pure ha => exact fun s s' h _ => .ok ha h
  | bind _ _ ihp ihk =>
    intro s s' h hK
    exact (ihp s s' h hK).bind fun a a' s₁ s₁' ha h₁ => ihk a a' ha s₁ s₁' h₁ trivial
  | weaken hK hview _ ih => exact fun s s' h hx => (ih s s' h (hK _ hx)).weaken hview
  | fail cause =>
    intro s s' h _
    show Agrees L L' _ (.error (.atToken (cause s.current.display) s.current) s)
      (.error (.atToken (cause s'.current.display) s'.current) s')
    rw [display_eq (h.lexeme hL)]
    exact .error _ h.current
  | throw cause ht => exact fun s s' _ _ => .error cause ht
  | tooDeep => exact fun s s' h _ => .error _ h.current
  | @ask _ _ _ _ _ _ _ o k k' ho _ ih =>
    intro s s' h hK
    show Agrees L L' _ (k (o s) s) (k' (o s') s')
    rw [← ho.inStep hL h]
    exact ih (o s) s s' h ⟨hK, s, rfl, rfl⟩
  | hold k k' _ _ ih =>
    intro s s' h hK
    obtain ⟨hpeek, hlexeme⟩ := h.peek_one hL
    exact ih _ _ _ _ h.current hpeek hlexeme s s' h hK
  | position b => exact fun s s' h _ => .ok rfl h
  | spanFrom b start start' => exact fun s s' h _ => .ok rfl h
  | advance _ _ ih =>
    exact fun s s' h _ => ih _ _ h.current (h.lexeme hL) _ _ (h.next hL) trivial
  | expectDescribed expected _ =>
    intro s s' h _
    rw [run_expectDescribed, run_expectDescribed, ← h.kind hL]
    split
    · exact .ok (h.lexeme hL) (h.next hL)
    · exact h.unexpected hL _ expected
  | accept _ =>
    intro s s' h _
    rw [run_accept, run_accept, ← h.kind hL]
    split
    · exact .ok rfl (h.next hL)
    · exact .ok rfl h
  | deepen =>
    intro s s' h _
    rw [run_deepen, run_deepen, h.depth]
    split
    · exact .ok rfl ⟨h.tokens, rfl, h.scope⟩
    · exact .error _ h.current
  | surface => exact fun s s' h _ => .ok rfl ⟨h.tokens, congrArg (· - 1) h.depth, h.scope⟩
  | modifyScope f => exact fun s s' h _ => .ok rfl ⟨h.tokens, h.depth, congrArg f h.scope⟩
  | beginClass name =>
    intro s s' h _
    refine .ok rfl ⟨h.tokens, h.depth, congrArg (Scope.beginClass name) ?_⟩
    rw [← domMembersIn_unlocated, ← h.unlocated hL, domMembersIn_unlocated]
  | skipBraced =>
    intro s s' h _
    obtain ⟨hclose, hclosed⟩ := (h.next hL).closeBraces hL 1
    rw [run_skipBraced, run_skipBraced, ← h.kind hL, ← hclosed]
    split
    · split
      · exact .ok rfl hclose
      · exact hclose.unexpected hL _ _
    · exact h.unexpected hL _ _
  | many hm _ ih => exact fun s s' h _ => agrees_many hL hm ih h
  | commaList stop _ ih =>
    exact fun s s' h _ => agrees_commaList hL stop (fun s s' h => ih s s' h trivial) h

end

end Parse

end ClassScript

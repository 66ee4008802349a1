import ClassScript.Proofs.Parse.Outcome
import ClassScript.Proofs.Token.Spelling

/-!
# Reading given lexemes

What a parser does depends on the kinds and texts of the tokens before it, and
their places go into spans only. The lemmas here say what the primitives and the
loops do in a state where the next lexemes are known, so that a parser can be
followed along a text that was spelled out. `Reaches` is the frame they keep.
-/

namespace ClassScript.Parse

/-- What the tokens from the one at hand on say. -/
def State.lexemes (s : State) : List Lexeme := s.tokens.map Token.lexeme

namespace State

variable {s : State} {w w' : Lexeme} {ws : List Lexeme}

theorem current_lexeme (h : s.lexemes = w :: ws) : s.current.lexeme = w :=
  (List.cons.inj h).1

theorem kind_eq (h : s.lexemes = w :: ws) : s.kind = w.kind :=
  congrArg Lexeme.kind (current_lexeme h)

theorem text_eq (h : s.lexemes = w :: ws) : s.current.text = w.text :=
  congrArg Lexeme.text (current_lexeme h)

theorem peekKind_one (h : s.lexemes = w :: w' :: ws) : s.peekKind 1 = w'.kind := by
  have hfollowing : s.following.map Token.lexeme = w' :: ws := (List.cons.inj h).2
  unfold peekKind tokens
  cases hts : s.following with
  | nil =>
    rw [hts] at hfollowing
    cases hfollowing
  | cons t ts =>
    rw [hts] at hfollowing
    exact congrArg Lexeme.kind (List.cons.inj hfollowing).1

/-- One lexeme is passed, unless it is the end of the input. -/
theorem lexemes_next (h : s.lexemes = w :: w' :: ws) (hw : w.kind ≠ .eof) :
    s.next.lexemes = w' :: ws := by
  have hfollowing : s.following.map Token.lexeme = w' :: ws := (List.cons.inj h).2
  unfold next
  rw [if_neg (by rw [kind_eq h]; exact hw)]
  split
  · rename_i hnil
    rw [hnil] at hfollowing
    cases hfollowing
  · rename_i t ts hcons
    rw [hcons] at hfollowing
    exact hfollowing

theorem length_lexemes (s : State) : s.lexemes.length = s.remaining + 1 := by
  rw [s.remaining_eq]
  simp [lexemes, tokens]

/-- Progress in lexemes is what the repetition asks for. -/
theorem remaining_lt {s' : State} (h : s'.lexemes.length < s.lexemes.length) :
    s'.remaining < s.remaining := by
  rw [length_lexemes, length_lexemes] at h
  omega

theorem terminate_tokens (p : Position) {ts : List Token}
    (h : ∃ us t, ts = us ++ [t] ∧ t.kind = .eof) :
    (terminate p ts).1 :: (terminate p ts).2 = ts := by
  obtain ⟨us, t, rfl, ht⟩ := h
  induction us generalizing p with
  | nil => simp [terminate, ht]
  | cons u us ih =>
    have hrest := ih u.span.stop
    rw [List.cons_append, terminate, if_neg (by simp)]
    exact congrArg (u :: ·) hrest

/-- The first state of a parse has all tokens before it. -/
theorem lexemes_ofTokens {ts : List Token} (h : ts.map Token.lexeme = ws ++ [.eof]) :
    (State.ofTokens ts).lexemes = ws ++ [.eof] := by
  obtain ⟨us, vs, rfl, -, hvs⟩ := List.map_eq_append_iff.1 h
  obtain ⟨t, rfl, ht⟩ := List.map_eq_singleton_iff.1 hvs
  have htokens : (State.ofTokens (us ++ [t])).tokens = us ++ [t] :=
    terminate_tokens .none ⟨us, t, rfl, congrArg Lexeme.kind ht⟩
  rw [lexemes, htokens, h]

/-- The parse has gone on from `s` to a state before `ws`, at the same depth and in
the same scope. -/
structure Reaches (s : State) (ws : List Lexeme) (s' : State) : Prop where
  lexemes : s'.lexemes = ws
  depth : s'.depth = s.depth
  scope : s'.scope = s.scope

theorem Reaches.refl (h : s.lexemes = ws) : s.Reaches ws s := ⟨h, rfl, rfl⟩

/-- A parse goes on in steps. -/
theorem Reaches.trans {s' s'' : State} {ws' : List Lexeme} (h : s.Reaches ws s')
    (h' : s'.Reaches ws' s'') : s.Reaches ws' s'' :=
  ⟨h'.lexemes, h'.depth.trans h.depth, h'.scope.trans h.scope⟩

/-- `s'` is like `s` but for the depth, which is `d`. -/
structure AtDepth (s : State) (d : Nat) (s' : State) : Prop where
  lexemes : s'.lexemes = s.lexemes
  depth : s'.depth = d
  scope : s'.scope = s.scope

theorem atDepth (s : State) (d : Nat) : s.AtDepth d { s with depth := d } := ⟨rfl, rfl, rfl⟩

/-- A level that was entered is left again. -/
theorem AtDepth.leave {s₀ s₁ s₂ : State} (h₀ : s.AtDepth (s.depth + 1) s₀)
    (h₁ : s₀.Reaches ws s₁) (h₂ : s₁.AtDepth (s₁.depth - 1) s₂) : s.Reaches ws s₂ := by
  refine ⟨h₂.lexemes.trans h₁.lexemes, ?_, ?_⟩
  · rw [h₂.depth, h₁.depth, h₀.depth]
    rfl
  · rw [h₂.scope, h₁.scope, h₀.scope]

theorem reaches_next (h : s.lexemes = w :: w' :: ws) (hw : w.kind ≠ .eof) :
    s.Reaches (w' :: ws) s.next :=
  ⟨lexemes_next h hw, next_depth s, next_scope s⟩

/-- Something follows every lexeme but the last. -/
theorem reaches_next_of_ne_nil (h : s.lexemes = w :: ws) (hw : w.kind ≠ .eof) (hne : ws ≠ []) :
    s.Reaches ws s.next := by
  obtain ⟨w', ws', rfl⟩ := List.exists_cons_of_ne_nil hne
  exact reaches_next h hw

end State

/-! ### The primitives -/

section

variable {α : Type} {ok : Token → State → Prop} {fails : CompileError → State → Prop}
  {s : State} {w w' : Lexeme} {ws : List Lexeme}

/-- A token of the kind that is expected is read. -/
theorem outcome_expectDescribed_of {kind : Kind} {expected : String}
    (h : s.lexemes = w :: w' :: ws) (hkind : w.kind = kind) (heof : kind ≠ .eof)
    (hok : s.Reaches (w' :: ws) s.next → ok s.current s.next) :
    Outcome ok fails (expectDescribed kind expected s) := by
  rw [outcome_expectDescribed]
  have hs : s.kind = kind := (State.kind_eq h).trans hkind
  exact ⟨fun _ => hok (State.reaches_next h (hkind ▸ heof)), fun hne => absurd hs hne⟩

theorem outcome_expect_of {kind : Kind} (h : s.lexemes = w :: w' :: ws) (hkind : w.kind = kind)
    (heof : kind ≠ .eof) (hok : s.Reaches (w' :: ws) s.next → ok s.current s.next) :
    Outcome ok fails (expect kind s) :=
  outcome_expectDescribed_of h hkind heof hok

/-- The same where it is only known that something follows. -/
theorem outcome_expect_of_ne_nil {kind : Kind} (h : s.lexemes = w :: ws) (hne : ws ≠ [])
    (hkind : w.kind = kind) (heof : kind ≠ .eof) (hok : s.Reaches ws s.next → ok s.current s.next) :
    Outcome ok fails (expect kind s) := by
  obtain ⟨w', ws', rfl⟩ := List.exists_cons_of_ne_nil hne
  exact outcome_expect_of h hkind heof hok

/-- Another lexeme than the one that is looked for stays. -/
theorem outcome_accept_of {ok : Bool → State → Prop} {kind : Kind} (h : s.lexemes = w :: ws)
    (hkind : w.kind ≠ kind) (hok : ok false s) : Outcome ok fails (accept kind s) := by
  rw [outcome_accept]
  have hs : s.kind ≠ kind := by rwa [State.kind_eq h]
  exact ⟨fun heq => absurd heq hs, fun _ => hok⟩

/-- A class body begins. What is known about names afterwards is left open. -/
theorem outcome_beginClass_of {ok : PUnit → State → Prop} (name : String)
    (hok : ∀ s', s'.lexemes = s.lexemes → s'.depth = s.depth → ok ⟨⟩ s') :
    Outcome ok fails (beginClass name s) := by
  rw [outcome_beginClass]
  exact hok _ rfl rfl

/-! ### The loops -/

variable {ok : List α → State → Prop}

/-- A loop that ends at once. -/
theorem outcome_many_done {more : State → Bool} {item : Parse α} (h : more s = false)
    (hok : ok [] s) : Outcome ok fails (many more item s) := by
  unfold many
  rw [if_neg (by simp [h])]
  exact hok

/-- A loop that goes round once, and then on from what is left. -/
theorem outcome_many_round {more : State → Bool} {item : Parse α} (h : more s = true)
    (hitem : Outcome (fun a s' => s'.remaining < s.remaining ∧
      Outcome (fun as s'' => ok (a :: as) s'') fails (many more item s')) fails (item s)) :
    Outcome ok fails (many more item s) := by
  unfold many
  rw [if_pos h]
  cases hr : item s with
  | error e s' =>
    rw [hr] at hitem
    exact hitem
  | ok a s' =>
    rw [hr] at hitem
    obtain ⟨hlt, hrest⟩ := hitem
    simp only [if_pos hlt]
    cases hr' : many more item s' with
    | error e s'' => rw [hr'] at hrest; exact hrest
    | ok as s'' => rw [hr'] at hrest; exact hrest

/-- A list that is empty. -/
theorem outcome_commaList_done {stop : Kind} {item : Parse α} (h : s.kind = stop)
    (hok : ok [] s) : Outcome ok fails (commaList stop item s) := by
  unfold commaList
  rw [if_pos h]
  exact hok

/-- A list with an item: it ends after the item, or goes on after a comma. -/
theorem outcome_commaList_item {stop : Kind} {item : Parse α} (h : s.kind ≠ stop)
    (hitem : Outcome (fun a s' => (s'.kind ≠ .comma ∧ ok [a] s') ∨
      (s'.kind = .comma ∧ s'.next.remaining < s.remaining ∧
        Outcome (fun as s'' => ok (a :: as) s'') fails (commaList stop item s'.next))) fails
      (item s)) :
    Outcome ok fails (commaList stop item s) := by
  unfold commaList
  rw [if_neg h]
  cases hr : item s with
  | error e s' =>
    rw [hr] at hitem
    exact hitem
  | ok a s' =>
    rw [hr] at hitem
    rcases hitem with ⟨hcomma, hok⟩ | ⟨hcomma, hlt, hrest⟩
    · simp only [if_neg hcomma]
      exact hok
    · simp only [if_pos hcomma, if_pos hlt]
      cases hr' : commaList stop item s'.next with
      | error e s'' => rw [hr'] at hrest; exact hrest
      | ok as s'' => rw [hr'] at hrest; exact hrest

end

end ClassScript.Parse

import ClassScript.Proofs.Parse.Lexemes

/-!
# Reading names, arguments and operators

What the parsers for names and types, the parser for arguments and the steps of
precedence climbing do in a state where the next lexemes are known. The lemmas
leave open what a failure is: where a parser enters a level of nesting, they ask
for what is wanted of a failure there, and everywhere else they exclude one.
-/

namespace ClassScript.Parse

/-! ### Names and types -/

/-- The lexemes of names with a point before each. -/
def pointLexemes : List String → List Lexeme
  | [] => []
  | name :: names => .ofKind .dot :: ⟨.identifier, name⟩ :: pointLexemes names

/-- The lexemes of a name, and of those joined to it by points. -/
def nameLexemes (first : String) (others : List String) : List Lexeme :=
  ⟨.identifier, first⟩ :: pointLexemes others

/-- A name, and those joined to it by points. -/
def joinNames (first : String) (others : List String) : String :=
  others.foldl (fun front name => front ++ "." ++ name) first

section

variable {fails : CompileError → State → Prop} {s : State} {w : Lexeme} {ws : List Lexeme}

/-- There is a next lexeme after a name, whether or not others are joined to it. -/
theorem exists_pointLexemes_append (others : List String) (w : Lexeme) (ws : List Lexeme) :
    ∃ v vs, pointLexemes others ++ w :: ws = v :: vs := by
  cases others <;> exact ⟨_, _, rfl⟩

/-- By induction on the names behind points. -/
theorem reads_others (others : List String) (hw : w.kind ≠ .dot)
    (hs : s.lexemes = pointLexemes others ++ w :: ws) :
    Outcome (fun ts s' => ts.map Token.text = others ∧ s.Reaches (w :: ws) s') fails
      (many (·.kind = .dot) (advance >>= fun _ => expect .identifier) s) := by
  induction others generalizing s with
  | nil =>
    have hkind : s.kind ≠ .dot := by rwa [State.kind_eq hs]
    exact outcome_many_done (by simpa using hkind) ⟨rfl, .refl hs⟩
  | cons name others ih =>
    obtain ⟨v, vs, hv⟩ := exists_pointLexemes_append others w ws
    have hs' : s.lexemes = .ofKind .dot :: ⟨.identifier, name⟩ :: v :: vs := by
      rw [hs, ← hv]
      rfl
    have hdot := State.reaches_next hs' (show (Lexeme.ofKind .dot).kind ≠ .eof by decide)
    refine outcome_many_round (by rw [State.kind_eq hs]; rfl) ?_
    rw [outcome_bind, outcome_advance]
    refine outcome_expect_of hdot.lexemes rfl (by decide) fun hname => ⟨?_, ?_⟩
    · refine State.remaining_lt ?_
      rw [hs', hname.lexemes]
      simp only [List.length_cons]
      omega
    · refine (ih (hname.lexemes.trans hv.symm)).mono fun ts s' h => ⟨?_, ?_⟩
      · rw [List.map_cons, h.1, State.text_eq hdot.lexemes]
      · exact (hdot.trans hname).trans h.2

/-- A dotted name is read to its end. -/
theorem reads_dottedName {expected first : String} {others : List String} (hw : w.kind ≠ .dot)
    (hs : s.lexemes = nameLexemes first others ++ w :: ws) :
    Outcome (fun name s' => name = joinNames first others ∧ s.Reaches (w :: ws) s') fails
      (dottedName expected s) := by
  obtain ⟨v, vs, hv⟩ := exists_pointLexemes_append others w ws
  have hs' : s.lexemes = ⟨.identifier, first⟩ :: v :: vs := by
    rw [hs, nameLexemes, List.cons_append, hv]
  unfold dottedName
  rw [outcome_bind]
  refine outcome_expectDescribed_of hs' rfl (by decide) fun hfirst => ?_
  rw [outcome_bind]
  refine (reads_others others hw (hfirst.lexemes.trans hv.symm)).mono fun ts s' h => ⟨?_, ?_⟩
  · rw [joinNames, ← h.1, List.foldl_map, State.text_eq hs']
  · exact hfirst.trans h.2

/-- A type that is a dotted name and no more. -/
theorem reads_typeRef {first : String} {others : List String} {power : Power}
    (hw : w.kind ≠ .dot ∧ w.kind ≠ .less ∧ w.kind ≠ .question ∧ w.kind ≠ .openBracket)
    (hs : s.lexemes = nameLexemes first others ++ w :: ws)
    (hdeep : ¬ s.depth < nestingLimit → fails s.tooDeep { s with depth := s.depth + 1 }) :
    Outcome (fun t s' => (t.name = joinNames first others ∧ t.nullable = false ∧
      t.arguments = [] ∧ t.isArray = false) ∧ s.Reaches (w :: ws) s') fails (typeRef power s) := by
  show Outcome _ _ (typeWithin s.budget power s)
  by_cases hlt : s.depth < nestingLimit
  · obtain ⟨budget, hbudget⟩ : ∃ budget, s.budget = budget + 1 :=
      ⟨s.budget - 1, by rw [State.budget]; omega⟩
    rw [hbudget, typeWithin, outcome_bind, outcome_deepen]
    refine ⟨fun _ => ?_, fun h => absurd hlt h⟩
    rw [outcome_bind, outcome_kind, outcome_ite]
    have hkind : s.kind = .identifier := State.kind_eq hs
    refine ⟨fun h => absurd hkind h, fun _ => ?_⟩
    rw [outcome_bind, namedTypeOf, outcome_bind, outcome_position, outcome_bind]
    have hs₀ : State.lexemes { s with depth := s.depth + 1 } = _ := hs
    refine (reads_dottedName hw.1 hs₀).mono fun name s₁ h₁ => ?_
    obtain ⟨hname, hreach⟩ := h₁
    rw [outcome_bind]
    -- What follows begins neither type arguments nor a suffix.
    refine outcome_accept_of hreach.lexemes hw.2.1 ?_
    simp only [Bool.false_eq_true, if_false, outcome_pure, outcome_bind, outcome_spanFrom]
    have hkind₁ := State.kind_eq hreach.lexemes
    refine outcome_many_done ?_ ?_
    · simp [startsSuffix, hkind₁, hw.2.2.1, hw.2.2.2]
    · rw [outcome_surface]
      refine ⟨⟨hname, rfl, rfl, rfl⟩, hreach.lexemes, ?_, hreach.scope⟩
      show s₁.depth - 1 = s.depth
      rw [hreach.depth]
      rfl
  · have hbudget : s.budget = 0 := by
      rw [State.budget]
      omega
    rw [hbudget]
    exact hdeep hlt

end

/-! ### Arguments -/

/-- Groups of lexemes with commas between them. -/
def commaLexemes : List (List Lexeme) → List Lexeme
  | [] => []
  | [group] => group
  | group :: groups => group ++ .ofKind .comma :: commaLexemes groups

section

variable {ι β : Type} {spell : ι → List Lexeme} {view : Expr → β} {target : ι → β}
  {inv : State → Prop} {operand : Operand} {fails : CompileError → State → Prop} {w : Lexeme}
  {ws : List Lexeme}

/-- Items with commas between them are read one by one, if each is read where a
comma or a closing parenthesis follows. -/
theorem reads_commaList (hnext : ∀ s, inv s → inv s.next) {items : List ι}
    (hitem : ∀ i ∈ items, ∀ (s : State) (v : Lexeme) (vs : List Lexeme), inv s →
      s.lexemes = spell i ++ v :: vs → v = .ofKind .comma ∨ v = .ofKind .closeParen →
      s.kind ≠ .closeParen ∧
      Outcome (fun e s' => view e = target i ∧ s'.lexemes = v :: vs ∧ inv s') fails
        (operand .default s))
    {s : State} (hs : s.lexemes = commaLexemes (items.map spell) ++ .ofKind .closeParen :: ws)
    (hinv : inv s) :
    Outcome (fun es s' => es.map view = items.map target ∧
      s'.lexemes = .ofKind .closeParen :: ws ∧ inv s') fails
      (commaList .closeParen (operand .default) s) := by
  induction items generalizing s with
  | nil => exact outcome_commaList_done (State.kind_eq hs) ⟨rfl, hs, hinv⟩
  | cons i items ih =>
    cases items with
    | nil =>
      -- After the last item stands the closing parenthesis.
      obtain ⟨hkind, hread⟩ := hitem i List.mem_cons_self s _ ws hinv hs (.inr rfl)
      refine outcome_commaList_item hkind (hread.mono fun e s₁ h₁ => .inl ⟨?_, ?_⟩)
      · rw [State.kind_eq h₁.2.1]
        decide
      · exact ⟨by simp [h₁.1], h₁.2⟩
    | cons j items =>
      have hs' : s.lexemes = spell i ++ .ofKind .comma ::
          (commaLexemes ((j :: items).map spell) ++ .ofKind .closeParen :: ws) := by
        rw [hs]
        simp [commaLexemes]
      obtain ⟨v, vs, hv⟩ : ∃ v vs,
          commaLexemes ((j :: items).map spell) ++ .ofKind .closeParen :: ws = v :: vs :=
        List.exists_cons_of_ne_nil (by simp)
      obtain ⟨hkind, hread⟩ := hitem i List.mem_cons_self s _ _ hinv hs' (.inl rfl)
      refine outcome_commaList_item hkind (hread.mono fun e s₁ h₁ => ?_)
      obtain ⟨he, hs₁, hinv₁⟩ := h₁
      refine .inr ⟨State.kind_eq hs₁, ?_⟩
      rw [hv] at hs₁
      have hcomma := State.lexemes_next hs₁ (by decide)
      rw [← hv] at hcomma
      refine ⟨State.remaining_lt ?_, ?_⟩
      · rw [hs', hcomma]
        simp only [List.length_append, List.length_cons]
        omega
      · refine (ih (fun k hk => hitem k (List.mem_cons_of_mem _ hk)) hcomma
          (hnext s₁ hinv₁)).mono fun es s₂ h₂ => ?_
        exact ⟨by rw [List.map_cons, List.map_cons, he, h₂.1], h₂.2⟩

/-- Arguments in parentheses. -/
theorem reads_arguments (hnext : ∀ s, inv s → inv s.next) {items : List ι}
    (hitem : ∀ i ∈ items, ∀ (s : State) (v : Lexeme) (vs : List Lexeme), inv s →
      s.lexemes = spell i ++ v :: vs → v = .ofKind .comma ∨ v = .ofKind .closeParen →
      s.kind ≠ .closeParen ∧
      Outcome (fun e s' => view e = target i ∧ s'.lexemes = v :: vs ∧ inv s') fails
        (operand .default s))
    {s : State} (hs : s.lexemes = .ofKind .openParen ::
      (commaLexemes (items.map spell) ++ .ofKind .closeParen :: w :: ws)) (hinv : inv s) :
    Outcome (fun es s' => es.map view = items.map target ∧ s'.lexemes = w :: ws ∧ inv s') fails
      (arguments operand s) := by
  obtain ⟨v, vs, hv⟩ : ∃ v vs,
      commaLexemes (items.map spell) ++ .ofKind .closeParen :: w :: ws = v :: vs :=
    List.exists_cons_of_ne_nil (by simp)
  rw [hv] at hs
  unfold arguments
  rw [outcome_bind]
  refine outcome_expect_of hs rfl (by decide) fun hopen => ?_
  rw [outcome_bind]
  refine (reads_commaList hnext hitem (hopen.lexemes.trans hv.symm) (hnext s hinv)).mono
    fun es s₁ h₁ => ?_
  rw [outcome_bind]
  refine outcome_expectDescribed_of h₁.2.1 rfl (by decide) fun hclose => ?_
  exact ⟨h₁.1, hclose.lexemes, hnext s₁ h₁.2.2⟩

end

/-! ### Beginnings and continuations by the token at hand -/

section

variable {ok : Expr → State → Prop} {fails : CompileError → State → Prop} {operand : Operand}
  {left : Expr} {power : Power} {s : State}

/-- The first lexeme tells how an expression begins. -/
theorem outcome_beginning_primary (h : s.kind ∈
      [.number, .string, .kwTrue, .kwFalse, .kwNull, .identifier, .kwThis]) :
    Outcome ok fails (beginning operand s) ↔ Outcome ok fails (primary s) := by
  rw [beginning, outcome_bind, outcome_kind]
  simp only [List.mem_cons, List.not_mem_nil, or_false] at h
  rcases h with h | h | h | h | h | h | h <;> rw [h]

/-- A token that is an expression. -/
theorem outcome_primary_of {e : Expr} {w w' : Lexeme} {ws : List Lexeme}
    (h : s.lexemes = w :: w' :: ws) (hw : w.kind ≠ .eof) (he : primaryOf s.current = .ok e)
    (hok : s.Reaches (w' :: ws) s.next → ok e s.next) : Outcome ok fails (primary s) := by
  unfold primary
  rw [outcome_bind, outcome_advance, he]
  exact hok (State.reaches_next h hw)

theorem outcome_beginning_prefixed (h : s.kind = .not ∨ s.kind = .dash) :
    Outcome ok fails (beginning operand s) ↔ Outcome ok fails (prefixed operand s) := by
  rw [beginning, outcome_bind, outcome_kind]
  rcases h with h | h <;> rw [h]

theorem outcome_beginning_grouping (h : s.kind = .openParen) :
    Outcome ok fails (beginning operand s) ↔ Outcome ok fails (grouping operand s) := by
  rw [beginning, outcome_bind, outcome_kind, h]

theorem outcome_beginning_creation (h : s.kind = .kwNew) :
    Outcome ok fails (beginning operand s) ↔ Outcome ok fails (creation operand s) := by
  rw [beginning, outcome_bind, outcome_kind, h]

/-- The next lexeme tells how it is continued. -/
theorem outcome_continuation_assignment (h : s.kind.power? = some .assignment) :
    Outcome ok fails (continuation operand left power s) ↔
      Outcome ok fails (assignment operand left s) := by
  rw [continuation, outcome_bind, outcome_kind]
  revert h
  generalize s.kind = k
  cases k <;> intro h <;> first | rfl | cases h

theorem outcome_continuation_coalesce (h : s.kind = .nullCoalesce) :
    Outcome ok fails (continuation operand left power s) ↔
      Outcome ok fails (coalesce operand left s) := by
  rw [continuation, outcome_bind, outcome_kind, h]

/-- All operators between operands but one are read alike. -/
theorem outcome_continuation_binary {op : BinaryOp} (h : s.kind.binaryOp? = some op)
    (hop : op ≠ .coalesce) :
    Outcome ok fails (continuation operand left power s) ↔
      Outcome ok fails (binary operand left power s) := by
  rw [continuation, outcome_bind, outcome_kind]
  revert h
  generalize s.kind = k
  cases k <;> intro h <;> first | rfl | (cases h; exact absurd rfl hop) | cases h

theorem outcome_continuation_call (h : s.kind = .openParen) :
    Outcome ok fails (continuation operand left power s) ↔
      Outcome ok fails (call operand left s) := by
  rw [continuation, outcome_bind, outcome_kind, h]

theorem outcome_continuation_update (h : s.kind = .plusPlus ∨ s.kind = .minusMinus) :
    Outcome ok fails (continuation operand left power s) ↔ Outcome ok fails (update left s) := by
  rw [continuation, outcome_bind, outcome_kind]
  rcases h with h | h <;> rw [h]

theorem outcome_continuation_member (h : s.kind = .dot) :
    Outcome ok fails (continuation operand left power s) ↔ Outcome ok fails (member left s) := by
  rw [continuation, outcome_bind, outcome_kind, h]

theorem outcome_continuation_index (h : s.kind = .openBracket) :
    Outcome ok fails (continuation operand left power s) ↔
      Outcome ok fails (index operand left s) := by
  rw [continuation, outcome_bind, outcome_kind, h]

/-! ### Precedence climbing -/

/-- A climb ends at a token that does not bind more strongly. -/
theorem outcome_climb_stop {budget : Nat}
    (h : ∀ own, s.kind.power? = some own → ¬ power < own) (hok : ok left s) :
    Outcome ok fails (climb budget power left s) := by
  unfold climb
  rw [outcome_bind, outcome_kind]
  revert h
  generalize s.kind.power? = own?
  intro h
  cases own? with
  | none => exact hok
  | some own =>
    show Outcome ok fails ((if power < own then _ else pure left : Parse Expr) s)
    rw [if_neg (h own rfl)]
    exact hok

/-- A climb goes on with a token that binds more strongly, one level deeper. -/
theorem outcome_climb_step {budget : Nat} {own : Power} (hown : s.kind.power? = some own)
    (hpower : power < own)
    (hdeep : ∀ b s₀, budget = b + 1 → s.depth < nestingLimit → s.AtDepth (s.depth + 1) s₀ →
      Outcome (fun longer s₁ =>
        Outcome (fun e s₂ => ∀ s₃, s₂.AtDepth (s₂.depth - 1) s₃ → ok e s₃) fails
          (climb b power longer s₁)) fails (continuation (exprWithin b) left own s₀))
    (hfails : ¬ s.depth < nestingLimit ∨ budget = 0 →
      fails s.tooDeep { s with depth := s.depth + 1 }) :
    Outcome ok fails (climb budget power left s) := by
  unfold climb
  rw [outcome_bind, outcome_kind, hown]
  show Outcome ok fails ((if power < own then _ else pure left : Parse Expr) s)
  rw [if_pos hpower]
  cases budget with
  | zero => exact hfails (.inr rfl)
  | succ b =>
    show Outcome ok fails ((deepen >>= fun _ => _ : Parse Expr) s)
    rw [outcome_bind, outcome_deepen]
    refine ⟨fun hlt => ?_, fun hlt => hfails (.inl hlt)⟩
    rw [outcome_bind]
    refine (hdeep b _ rfl hlt (s.atDepth _)).mono fun longer s₁ h₁ => ?_
    rw [outcome_bind]
    exact h₁.mono fun e s₂ h₂ => h₂ _ (s₂.atDepth _)

/-- An expression is what begins it and what climbing adds, one level deeper. -/
theorem outcome_exprWithin {budget : Nat}
    (hdeep : ∀ b s₀, budget = b + 1 → s.depth < nestingLimit → s.AtDepth (s.depth + 1) s₀ →
      Outcome (fun left s₁ =>
        Outcome (fun e s₂ => ∀ s₃, s₂.AtDepth (s₂.depth - 1) s₃ → ok e s₃) fails
          (climb b power left s₁)) fails (beginning (exprWithin b) s₀))
    (hfails : ¬ s.depth < nestingLimit ∨ budget = 0 →
      fails s.tooDeep { s with depth := s.depth + 1 }) :
    Outcome ok fails (exprWithin budget power s) := by
  cases budget with
  | zero => exact hfails (.inr rfl)
  | succ b =>
    unfold exprWithin
    rw [outcome_bind, outcome_deepen]
    refine ⟨fun hlt => ?_, fun hlt => hfails (.inl hlt)⟩
    rw [outcome_bind]
    refine (hdeep b _ rfl hlt (s.atDepth _)).mono fun left s₁ h₁ => ?_
    rw [outcome_bind]
    exact h₁.mono fun e s₂ h₂ => h₂ _ (s₂.atDepth _)

end

end ClassScript.Parse

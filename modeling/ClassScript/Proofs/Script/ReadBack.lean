import ClassScript.Proofs.Script.Spelling
import ClassScript.Proofs.Tree.Unlocated

/-!
# Emitted expressions read back

The parentheses that are put back into an emitted expression are enough: reading
its text gives the tree again, up to spans, unless the parentheses nest too deep
(`readsBack_of_all`).

Reading by precedence keeps a tree together only in some surroundings. `level e` is
the strongest power around the tokens of `e` at which they are still read as one
expression, and `edge e` is how strongly the token after them may bind without
being taken into `e`. `Readable` says that tokens are read as a tree in given
surroundings, before it is known how the expression goes on; the tests for
parentheses are used only where an operand without them has to be readable.
-/

namespace ClassScript.Script

open Parse

/-! ### Surroundings -/

/-- How strongly a token binds the expression before it, if at all. -/
def tightness (w : Lexeme) : Nat :=
  match w.kind.power? with
  | some own => own.rank
  | none => 0

/-- The strongest power around an expression at which it is read as one. -/
def level (e : Expr) : Nat :=
  if Precedence.ofExpr e < .unary then (Precedence.ofExpr e).rank else Power.unary.rank

/-- How strongly the token after an expression may bind without getting into it. -/
def edge : Expr → Nat
  | .assign .. => Power.default.rank
  | .binary .coalesce .. => Power.assignment.rank
  | .binary op .. => (Precedence.ofOp op).rank + 1
  | .unary .. => Power.unary.rank
  | _ => Power.primary.rank

theorem rank_le_primary (power : Power) : power.rank ≤ Power.primary.rank := by
  cases power <;> decide

theorem tightness_le_primary (w : Lexeme) : tightness w ≤ Power.primary.rank := by
  unfold tightness
  split
  · exact rank_le_primary _
  · exact Nat.zero_le _

/-- The token of a binary operator binds one level above the operator's precedence,
since the powers have a level for no surroundings at all. -/
theorem BinaryOp.power?_kind (op : BinaryOp) :
    ∃ own, op.kind.power? = some own ∧ own.rank = (Precedence.ofOp op).rank + 1 := by
  cases op <;> exact ⟨_, rfl, rfl⟩

/-- An operator is known from its token. -/
theorem BinaryOp.binaryOp?_kind (op : BinaryOp) : op.kind.binaryOp? = some op := by
  cases op <;> rfl

theorem AssignOp.power?_kind (op : AssignOp) : op.kind.power? = some .assignment := by
  cases op <;> rfl

theorem AssignOp.assignOp_kind (op : AssignOp) : op.kind.assignOp = op := by
  cases op <;> rfl

/-- Every operator between operands binds less strongly than one before its operand. -/
theorem ofOp_lt_unary (op : BinaryOp) : (Precedence.ofOp op).rank < Precedence.unary.rank := by
  cases op <;> decide

/-! ### Tokens that are read as a tree -/

/-- The one error that reading an emitted expression may end with. -/
def TooDeep (err : CompileError) (_ : State) : Prop :=
  err.cause = .nestingTooDeep nestingLimit

/-- A tree that is `goal` up to spans was read, up to the tokens `stop`. No class is
around. -/
structure Returned (goal : Expr) (stop : List Lexeme) (e : Expr) (s : State) : Prop where
  tree : e.unlocated = goal
  lexemes : s.lexemes = stop
  scope : s.scope = .empty

/-- In surroundings of `power` and before the token `w`, the tokens `ts` are read as
`target`: whatever is reached by climbing on from there is reached from `ts`. -/
def Readable (ts : List Lexeme) (target : Expr) (power : Power) (w : Lexeme) : Prop :=
  ∀ (budget : Nat) (s : State) (ws : List Lexeme) (goal : Expr) (stop : List Lexeme),
    s.lexemes = ts ++ w :: ws → s.scope = .empty →
    (∀ m e s', Returned target (w :: ws) e s' →
      Outcome (Returned goal stop) TooDeep (climb m power e s')) →
    Outcome (fun left s' => Outcome (Returned goal stop) TooDeep (climb budget power left s'))
      TooDeep (beginning (exprWithin budget) s)

section

variable {goal target target' : Expr} {stop ts us ws : List Lexeme} {power own : Power}
  {e : Expr} {s s' : State} {v w : Lexeme}

theorem Returned.atDepth {d : Nat} (h : Returned goal stop e s) (hs : s.AtDepth d s') :
    Returned goal stop e s' :=
  ⟨h.tree, hs.lexemes.trans h.lexemes, hs.scope.trans h.scope⟩

/-- A token that binds no more strongly than the surroundings is not taken in. -/
theorem not_lt_of_tightness_le (hs : s.lexemes = w :: ws) (h : tightness w ≤ power.rank) :
    ∀ own, s.kind.power? = some own → ¬ power < own := by
  intro own hown hlt
  rw [State.kind_eq hs] at hown
  rw [tightness, hown] at h
  exact absurd hlt (Nat.not_lt.2 h)

/-- Climbing ends at a token that does not bind more strongly than the surroundings. -/
theorem climb_returned (budget : Nat) (h : tightness w ≤ power.rank)
    (hs : Returned goal (w :: ws) e s) :
    Outcome (Returned goal (w :: ws)) TooDeep (climb budget power e s) :=
  outcome_climb_stop (not_lt_of_tightness_le hs.lexemes h) hs

/-- What is readable is read as a whole operand, up to a token that does not bind
more strongly than the surroundings. -/
theorem Readable.exprWithin (h : Readable ts target power w) (hw : tightness w ≤ power.rank)
    (budget : Nat) (hs : s.lexemes = ts ++ w :: ws) (hscope : s.scope = .empty) :
    Outcome (Returned target (w :: ws)) TooDeep (Parse.exprWithin budget power s) := by
  refine outcome_exprWithin ?_ fun _ => rfl
  intro b s₀ _ _ hs₀
  have hbegin := h b s₀ ws target (w :: ws) (hs₀.lexemes.trans hs) (hs₀.scope.trans hscope)
    fun m e s' hs' => climb_returned m hw hs'
  refine hbegin.mono fun left s₁ h₁ => h₁.mono fun e s₂ h₂ s₃ h₃ => ?_
  exact h₂.atDepth h₃

/-- A readable expression and a form that continues it, with a token that binds more
strongly than the surroundings. -/
theorem Readable.extend (h : Readable ts target power v) (hown : v.kind.power? = some own)
    (hpower : power < own)
    (hcont : ∀ budget left s ws, Returned target (v :: (us ++ w :: ws)) left s →
      Outcome (Returned target' (w :: ws)) TooDeep
        (continuation (Parse.exprWithin budget) left own s)) :
    Readable (ts ++ v :: us) target' power w := by
  intro budget s ws goal stop hs hscope hclimb
  refine h budget s (us ++ w :: ws) goal stop (by simpa using hs) hscope ?_
  intro m left s₁ h₁
  have hkind : s₁.kind.power? = some own := by rw [State.kind_eq h₁.lexemes, hown]
  refine outcome_climb_step hkind hpower ?_ fun _ => rfl
  intro b s₀ _ _ hs₀
  refine (hcont b left s₀ ws (h₁.atDepth hs₀)).mono fun longer s₂ h₂ => ?_
  exact (hclimb b longer s₂ h₂).mono fun e s₃ h₃ s₄ h₄ => h₃.atDepth h₄

end

/-! ### Single tokens and parentheses -/

/-- A token that is an expression is readable everywhere. -/
theorem readable_token {v w : Lexeme} {target : Expr} {power : Power}
    (hkind : v.kind ∈ [.number, .string, .kwTrue, .kwFalse, .kwNull, .identifier, .kwThis])
    (h : ∀ t : Token, t.lexeme = v → ∃ e, primaryOf t = .ok e ∧ e.unlocated = target) :
    Readable [v] target power w := by
  intro budget s ws goal stop hs hscope hclimb
  obtain ⟨e, he, htree⟩ := h s.current (State.current_lexeme hs)
  have hs_kind := State.kind_eq hs
  have heof : v.kind ≠ .eof := by
    intro heof
    rw [heof] at hkind
    revert hkind
    decide
  rw [outcome_beginning_primary (by rw [hs_kind]; exact hkind)]
  refine outcome_primary_of hs heof he fun hreach => ?_
  exact hclimb budget e s.next ⟨htree, hreach.lexemes, hreach.scope.trans hscope⟩

/-- An expression whose tokens are readable wherever its level and its edge allow. -/
def ReadsBack (e : Expr) : Prop :=
  ∀ power w, power.rank ≤ level e → tightness w ≤ edge e →
    Readable (lexemes e) e.unlocated power w

/-- In parentheses a tree can be read in any surroundings. -/
theorem readable_grouped {e : Expr} {wrap : Bool} {power : Power} {w : Lexeme} (h : ReadsBack e)
    (hopen : wrap = false → power.rank ≤ level e ∧ tightness w ≤ edge e) :
    Readable (grouped wrap (lexemes e)) e.unlocated power w := by
  cases wrap with
  | false => exact h power w (hopen rfl).1 (hopen rfl).2
  | true =>
    intro budget s ws goal stop hs hscope hclimb
    -- Inside of parentheses nothing is around, and the closing one does not bind.
    have hinside := h .default (.ofKind .closeParen) (Nat.zero_le _) (Nat.zero_le _)
    have hs' : s.lexemes =
        .ofKind .openParen :: (lexemes e ++ .ofKind .closeParen :: w :: ws) := by
      simpa [grouped] using hs
    rw [outcome_beginning_grouping (State.kind_eq hs')]
    unfold grouping
    rw [outcome_bind]
    refine outcome_expect_of_ne_nil hs' (by simp) rfl (by decide) fun hnext => ?_
    rw [outcome_bind]
    refine (hinside.exprWithin (Nat.zero_le _) budget hnext.lexemes
      (hnext.scope.trans hscope)).mono fun e' s₁ h₁ => ?_
    rw [outcome_bind]
    refine outcome_expect_of h₁.lexemes rfl (by decide) fun hclose => ?_
    exact hclimb budget e' _ ⟨h₁.tree, hclose.lexemes, hclose.scope.trans h₁.scope⟩

/-! ### Where parentheses are left out -/

/-- The level of a tree is its precedence, but for the strongest ones. -/
theorem le_level {n : Nat} {e : Expr} (h : n ≤ (Precedence.ofExpr e).rank)
    (hunary : n ≤ Power.unary.rank) : n ≤ level e := by
  unfold level
  split
  · exact h
  · exact hunary

/-- A token after a tree may bind as strongly as the tree does. -/
theorem ofExpr_le_edge (e : Expr) : (Precedence.ofExpr e).rank ≤ edge e := by
  cases e with
  | binary op =>
    cases op <;> simp [Precedence.ofExpr, Precedence.ofOp, Precedence.rank, edge, Power.rank]
  | _ => simp [Precedence.ofExpr, Precedence.rank, edge, Power.rank]

/-- Forms that group to the left, and those without an operand at the right end. -/
theorem ofExpr_lt_edge {e : Expr} (h : Precedence.coalesce < Precedence.ofExpr e) :
    (Precedence.ofExpr e).rank < edge e := by
  cases e with
  | binary op =>
    cases op with
    | coalesce => exact absurd h (Nat.lt_irrefl _)
    | _ => exact Nat.lt_succ_self _
  | assign => exact absurd h (Nat.not_lt_zero _)
  | _ => simp [Precedence.ofExpr, Precedence.rank, edge, Power.rank]

theorem coalesce_lt_ofOp {op : BinaryOp} (h : op ≠ .coalesce) :
    Precedence.coalesce < Precedence.ofOp op := by
  cases op <;> first | decide | exact absurd rfl h

section

variable {op : BinaryOp} {e : Expr}

/-- An operator groups to the left, so a left operand of its precedence stays bare. -/
theorem le_of_wrapsLeft (hop : op ≠ .coalesce) (h : wrapsLeft op e = false) :
    (Precedence.ofOp op).rank ≤ (Precedence.ofExpr e).rank := by
  rw [wrapsLeft, if_neg hop] at h
  exact Nat.not_lt.1 (of_decide_eq_false h)

/-- A right operand of its precedence does not. -/
theorem lt_of_wrapsRight (hop : op ≠ .coalesce) (h : wrapsRight op e = false) :
    (Precedence.ofOp op).rank < (Precedence.ofExpr e).rank := by
  rw [wrapsRight, if_neg hop] at h
  exact Nat.not_le.1 (of_decide_eq_false h)

theorem lt_of_wrapsLeft_coalesce (h : wrapsLeft .coalesce e = false) :
    Precedence.coalesce < Precedence.ofExpr e := by
  rw [wrapsLeft, if_pos rfl, Bool.or_eq_false_iff] at h
  exact Nat.not_le.1 (of_decide_eq_false h.1)

/-- Null coalescing groups to the right. -/
theorem le_of_wrapsRight_coalesce (h : wrapsRight .coalesce e = false) :
    Precedence.coalesce.rank ≤ (Precedence.ofExpr e).rank := by
  rw [wrapsRight, if_pos rfl, Bool.or_eq_false_iff] at h
  exact Nat.not_lt.1 (of_decide_eq_false h.1)

end

theorem le_of_wrapsObject {e : Expr} (h : wrapsObject e = false) :
    Precedence.member.rank ≤ (Precedence.ofExpr e).rank := by
  rw [wrapsObject, Bool.or_eq_false_iff] at h
  exact Nat.not_lt.1 (of_decide_eq_false h.2)

theorem le_of_wrapsOperand {op : UnaryOp} {e : Expr} (h : wrapsOperand op e = false) :
    Precedence.unary.rank ≤ (Precedence.ofExpr e).rank := by
  rw [wrapsOperand, Bool.or_eq_false_iff] at h
  exact Nat.not_lt.1 (of_decide_eq_false h.1)

/-! ### Operators -/

theorem tightness_ofKind {kind : Kind} {own : Power} (h : kind.power? = some own) :
    tightness (.ofKind kind) = own.rank := by
  show (match kind.power? with | some own => own.rank | none => 0) = own.rank
  rw [h]

section

variable {left right : Expr} {span : Span}

theorem level_binary (op : BinaryOp) :
    level (.binary op left right span) = (Precedence.ofOp op).rank :=
  if_pos (ofOp_lt_unary op)

/-- The left operand is read first, and climbing goes on with the operator. -/
theorem readsBack_binary {op : BinaryOp} (hop : op ≠ .coalesce) (hleft : ReadsBack left)
    (hright : ReadsBack right) : ReadsBack (.binary op left right span) := by
  intro power w hpower hw
  obtain ⟨own, hown, hrank⟩ := BinaryOp.power?_kind op
  have hlow : Precedence.coalesce.rank < (Precedence.ofOp op).rank := coalesce_lt_ofOp hop
  have hunary : own.rank ≤ Power.unary.rank := by
    rw [hrank]
    exact Nat.le_trans (ofOp_lt_unary op) (by decide)
  rw [level_binary] at hpower
  have hedge : tightness w ≤ own.rank := by
    rw [hrank]
    cases op <;> first | exact hw | exact absurd rfl hop
  -- The left operand may be as strong as the operator, which groups to the left.
  have hl : Readable (grouped (wrapsLeft op left) (lexemes left)) left.unlocated power
      (.ofKind op.kind) := by
    refine readable_grouped hleft fun hwrap => ?_
    have hle := le_of_wrapsLeft hop hwrap
    have hlt := ofExpr_lt_edge (e := left) (Nat.lt_of_lt_of_le hlow hle)
    rw [tightness_ofKind hown]
    exact ⟨le_level (by omega) (by omega), by omega⟩
  refine hl.extend hown (show power.rank < own.rank by omega) ?_
  intro budget l s ws hs
  -- The right operand has to be stronger, to be read in the operator's own surroundings.
  have hr : Readable (grouped (wrapsRight op right) (lexemes right)) right.unlocated own w := by
    refine readable_grouped hright fun hwrap => ?_
    have hlt := lt_of_wrapsRight hop hwrap
    have hlt' := ofExpr_lt_edge (e := right) (Nat.lt_trans hlow hlt)
    exact ⟨le_level (by omega) hunary, by omega⟩
  have hkind : s.kind = op.kind := State.kind_eq hs.lexemes
  have hopkind : s.kind.binaryOp? = some op := by rw [hkind, BinaryOp.binaryOp?_kind]
  have hnext := State.reaches_next_of_ne_nil hs.lexemes (by cases op <;> decide) (by simp)
  rw [outcome_continuation_binary hopkind hop]
  unfold binary
  rw [outcome_bind, outcome_kind, hopkind]
  show Outcome _ _ ((advance >>= fun _ => exprWithin budget own >>= fun _ => _ : Parse Expr) s)
  rw [outcome_bind, outcome_advance, outcome_bind]
  refine (hr.exprWithin hedge budget hnext.lexemes (hnext.scope.trans hs.scope)).mono
    fun r s₁ h₁ => ?_
  refine ⟨?_, h₁.lexemes, h₁.scope⟩
  simp [Expr.unlocated, hs.tree, h₁.tree]

/-- The operator that falls back on null groups to the right, so its right operand
may be one of its own. -/
theorem readsBack_coalesce (hleft : ReadsBack left) (hright : ReadsBack right) :
    ReadsBack (.binary .coalesce left right span) := by
  intro power w hpower hw
  rw [level_binary] at hpower
  have hl : Readable (grouped (wrapsLeft .coalesce left) (lexemes left)) left.unlocated power
      (.ofKind .nullCoalesce) := by
    refine readable_grouped hleft fun hwrap => ?_
    have hlow : Precedence.coalesce.rank < (Precedence.ofExpr left).rank :=
      lt_of_wrapsLeft_coalesce hwrap
    refine ⟨le_level ?_ (Nat.le_trans hpower (by decide)), ?_⟩
    · exact Nat.le_of_lt (Nat.lt_of_le_of_lt hpower hlow)
    · calc tightness (.ofKind .nullCoalesce) = Precedence.coalesce.rank + 1 := rfl
        _ ≤ (Precedence.ofExpr left).rank := hlow
        _ ≤ edge left := ofExpr_le_edge left
  refine hl.extend rfl (show power.rank < Power.coalesce.rank from Nat.lt_succ_of_le hpower) ?_
  intro budget l s ws hs
  have hr : Readable (grouped (wrapsRight .coalesce right) (lexemes right)) right.unlocated
      .assignment w := by
    refine readable_grouped hright fun hwrap => ?_
    have hle := le_of_wrapsRight_coalesce hwrap
    exact ⟨le_level hle (by decide), Nat.le_trans hw (Nat.le_trans hle (ofExpr_le_edge right))⟩
  rw [outcome_continuation_coalesce (State.kind_eq hs.lexemes)]
  unfold coalesce
  rw [outcome_bind]
  refine outcome_expect_of_ne_nil hs.lexemes (by simp) rfl (by decide) fun hnext => ?_
  rw [outcome_bind]
  refine (hr.exprWithin hw budget hnext.lexemes (hnext.scope.trans hs.scope)).mono
    fun r s₁ h₁ => ?_
  refine ⟨?_, h₁.lexemes, h₁.scope⟩
  simp [Expr.unlocated, hs.tree, h₁.tree]

/-- What can be assigned to is not taken apart by any token. -/
theorem edge_of_isAssignable {e : Expr} (h : e.isAssignable = true) :
    level e = Power.unary.rank ∧ edge e = Power.primary.rank := by
  cases e <;> first | exact ⟨rfl, rfl⟩ | cases h

/-- Reads an operator that assigns to a target. -/
theorem outcome_assigning_of {ok : Token → State → Prop} {fails : CompileError → State → Prop}
    {target e : Expr} {s : State} (htree : e.unlocated = target.unlocated)
    (htarget : target.isAssignable = true) (hok : ok s.current s.next) :
    Outcome ok fails (assigning e s) := by
  have hassignable : e.isAssignable = true := by
    rw [← Expr.isAssignable_unlocated, htree, Expr.isAssignable_unlocated, htarget]
  unfold assigning
  rw [outcome_bind, outcome_advance, if_pos hassignable]
  exact hok

/-- An assignment groups to the right, and its left side needs no parentheses. -/
theorem readsBack_assign {op : AssignOp} (htarget : left.isAssignable = true)
    (hleft : ReadsBack left) (hright : ReadsBack right) :
    ReadsBack (.assign op left right span) := by
  intro power w hpower hw
  obtain ⟨hlevel, hedge⟩ := edge_of_isAssignable htarget
  have hpower : power.rank ≤ Power.default.rank := hpower
  have hown := AssignOp.power?_kind op
  have hlow : power.rank ≤ level left := by
    rw [hlevel]
    exact Nat.le_trans hpower (by decide)
  have hl := hleft power (.ofKind op.kind) hlow (by rw [hedge]; exact tightness_le_primary _)
  refine hl.extend hown (Nat.lt_of_le_of_lt hpower (by decide)) ?_
  intro budget l s ws hs
  have hr := hright .default w (Nat.zero_le _) (Nat.le_trans hw (Nat.zero_le _))
  have hkind : s.kind = op.kind := State.kind_eq hs.lexemes
  have hnext := State.reaches_next_of_ne_nil hs.lexemes (by cases op <;> decide) (by simp)
  rw [outcome_continuation_assignment (by rw [hkind, hown])]
  unfold assignment
  rw [outcome_bind]
  refine outcome_assigning_of hs.tree htarget ?_
  rw [outcome_bind]
  refine (hr.exprWithin hw budget hnext.lexemes (hnext.scope.trans hs.scope)).mono
    fun r s₁ h₁ => ?_
  refine ⟨?_, h₁.lexemes, h₁.scope⟩
  have hmark : s.current.kind.assignOp = op := by
    rw [← AssignOp.assignOp_kind op, ← hkind]
    rfl
  simp [Expr.unlocated, hs.tree, h₁.tree, hmark]

/-- What stands after the operator is read with the power of the operator. -/
theorem readsBack_unary {op : UnaryOp} (hoperand : ReadsBack right) :
    ReadsBack (.unary op right span) := by
  intro power w hpower hw budget s ws goal stop hs hscope hclimb
  have hr : Readable (grouped (wrapsOperand op right) (lexemes right)) right.unlocated
      .unary w := by
    refine readable_grouped hoperand fun hwrap => ?_
    have hle := le_of_wrapsOperand hwrap
    have hlevel : level right = Power.unary.rank := if_neg (Nat.not_lt.2 hle)
    refine ⟨Nat.le_of_eq hlevel.symm, ?_⟩
    calc tightness w ≤ Precedence.unary.rank + 1 := hw
      _ ≤ (Precedence.ofExpr right).rank + 1 := Nat.succ_le_succ hle
      _ ≤ edge right := ofExpr_lt_edge (Nat.lt_of_lt_of_le (by decide) hle)
  have hs' : s.lexemes = .ofKind op.kind ::
      (grouped (wrapsOperand op right) (lexemes right) ++ w :: ws) := hs
  have hkind : s.kind = op.kind := State.kind_eq hs'
  have hnext := State.reaches_next_of_ne_nil hs' (by cases op <;> decide) (by simp)
  rw [outcome_beginning_prefixed (by cases op <;> simp [hkind, UnaryOp.kind])]
  unfold prefixed
  rw [outcome_bind, outcome_advance, outcome_bind]
  refine (hr.exprWithin hw budget hnext.lexemes (hnext.scope.trans hscope)).mono fun r s₁ h₁ => ?_
  refine hclimb budget _ s₁ ⟨?_, h₁.lexemes, h₁.scope⟩
  have hmark : s.current.kind = op.kind := hkind
  cases op <;> simp [Expr.unlocated, h₁.tree, hmark, UnaryOp.kind]

theorem readsBack_update {op : UpdateOp} (htarget : left.isAssignable = true)
    (hoperand : ReadsBack left) : ReadsBack (.update op left span) := by
  intro power w hpower hw
  have hpower : power.rank ≤ Power.unary.rank := hpower
  obtain ⟨hlevel, hedge⟩ := edge_of_isAssignable htarget
  have hown : op.kind.power? = some .call := by cases op <;> rfl
  have hl : Readable (grouped (Precedence.ofExpr left < .postfixed) (lexemes left)) left.unlocated
      power (.ofKind op.kind) := by
    refine readable_grouped hoperand fun _ => ⟨by rw [hlevel]; exact hpower, ?_⟩
    rw [hedge]
    exact tightness_le_primary _
  refine hl.extend hown (Nat.lt_of_le_of_lt hpower (by decide)) ?_
  intro budget l s ws hs
  have hkind : s.kind = op.kind := State.kind_eq hs.lexemes
  have hnext := State.reaches_next_of_ne_nil hs.lexemes (by cases op <;> decide) (by simp)
  rw [outcome_continuation_update (by cases op <;> simp [hkind, UpdateOp.kind])]
  unfold update
  rw [outcome_bind]
  refine outcome_assigning_of hs.tree htarget ?_
  refine ⟨?_, hnext.lexemes, hnext.scope.trans hs.scope⟩
  have hmark : s.current.kind = op.kind := hkind
  cases op <;> simp [Expr.unlocated, hs.tree, hmark, UpdateOp.kind]

end

/-! ### Members, keys and arguments -/

section

variable {object : Expr} {arguments : List Expr} {span : Span}

/-- What has a member, a key or arguments behind it. -/
theorem readable_object {power : Power} {v : Lexeme} (h : ReadsBack object)
    (hpower : power.rank ≤ Power.unary.rank) (hv : tightness v ≤ Power.member.rank) :
    Readable (grouped (wrapsObject object) (lexemes object)) object.unlocated power v := by
  refine readable_grouped h fun hwrap => ?_
  have hle := le_of_wrapsObject hwrap
  refine ⟨le_level (Nat.le_trans hpower (Nat.le_trans (by decide) hle)) hpower, ?_⟩
  calc tightness v ≤ Precedence.member.rank + 1 := hv
    _ ≤ (Precedence.ofExpr object).rank + 1 := Nat.succ_le_succ hle
    _ ≤ edge object := ofExpr_lt_edge (Nat.lt_of_lt_of_le (by decide) hle)

/-- Outside of a class only a new element is known to be one. -/
theorem isDomValue_empty {e : Expr} (h : IsPlain e) : Parse.Scope.empty.isDomValue e = false := by
  cases e with
  | member object name => cases object <;> rfl
  | domCreate => exact h.elim
  | _ => rfl

/-- Outside of classes a member is never one of an element. -/
theorem readsBack_member {name : String} {nameSpan : Span} (hobject : ReadsBack object)
    (hplain : IsPlain object) : ReadsBack (.member object name nameSpan span) := by
  intro power w hpower hw
  have hpower : power.rank ≤ Power.unary.rank := hpower
  refine (readable_object (v := .ofKind .dot) hobject hpower (by decide)).extend
    (show Kind.dot.power? = some .member from rfl) (Nat.lt_of_le_of_lt hpower (by decide)) ?_
  intro budget l s ws hs
  have hlexemes : s.lexemes = .ofKind .dot :: ⟨.identifier, name⟩ :: w :: ws := hs.lexemes
  rw [outcome_continuation_member (State.kind_eq hlexemes)]
  unfold member
  rw [outcome_bind]
  refine outcome_expect_of hlexemes rfl (by decide) fun hdot => ?_
  rw [outcome_bind]
  refine outcome_expectDescribed_of hdot.lexemes rfl (by decide) fun hname => ?_
  have hscope := hname.scope.trans (hdot.scope.trans hs.scope)
  rw [outcome_bind, outcome_get]
  refine ⟨?_, hname.lexemes, hscope⟩
  have hdom : s.next.next.scope.isDomValue l = false := by
    rw [hscope, ← isDomValue_unlocated, hs.tree, isDomValue_unlocated, isDomValue_empty hplain]
  rw [hdom]
  simp [Expr.unlocated, hs.tree, State.text_eq hdot.lexemes]

theorem readsBack_index {key : Expr} (hobject : ReadsBack object) (hkey : ReadsBack key) :
    ReadsBack (.index object key span) := by
  intro power w hpower hw
  have hpower : power.rank ≤ Power.unary.rank := hpower
  refine (readable_object (v := .ofKind .openBracket) hobject hpower (by decide)).extend
    (show Kind.openBracket.power? = some .member from rfl)
    (Nat.lt_of_le_of_lt hpower (by decide)) ?_
  intro budget l s ws hs
  have hlexemes : s.lexemes =
      .ofKind .openBracket :: (lexemes key ++ .ofKind .closeBracket :: w :: ws) := by
    simpa using hs.lexemes
  have hinside := hkey .default (.ofKind .closeBracket) (Nat.zero_le _) (Nat.zero_le _)
  rw [outcome_continuation_index (State.kind_eq hlexemes)]
  unfold index
  rw [outcome_bind]
  refine outcome_expect_of_ne_nil hlexemes (by simp) rfl (by decide) fun hnext => ?_
  rw [outcome_bind]
  refine (hinside.exprWithin (Nat.zero_le _) budget hnext.lexemes
    (hnext.scope.trans hs.scope)).mono fun k s₁ h₁ => ?_
  rw [outcome_bind]
  refine outcome_expect_of h₁.lexemes rfl (by decide) fun hclose => ?_
  rw [outcome_bind, outcome_spanFrom]
  refine ⟨?_, hclose.lexemes, hclose.scope.trans h₁.scope⟩
  simp [Expr.unlocated, hs.tree, h₁.tree]

/-- A closing parenthesis does not begin an expression. -/
theorem Readable.kind_ne {e : Expr} {s : State} {v : Lexeme} {vs : List Lexeme} {power : Power}
    (h : Readable (lexemes e) e.unlocated power v) (hv : tightness v ≤ power.rank)
    (hs : s.lexemes = lexemes e ++ v :: vs) (hscope : s.scope = .empty) :
    s.kind ≠ .closeParen := by
  -- It would be an error that has nothing to do with nesting.
  intro hkind
  have hread := h 0 s vs _ _ hs hscope fun m e' s' hs' => climb_returned m hv hs'
  rw [beginning, outcome_bind, outcome_kind, hkind] at hread
  cases (show (s.unexpected "expression").cause = .nestingTooDeep nestingLimit from hread)

/-- By induction on the arguments, which are read in the weakest surroundings. -/
theorem reads_argumentLexemes {budget : Nat} {s : State} {w : Lexeme} {ws : List Lexeme}
    (h : ∀ e ∈ arguments, ReadsBack e)
    (hs : s.lexemes = argumentLexemes (lexemesAll arguments) ++ w :: ws)
    (hscope : s.scope = .empty) :
    Outcome (fun es s' => es.map Expr.unlocated = arguments.map Expr.unlocated ∧
      s'.lexemes = w :: ws ∧ s'.scope = .empty) TooDeep
      (Parse.arguments (exprWithin budget) s) := by
  rw [lexemesAll_eq_map] at hs
  have hnext : ∀ s : State, s.scope = .empty → s.next.scope = .empty :=
    fun s hs => s.next_scope.trans hs
  refine reads_arguments hnext ?_ (by simpa [argumentLexemes] using hs) hscope
  intro e he s v vs hscope hs hv
  have hv : tightness v = 0 := by
    rcases hv with rfl | rfl <;> rfl
  have hread := h e he .default v (Nat.zero_le _) (by rw [hv]; exact Nat.zero_le _)
  have hstop : tightness v ≤ Power.default.rank := Nat.le_of_eq hv
  refine ⟨hread.kind_ne hstop hs hscope, ?_⟩
  refine (hread.exprWithin hstop budget hs hscope).mono fun e' s' h' => ?_
  exact ⟨h'.tree, h'.lexemes, h'.scope⟩

theorem callOf_of_isPlainCallee {callee : Expr} (h : isPlainCallee callee = true)
    (paren first : Token) :
    callOf callee arguments span paren first = .ok (.call callee arguments span) := by
  unfold isPlainCallee at h
  split at h
  · cases h
  · rename_i hdom
    simp only [Bool.and_eq_true, decide_eq_true_eq] at h
    unfold callOf
    split
    · exact absurd ‹_› h.1
    · exact absurd ‹_› h.2
    · split
      · exact absurd rfl (hdom _ _ _)
      · rfl

/-- A plain callee makes a call and nothing else. -/
theorem readsBack_call (hcallee : isPlainCallee object = true) (hobject : ReadsBack object)
    (harguments : ∀ e ∈ arguments, ReadsBack e) : ReadsBack (.call object arguments span) := by
  intro power w hpower hw
  have hpower : power.rank ≤ Power.unary.rank := hpower
  refine (readable_object (v := .ofKind .openParen) hobject hpower (by decide)).extend
    (show Kind.openParen.power? = some .call from rfl) (Nat.lt_of_le_of_lt hpower (by decide)) ?_
  intro budget l s ws hs
  rw [outcome_continuation_call (State.kind_eq hs.lexemes)]
  unfold call
  rw [outcome_bind, outcome_get, outcome_bind]
  refine (reads_argumentLexemes harguments hs.lexemes hs.scope).mono fun es s₁ h₁ => ?_
  obtain ⟨hes, hs₁, hscope⟩ := h₁
  -- What was read as the callee is no special form either, since spans do not matter.
  have hplain : isPlainCallee l = true := by
    rw [← isPlainCallee_unlocated, hs.tree, isPlainCallee_unlocated, hcallee]
  rw [outcome_bind, outcome_spanFrom, callOf_of_isPlainCallee hplain]
  refine ⟨?_, hs₁, hscope⟩
  simp [Expr.unlocated, Expr.unlocatedAll_eq_map, hs.tree, hes]

/-- The name of a type is read back as it is. -/
theorem readsBack_create {type : TypeRef} (hname : IsDottedName type.name)
    (helement : isPlainElement type = false)
    (hplain : type.arguments = [] ∧ type.nullable = false ∧ type.isArray = false)
    (harguments : ∀ e ∈ arguments, ReadsBack e) : ReadsBack (.create type arguments span) := by
  intro power w hpower hw budget s ws goal stop hs hscope hclimb
  obtain ⟨first, others, hjoin, hnames⟩ := hname
  have hs' : s.lexemes = .ofKind .kwNew :: (nameLexemes first others ++ .ofKind .openParen ::
      (commaLexemes (lexemesAll arguments) ++ .ofKind .closeParen :: w :: ws)) := by
    rw [hs, lexemes, hjoin, dottedLexemes_joinNames hnames]
    simp [argumentLexemes]
  rw [outcome_beginning_creation (State.kind_eq hs')]
  unfold creation
  rw [outcome_bind]
  refine outcome_expect_of_ne_nil hs' (by simp) rfl (by decide) fun hnext => ?_
  rw [outcome_bind]
  refine (reads_typeRef (by decide) hnext.lexemes fun _ => rfl).mono fun t s₁ h₁ => ?_
  obtain ⟨⟨ht_name, ht_nullable, ht_arguments, ht_array⟩, hs₁⟩ := h₁
  rw [outcome_bind]
  have hs₁_lexemes : s₁.lexemes = argumentLexemes (lexemesAll arguments) ++ w :: ws := by
    rw [hs₁.lexemes]
    simp [argumentLexemes]
  refine (reads_argumentLexemes harguments hs₁_lexemes
    (hs₁.scope.trans (hnext.scope.trans hscope))).mono fun es s₂ h₂ => ?_
  obtain ⟨hes, hs₂, hscope₂⟩ := h₂
  rw [outcome_bind, outcome_spanFrom]
  -- The type that was read has the name and the shape of the one that was written.
  have htype : t.unlocated = type.unlocated := by
    obtain ⟨name, nullable, targuments, isArray, tspan⟩ := type
    obtain ⟨name', nullable', targuments', isArray', tspan'⟩ := t
    simp_all [TypeRef.unlocated]
  have ht_element : isPlainElement t = false := by
    rw [← helement]
    unfold isPlainElement
    rw [ht_name, ht_nullable, ht_arguments, ht_array, hplain.1, hplain.2.1, hplain.2.2, hjoin]
  rw [ht_element]
  refine hclimb budget _ s₂ ⟨?_, hs₂, hscope₂⟩
  simp [Expr.unlocated, Expr.unlocatedAll_eq_map, htype, hes]

end

/-! ### All expressions -/

/-- A literal is read back from its token. -/
theorem primaryOf_literalLexeme {value : Literal} {t : Token} (h : IsPlainLiteral value)
    (ht : t.lexeme = literalLexeme value) : primaryOf t = .ok (.literal value t.span) := by
  have hkind : t.kind = (literalLexeme value).kind := congrArg Lexeme.kind ht
  have htext : t.text = (literalLexeme value).text := congrArg Lexeme.text ht
  unfold primaryOf
  cases value with
  | string value =>
    have hvalue : Escape.literalValue? t.text = some value := htext ▸ literalValue?_quoted h
    simp only [hkind, literalLexeme, hvalue]
  | number value =>
    have hvalue : Binary64.ofText? t.text = some value := htext ▸ ofText?_numberText h
    simp only [hkind, literalLexeme, hvalue]
  | boolean value =>
    cases value
    · rw [hkind, show (literalLexeme (.boolean false)).kind = .kwFalse by decide]
    · rw [hkind, show (literalLexeme (.boolean true)).kind = .kwTrue by decide]
  | null => rw [hkind, show (literalLexeme .null).kind = .kwNull by decide]

theorem readsBack_literal {value : Literal} {span : Span} (h : IsPlainLiteral value) :
    ReadsBack (.literal value span) := by
  intro power w _ _
  refine readable_token ?_ fun t ht => ⟨_, primaryOf_literalLexeme h ht, rfl⟩
  cases value with
  | boolean value => cases value <;> decide
  | null => decide
  | _ => simp [literalLexeme]

/-- By induction on the expression. Each form has its own lemma above. -/
theorem readsBack_of_all {e : Expr} (h : e.All IsSpellable) : ReadsBack e := by
  revert h
  induction e using Expr.induction_children with
  | step e ih =>
    intro h
    obtain ⟨hread, hplain⟩ := h.self
    have ih : ∀ c ∈ e.children, ReadsBack c := fun c hc => ih c hc (h.child hc)
    cases e with
    | identifier name span =>
      intro power w _ _
      refine readable_token (by simp) fun t ht => ⟨.identifier t.text t.span, ?_, ?_⟩
      · rw [primaryOf, show t.kind = .identifier from congrArg Lexeme.kind ht]
      · rw [show t.text = name from congrArg Lexeme.text ht]
        rfl
    | literal value span => exact readsBack_literal (isPlainLiteral_of_isSpellable h.self)
    | binary op left right span =>
      have hleft := ih left (by simp [Expr.children])
      have hright := ih right (by simp [Expr.children])
      by_cases hop : op = .coalesce
      · subst hop
        exact readsBack_coalesce hleft hright
      · exact readsBack_binary hop hleft hright
    | unary op operand span => exact readsBack_unary (ih operand (by simp [Expr.children]))
    | update op operand span => exact readsBack_update hread (ih operand (by simp [Expr.children]))
    | assign op target value span =>
      exact readsBack_assign hread (ih target (by simp [Expr.children]))
        (ih value (by simp [Expr.children]))
    | call callee arguments span =>
      exact readsBack_call hread (ih callee (by simp [Expr.children]))
        fun e he => ih e (by simp [Expr.children, he])
    | member object name nameSpan span =>
      have hobject : object ∈ (Expr.member object name nameSpan span).children := by
        simp [Expr.children]
      exact readsBack_member (ih object hobject) (h.child hobject).self.2
    | index object key span =>
      exact readsBack_index (ih object (by simp [Expr.children])) (ih key (by simp [Expr.children]))
    | this span =>
      intro power w _ _
      refine readable_token (by decide) fun t ht => ⟨.this t.span, ?_, rfl⟩
      rw [primaryOf, show t.kind = .kwThis from congrArg Lexeme.kind ht]
    | create type arguments span => exact readsBack_create hread.1 hread.2 hplain ih
    | base span => exact hplain.elim
    | hostCall path arguments span => exact hplain.elim
    | hostSet object property value span => exact hplain.elim
    | domCreate element arguments span => exact hplain.elim
    | domProperty object property span => exact hplain.elim
    | domCall object method arguments span => exact hplain.elim

/-- An expression that was read from a text, and that is emitted as the source writes
it, is read back from the emitted text: the text has tokens, and reading them ends at
the end of the input with the same tree up to spans, unless they nest too deep. -/
theorem exprText_reads_back {source : String} {tokens : List Token} {e : Expr} {s : State}
    (htokens : tokenize source = .ok tokens) (he : expr .default (.ofTokens tokens) = .ok e s)
    (hplain : e.All IsPlain) :
    ∃ tokens', tokenize (exprText none e) = .ok tokens' ∧
      ((∃ err s', expr .default (.ofTokens tokens') = .error err s' ∧
          err.cause = .nestingTooDeep nestingLimit) ∨
        (∃ e' s', expr .default (.ofTokens tokens') = .ok e' s' ∧ e'.unlocated = e.unlocated ∧
          s'.current.kind = .eof ∧ s'.following = [])) := by
  have hread : e.All Expr.WellRead :=
    ((wellRead_exprWithin _ .default (over_ofTokens htokens)).of_eq_ok he).1
  have hall : e.All IsSpellable := hread.and hplain
  obtain ⟨tokens', htokens', hlexemes⟩ := (spelled_exprText hall).scans.tokenize ends_nil
  have hstate := State.lexemes_ofTokens hlexemes
  -- Nothing is around the whole expression, and the end of the input does not bind.
  have hreadable := readsBack_of_all hall .default .eof (Nat.zero_le _) (Nat.zero_le _)
  have houtcome : Outcome (Returned e.unlocated [.eof]) TooDeep
      (expr .default (.ofTokens tokens')) :=
    hreadable.exprWithin (Nat.zero_le _) _ hstate rfl
  refine ⟨tokens', htokens', ?_⟩
  cases hresult : expr .default (.ofTokens tokens') with
  | error err s' =>
    rw [hresult] at houtcome
    exact .inl ⟨err, s', rfl, houtcome⟩
  | ok e' s' =>
    rw [hresult] at houtcome
    obtain ⟨htree, hs', -⟩ := houtcome
    refine .inr ⟨e', s', rfl, htree, State.kind_eq hs', ?_⟩
    exact List.map_eq_nil_iff.1 (List.cons.inj hs').2

/-- Parentheses that were put back, on either side of operators of both groupings, and
some that were left out. -/
theorem exprText_reads_back_grouping :
    ∃ tokens e s,
      tokenize "x[(a ?? b) ?? -(-1.50)] = (c - (d - e)) * (f.g)++" = .ok tokens ∧
      expr .default (.ofTokens tokens) = .ok e s ∧ e.All IsPlain ∧
      exprText none e = "x[(a ?? b) ?? -(-1.5)] = (c - (d - e)) * f.g++" ∧
      ∃ tokens', tokenize (exprText none e) = .ok tokens' ∧
        ((∃ err s', expr .default (.ofTokens tokens') = .error err s' ∧
            err.cause = .nestingTooDeep nestingLimit) ∨
          (∃ e' s', expr .default (.ofTokens tokens') = .ok e' s' ∧ e'.unlocated = e.unlocated ∧
            s'.current.kind = .eof ∧ s'.following = [])) := by
  have hrun : (match tokenize "x[(a ?? b) ?? -(-1.50)] = (c - (d - e)) * (f.g)++" with
      | .ok tokens =>
        match expr .default (.ofTokens tokens) with
        | .ok e _ => decide (e.All IsPlain ∧
            exprText none e = "x[(a ?? b) ?? -(-1.5)] = (c - (d - e)) * f.g++")
        | .error .. => false
      | .error _ => false) = true := by decide +kernel
  split at hrun
  · rename_i tokens htokens
    split at hrun
    · rename_i e s he
      obtain ⟨hplain, htext⟩ := of_decide_eq_true hrun
      exact ⟨tokens, e, s, htokens, he, hplain, htext, exprText_reads_back htokens he hplain⟩
    · cases hrun
  · cases hrun

end ClassScript.Script

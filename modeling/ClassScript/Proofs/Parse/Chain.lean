import ClassScript.Proofs.Number.ReadBack
import ClassScript.Proofs.Parse.Concatenation
import ClassScript.Proofs.Parse.Reading
import ClassScript.Proofs.Token.MaximalMunch

/-!
# Chains of binary operators

How `a ?? b || c + d * e ...` is grouped. The tree of a chain is said without a parser: its
root is the weakest operator, the rightmost one of several, or the leftmost one if the
operator is the one that falls back on null (`cut_eq`), and the two sides are grouped in the
same way (`Chain.tree`). Climbing by binding powers makes that tree (`expr_chain`).

A climb goes from left to right and the tree is cut in the middle, so the proof does not
follow the climb. It goes along the cuts: `ReadAs` says what the tokens of a part come to,
whatever climbs on from there, and a part and the one after it are put together at their
operator.
-/

namespace ClassScript

/-- How strongly an operator binds, weakest first. -/
def BinaryOp.level : BinaryOp → Nat
  | .coalesce => 0
  | .or => 1
  | .and => 2
  | .equal | .notEqual => 3
  | .less | .lessEqual | .greater | .greaterEqual => 4
  | .add | .subtract => 5
  | .multiply | .divide | .modulo => 6

/-! ### Tokens that are operands by themselves -/

open Lexical in
/-- The kind of a number is given by the rule for numbers only. -/
theorem Lexical.meaning_of_kind?_number {m : Match} (hkind : m.kind? = some .number) :
    m.meaning = .token .number := by
  unfold Match.kind? at hkind
  split at hkind
  · rename_i hm
    rw [hm, Option.some.inj hkind]
  · exact absurd (Option.some.inj hkind) (ofWord_ne (by decide) (by decide))
  · cases hkind

theorem isNumeral_of_split? {cs taken rest : List Char}
    (h : Pattern.number.split? cs = some (taken, rest)) : IsNumeral taken := by
  cases cs with
  | nil => cases h
  | cons c cs =>
    simp only [Pattern.split?] at h
    by_cases hc : c.isDigit = true
    · rw [if_pos hc] at h
      have hdigits : ∀ d ∈ c :: cs.takeWhile Char.isDigit, d.isDigit = true :=
        List.forall_mem_cons.2 ⟨hc, fun d hd => List.all_eq_true.1 List.all_takeWhile d hd⟩
      have htaken : taken =
          c :: cs.takeWhile Char.isDigit ++ (Pattern.fraction (cs.dropWhile Char.isDigit)).1 :=
        (congrArg Prod.fst (Option.some.inj h)).symm
      refine ⟨c, _, _, htaken, hdigits, ?_⟩
      unfold Pattern.fraction
      split
      · rename_i d ds _
        by_cases hd : d.isDigit = true
        · rw [if_pos hd]
          refine .inr ⟨d, _, rfl, List.forall_mem_cons.2 ⟨hd, ?_⟩⟩
          exact fun e he => List.all_eq_true.1 List.all_takeWhile e he
        · rw [if_neg hd]
          exact .inl rfl
      · exact .inl rfl
    · rw [if_neg hc] at h
      cases h

theorem Lexes.isNumeral {p : Position} {cs : List Char} {ts : List Token} (h : Lexes p cs ts) :
    ∀ t ∈ ts, t.kind = .number → IsNumeral t.text.toList := by
  induction h with
  | done p => simp [Token.endOfInput]
  | unknown _ _ ih => simpa using ih
  | gap _ _ _ ih => exact ih
  | token hm hkind _ ih =>
    refine List.forall_mem_cons.2 ⟨?_, ih⟩
    rintro rfl
    have hmeaning := Lexical.meaning_of_kind?_number hkind
    simpa using isNumeral_of_split? (Lexical.split?_of_number hm hmeaning)

/-- A numeral is the text of a number. -/
theorem IsNumeral.ofText?_ne_none {text : String} (h : IsNumeral text.toList) :
    Binary64.ofText? text ≠ none := by
  obtain ⟨d, ds, fs, htext, hdigits, hfs⟩ := h
  have hd := hdigits d List.mem_cons_self
  rw [Binary64.ofText?_of_isDigit (htext.trans rfl) hd, htext]
  rcases hfs with rfl | ⟨f, gs, rfl, hgs⟩
  · rw [show d :: ds ++ [] = d :: ds ++ (if ([] : List Char) = [] then [] else '.' :: []) from rfl,
      Binary64.readFinite?_digits false (by simp) hdigits (by simp)]
    simp
  · rw [show d :: ds ++ '.' :: f :: gs =
        d :: ds ++ (if f :: gs = [] then [] else '.' :: f :: gs) from rfl,
      Binary64.readFinite?_digits false (by simp) hdigits hgs]
    simp

namespace Chain

/-- The kinds of the tokens that are operands by themselves. -/
def leafKinds : List Kind := [.identifier, .number, .string, .kwTrue, .kwFalse, .kwNull]

/-- A token that is an operand by itself, as a scan finds it in some text. -/
structure Leaf where
  token : Token
  scanned : ∃ source tokens, tokenize source = .ok tokens ∧ token ∈ tokens
  kind_mem : token.kind ∈ leafKinds

theorem Leaf.primaryOf_isOk (l : Leaf) : (Parse.primaryOf l.token).toOption.isSome = true := by
  obtain ⟨token, ⟨source, tokens, htokens, hmem⟩, hkind⟩ := l
  have hnumeral := (Lexes.of_tokensFrom htokens).isNumeral token hmem
  have hliteral := literalValue?_of_tokenize htokens hmem
  simp only [leafKinds, List.mem_cons, List.not_mem_nil, or_false] at hkind
  unfold Parse.primaryOf
  rcases hkind with hkind | hkind | hkind | hkind | hkind | hkind <;> simp only [hkind]
  · rfl
  · cases hnumber : Binary64.ofText? token.text with
    | none => exact absurd hnumber (hnumeral hkind).ofText?_ne_none
    | some x => rfl
  · obtain ⟨value, hvalue⟩ := hliteral (.inl hkind)
    rw [hvalue]
    rfl
  all_goals rfl

/-- The expression that an operand is. -/
def Leaf.expr (l : Leaf) : Expr :=
  (Parse.primaryOf l.token).toOption.get l.primaryOf_isOk

theorem Leaf.primaryOf_eq (l : Leaf) : Parse.primaryOf l.token = .ok l.expr := by
  have hexpr : (Parse.primaryOf l.token).toOption = some l.expr := (Option.some_get _).symm
  cases h : Parse.primaryOf l.token with
  | error e =>
    rw [h] at hexpr
    cases hexpr
  | ok e =>
    rw [h] at hexpr
    exact congrArg Except.ok (Option.some.inj hexpr)

theorem Leaf.single (l : Leaf) : Parse.Single l.token l.expr :=
  Parse.single_of_primaryOf l.primaryOf_eq

/-- What says the same is the same expression, up to its place. -/
theorem Leaf.primaryOf_of_lexeme (l : Leaf) {t : Token} (h : t.lexeme = l.token.lexeme) :
    ∃ e, Parse.primaryOf t = .ok e ∧ e.unlocated = l.expr.unlocated := by
  have hagree : Parse.Agree (fun _ _ => True) Expr.unlocated (Parse.primaryOf t)
      (Parse.primaryOf l.token) := Parse.agree_primaryOf trivial h
  rw [l.primaryOf_eq] at hagree
  generalize Parse.primaryOf t = r at hagree
  cases hagree with
  | ok htree => exact ⟨_, rfl, htree⟩

/-- A name that a scan finds is an operand. -/
theorem exists_leaf_of_identifier {source : String} {ts : List Token}
    (hts : tokenize source = .ok ts) {t : Token} (hmem : t ∈ ts) {name : String}
    (ht : t.lexeme = ⟨.identifier, name⟩) :
    ∃ l : Leaf, l.token = t ∧ l.expr.unlocated = .identifier name .none := by
  have hkind : t.kind = .identifier := congrArg Lexeme.kind ht
  have htext : t.text = name := congrArg Lexeme.text ht
  let l : Leaf := ⟨t, ⟨source, ts, hts, hmem⟩, by rw [hkind]; decide⟩
  refine ⟨l, rfl, ?_⟩
  have hprimary := l.primaryOf_eq
  simp only [Parse.primaryOf, l, hkind] at hprimary
  rw [← Except.ok.inj hprimary, htext, Expr.unlocated]

/-! ### The tree of a chain -/

/-- A binary operator and the operand after it. -/
structure Link where
  mark : Token
  op : BinaryOp
  binaryOp?_mark : mark.kind.binaryOp? = some op
  leaf : Leaf

/-- Does an operator rather than one that stands after it become the root? The weaker one
does. Of two that are equally weak it is the latter, unless both fall back on null. -/
def takesRoot (op later : BinaryOp) : Bool :=
  op.level < later.level || (op = .coalesce && later = .coalesce)

/-- Cuts a chain at its root: what stands before it, the root, what stands after it. -/
def cut : Link → List Link → List Link × Link × List Link
  | link, [] => ([], link, [])
  | link, next :: links =>
    let (before, root, after) := cut next links
    if takesRoot link.op root.op then ([], link, next :: links) else (link :: before, root, after)

/-- The operator binds no more strongly than those around it. Among those that are equally
weak it is the rightmost one, or the leftmost one if it falls back on null. -/
structure IsRoot (before : List Link) (op : BinaryOp) (after : List Link) : Prop where
  before_le : ∀ l ∈ before, op.level ≤ l.op.level
  after_le : ∀ l ∈ after, op.level ≤ l.op.level
  leftmost : op = .coalesce → ∀ l ∈ before, op.level < l.op.level
  rightmost : op ≠ .coalesce → ∀ l ∈ after, op.level < l.op.level

theorem level_eq_zero_iff {op : BinaryOp} : op.level = 0 ↔ op = .coalesce := by
  cases op <;> decide

theorem cut_eq (link : Link) (links : List Link) {before after : List Link} {root : Link}
    (h : cut link links = (before, root, after)) :
    link :: links = before ++ root :: after ∧ IsRoot before root.op after := by
  induction links generalizing link before root after with
  | nil =>
    cases h
    exact ⟨rfl, by simp, by simp, by simp, by simp⟩
  | cons next links ih =>
    obtain ⟨before', root', after', hcut⟩ : ∃ b r a, cut next links = (b, r, a) := ⟨_, _, _, rfl⟩
    obtain ⟨hlinks, hroot⟩ := ih next hcut
    simp only [cut, hcut] at h
    by_cases htakes : takesRoot link.op root'.op = true
    · rw [if_pos htakes] at h
      cases h
      simp only [takesRoot, Bool.or_eq_true, Bool.and_eq_true, decide_eq_true_eq] at htakes
      -- All that follows binds as strongly as the root that was found there.
      have hrest : ∀ l ∈ next :: links, root'.op.level ≤ l.op.level := by
        rw [hlinks]
        intro l hl
        rcases List.mem_append.1 hl with hl | hl
        · exact hroot.before_le l hl
        · rcases List.mem_cons.1 hl with rfl | hl
          · exact Nat.le_refl _
          · exact hroot.after_le l hl
      refine ⟨rfl, by simp, fun l hl => ?_, by simp, fun hne l hl => ?_⟩
      · rcases htakes with hlt | ⟨hop, hroot'⟩
        · exact Nat.le_trans (Nat.le_of_lt hlt) (hrest l hl)
        · exact Nat.le_trans (by simp [hop, BinaryOp.level]) (hrest l hl)
      · rcases htakes with hlt | ⟨hop, -⟩
        · exact Nat.lt_of_lt_of_le hlt (hrest l hl)
        · exact absurd hop hne
    · rw [if_neg htakes] at h
      cases h
      simp only [takesRoot, Bool.or_eq_true, Bool.and_eq_true, decide_eq_true_eq, not_or, not_and,
        Nat.not_lt] at htakes
      obtain ⟨hle, hnot⟩ := htakes
      refine ⟨by rw [hlinks]; rfl, ?_, hroot.after_le, fun hop => ?_, hroot.rightmost⟩
      · exact List.forall_mem_cons.2 ⟨hle, hroot.before_le⟩
      · refine List.forall_mem_cons.2 ⟨?_, hroot.leftmost hop⟩
        have hlink : link.op ≠ .coalesce := fun hl => hnot hl hop
        rw [hop]
        exact Nat.pos_of_ne_zero (mt level_eq_zero_iff.1 hlink)

theorem cut_length (link : Link) (links : List Link) :
    (cut link links).1.length + (cut link links).2.2.length = links.length := by
  obtain ⟨before, root, after, hcut⟩ : ∃ b r a, cut link links = (b, r, a) := ⟨_, _, _, rfl⟩
  have h := congrArg List.length (cut_eq link links hcut).1
  simp only [List.length_append, List.length_cons] at h
  simp only [hcut]
  omega

/-- The tree of a chain, cut at its root as long as there is an operator. -/
def tree (first : Leaf) (links : List Link) : Expr :=
  match links with
  | [] => first.expr
  | link :: links =>
    let root := (cut link links).2.1
    .binary root.op (tree first (cut link links).1) (tree root.leaf (cut link links).2.2) .none
termination_by links.length
decreasing_by
  all_goals
    have := cut_length link links
    simp only [List.length_cons]
    omega

/-- The induction along the cuts. -/
theorem induction_cut {motive : Leaf → List Link → Prop} (single : ∀ first, motive first [])
    (node : ∀ first before root after, IsRoot before root.op after →
      tree first (before ++ root :: after) =
        .binary root.op (tree first before) (tree root.leaf after) .none →
      motive first before → motive root.leaf after → motive first (before ++ root :: after))
    (first : Leaf) (links : List Link) : motive first links := by
  induction hn : links.length using Nat.strongRecOn generalizing first links with
  | ind n ih =>
    cases links with
    | nil => exact single first
    | cons link links =>
      obtain ⟨before, root, after, hcut⟩ : ∃ b r a, cut link links = (b, r, a) := ⟨_, _, _, rfl⟩
      obtain ⟨hlinks, hroot⟩ := cut_eq link links hcut
      have htree : tree first (link :: links) =
          .binary root.op (tree first before) (tree root.leaf after) .none := by
        rw [tree]
        simp only [hcut]
      have hlength := congrArg List.length hlinks
      simp only [List.length_append, List.length_cons] at hlength hn
      rw [hlinks] at htree ⊢
      refine node first before root after hroot htree ?_ ?_
      · exact ih before.length (by omega) first before rfl
      · exact ih after.length (by omega) root.leaf after rfl

/-! ### What climbing makes of a chain -/

open Parse

/-- The tokens of a chain. -/
def tokens (first : Leaf) (links : List Link) : List Token :=
  first.token :: links.flatMap fun l => [l.mark, l.leaf.token]

/-- The operators on the way from the root to the leftmost operand. -/
def spine : Expr → Nat
  | .binary _ left _ _ => spine left + 1
  | _ => 0

/-- The levels of nesting that are taken up while a tree of operators is read, after its
first one. Each operator of the spine takes one as long as the climb lasts, and an operand
on the right takes one more. -/
def levels : Expr → Nat
  | .binary _ left right _ => max (levels left) (spine left + 2 + levels right)
  | _ => 0

theorem spine_levels_of_single {t : Token} {e : Expr} (h : Single t e) :
    spine e = 0 ∧ levels e = 0 := by
  cases h <;> exact ⟨rfl, rfl⟩

/-- A chain takes up at most two levels for each of its operators. -/
theorem spine_levels_le (first : Leaf) (links : List Link) :
    spine (tree first links) ≤ links.length ∧ levels (tree first links) ≤ 2 * links.length := by
  induction first, links using induction_cut with
  | single first =>
    rw [tree]
    simp [spine_levels_of_single first.single]
  | node first before root after _ htree ihb iha =>
    obtain ⟨hspine, hlevels⟩ := ihb
    have hafter := iha.2
    rw [htree, spine, levels, List.length_append, List.length_cons]
    omega

/-- No level of nesting is left. -/
def OutOfLevels (err : CompileError) : Prop := err.cause = .nestingTooDeep nestingLimit

/-- A tree that is `goal` up to spans was read, up to the lexemes `stop`. -/
structure Done (goal : Expr) (stop : List Lexeme) (depth : Nat) (e : Expr) (s : State) : Prop where
  tree : e.unlocated = goal.unlocated
  lexemes : s.lexemes = stop
  depth : s.depth = depth

/-- The lexeme, if it goes on with an expression at all, binds no more strongly than `n`. -/
def BindsUpTo (w : Lexeme) (n : Nat) : Prop := ∀ own, w.kind.power? = some own → own.rank ≤ n

/-- In surroundings of `power` and before the lexeme `w`, the lexemes `ts` come to `target`:
whatever is reached by climbing on from there is reached from `ts`. It is an error only if
the levels that are left are too few for the target. -/
def ReadAs (ts : List Lexeme) (target : Expr) (power : Power) (w : Lexeme) : Prop :=
  ∀ (budget : Nat) (s : State) (ws : List Lexeme) (goal : Expr) (stop : List Lexeme)
    (fails : CompileError → State → Prop),
    s.lexemes = ts ++ w :: ws → s.depth + budget = nestingLimit →
    (budget < levels target → ∀ err s', OutOfLevels err → fails err s') →
    (∀ e s', Done target (w :: ws) (s.depth + spine target) e s' → spine target ≤ budget →
      Outcome (Done goal stop s'.depth) fails (climb (budget - spine target) power e s')) →
    Outcome (fun left s' => Outcome (Done goal stop s.depth) fails (climb budget power left s'))
      fails (beginning (exprWithin budget) s)

section

variable {ts us ws : List Lexeme} {target left right : Expr} {power own : Power} {v w : Lexeme}
  {s : State} {fails : CompileError → State → Prop}

theorem power?_of_binaryOp? {k : Kind} {op : BinaryOp} (h : k.binaryOp? = some op) :
    ∃ own, k.power? = some own ∧ own.rank = op.level + 2 := by
  cases k <;> cases h <;> exact ⟨_, rfl, rfl⟩

/-- The operand after an operator is read in the operator's own surroundings, or in those of
an assignment if the operator groups to the right. -/
theorem outcome_continuation_operator {ok : Expr → State → Prop} {operand : Operand} {op : BinaryOp}
    (hop : s.kind.binaryOp? = some op)
    (h : Outcome (fun right s' => ok (.binary op left right ⟨left.span.start, right.span.stop⟩) s')
      fails (operand (if op = .coalesce then .assignment else own) s.next)) :
    Outcome ok fails (continuation operand left own s) := by
  by_cases hcoalesce : op = .coalesce
  · subst hcoalesce
    have hkind : s.kind = .nullCoalesce := by
      revert hop
      cases s.kind <;> intro hop <;> first | rfl | cases hop
    rw [outcome_continuation_coalesce hkind]
    unfold coalesce
    rw [outcome_bind, outcome_expect]
    refine ⟨fun _ => ?_, fun hne => absurd hkind hne⟩
    rw [outcome_bind]
    exact h
  · rw [outcome_continuation_binary hop hcoalesce]
    unfold binary
    rw [outcome_bind, outcome_kind, hop]
    rw [if_neg hcoalesce] at h
    show Outcome _ _ ((advance >>= fun _ => operand own >>= fun _ => _ : Parse Expr) s)
    rw [outcome_bind, outcome_advance, outcome_bind]
    exact h

/-- What can be read is read as a whole operand, up to a lexeme that does not bind more
strongly than the surroundings. -/
theorem ReadAs.exprWithin (h : ReadAs ts target power w) (hw : BindsUpTo w power.rank)
    {budget : Nat} (hs : s.lexemes = ts ++ w :: ws) (hdepth : s.depth + budget = nestingLimit)
    (hfails : budget < levels target + 1 → ∀ err s', OutOfLevels err → fails err s') :
    Outcome (Done target (w :: ws) s.depth) fails (exprWithin budget power s) := by
  apply outcome_exprWithin
  · intro b s₀ hb _ hs₀
    have hdepth₀ := hs₀.depth
    have hbegin := h b s₀ ws target (w :: ws) fails (hs₀.lexemes.trans hs) (by omega)
      (fun hlt => hfails (by omega)) (fun e s₁ h₁ _ => ?_)
    · refine hbegin.mono fun left s₁ h₁ => h₁.mono fun e s₂ h₂ s₃ h₃ => ?_
      have hdepth₂ := h₂.depth
      have hdepth₃ := h₃.depth
      exact ⟨h₂.tree, h₃.lexemes.trans h₂.lexemes, by omega⟩
    · -- The lexeme after the operand ends the climb.
      refine outcome_climb_stop (fun own hown => ?_) ⟨h₁.tree, h₁.lexemes, rfl⟩
      rw [State.kind_eq h₁.lexemes] at hown
      exact Nat.not_lt.2 (hw own hown)
  · intro hlimit
    exact hfails (by omega) _ _ rfl

/-- Two parts with an operator between them that binds more strongly than the surroundings. -/
theorem ReadAs.node {op : BinaryOp} (hl : ReadAs ts left power v)
    (hop : v.kind.binaryOp? = some op) (hown : v.kind.power? = some own) (hpower : power < own)
    (hr : ReadAs us right (if op = .coalesce then .assignment else own) w)
    (hw : BindsUpTo w (if op = .coalesce then Power.assignment else own).rank) :
    ReadAs (ts ++ v :: us) (.binary op left right .none) power w := by
  intro budget s ws goal stop fails hs hdepth hfails hclimb
  have hlevels : levels (.binary op left right .none) =
      max (levels left) (spine left + 2 + levels right) := by rw [levels]
  have hspine : spine (.binary op left right .none) = spine left + 1 := by rw [spine]
  refine hl budget s (us ++ w :: ws) goal stop fails (by simpa using hs) hdepth
    (fun hlt => hfails (by omega)) ?_
  intro e s₁ h₁ hle
  have hdepth₁ := h₁.depth
  have hkind : s₁.kind = v.kind := State.kind_eq h₁.lexemes
  apply outcome_climb_step (by rw [hkind, hown]) hpower
  · intro b s₀ hb _ hs₀
    have hdepth₀ := hs₀.depth
    have hkind₀ : s₀.kind.binaryOp? = some op := by
      rw [State.kind_eq (hs₀.lexemes.trans h₁.lexemes), hop]
    have hnext := State.reaches_next_of_ne_nil (hs₀.lexemes.trans h₁.lexemes)
      (by intro heof; rw [heof] at hop; cases hop) (by simp)
    have hdepthn := hnext.depth
    apply outcome_continuation_operator hkind₀
    refine (hr.exprWithin hw hnext.lexemes (by omega) fun hlt => hfails (by omega)).mono
      fun r s₂ h₂ => ?_
    have hdepth₂ := h₂.depth
    have hlonger : Done (.binary op left right .none) (w :: ws)
        (s.depth + spine (.binary op left right .none))
        (.binary op e r ⟨e.span.start, r.span.stop⟩) s₂ :=
      ⟨by simp [Expr.unlocated, h₁.tree, h₂.tree], h₂.lexemes, by omega⟩
    have hrest := hclimb _ s₂ hlonger (by omega)
    rw [show budget - spine (.binary op left right .none) = b by omega] at hrest
    refine hrest.mono fun e s₃ h₃ s₄ h₄ => ?_
    have hdepth₃ := h₃.depth
    have hdepth₄ := h₄.depth
    exact ⟨h₃.tree, h₄.lexemes.trans h₃.lexemes, by omega⟩
  · intro hlimit
    exact hfails (by omega) _ _ rfl

theorem ReadAs.leaf (l : Leaf) : ReadAs [l.token.lexeme] l.expr power w := by
  intro budget s ws goal stop fails hs hdepth hfails hclimb
  obtain ⟨e, he, htree⟩ := l.primaryOf_of_lexeme (State.current_lexeme hs)
  have hkind : s.kind = l.token.kind := State.kind_eq hs
  have hmem := l.kind_mem
  simp only [leafKinds, List.mem_cons, List.not_mem_nil, or_false] at hmem
  rw [outcome_beginning_primary (by simp only [hkind, List.mem_cons]; grind)]
  refine outcome_primary_of hs (by simp only [Token.lexeme]; grind) he fun hreach => ?_
  have hspine := (spine_levels_of_single l.single).1
  have h := hclimb e s.next ⟨htree, hreach.lexemes, by rw [hreach.depth, hspine]; rfl⟩ (by omega)
  rw [hspine, hreach.depth] at h
  exact h

end

theorem map_lexeme_tokens_append (first : Leaf) (before : List Link) (root : Link)
    (after : List Link) :
    (tokens first (before ++ root :: after)).map Token.lexeme =
      (tokens first before).map Token.lexeme ++
        root.mark.lexeme :: (tokens root.leaf after).map Token.lexeme := by
  simp [tokens]

/-- The surroundings in which the operand after an operator is read bind as strongly as the
operator, but for `??`, which lets another one follow there. -/
def reach (op : BinaryOp) : Nat :=
  if op = .coalesce then Power.assignment.rank else op.level + 2

/-- A chain is read as its tree wherever the surroundings bind less strongly than all of its
operators and what follows binds no more strongly than any of them reaches. -/
theorem readAs_tree (first : Leaf) (links : List Link) :
    ∀ power w, (∀ l ∈ links, power.rank < l.op.level + 2) →
      (∀ l ∈ links, BindsUpTo w (reach l.op)) →
      ReadAs ((tokens first links).map Token.lexeme) (tree first links) power w := by
  induction first, links using induction_cut with
  | single first =>
    intro power w _ _
    rw [tree]
    exact .leaf first
  | node first before root after hroot htree ihb iha =>
    intro power w hpower hw
    rw [htree, map_lexeme_tokens_append]
    obtain ⟨own, hown, hrank⟩ := power?_of_binaryOp? root.binaryOp?_mark
    have hpowerRoot := hpower root (by simp)
    have hwRoot := hw root (by simp)
    -- What the operand on the right is read in.
    have hreach : (if root.op = .coalesce then Power.assignment else own).rank =
        reach root.op := by
      unfold reach
      split
      · rfl
      · exact hrank
    refine .node (ihb power root.mark.lexeme (fun l hl => hpower l (by simp [hl])) ?_)
      root.binaryOp?_mark hown (show power.rank < own.rank by omega)
      (iha _ w ?_ fun l hl => hw l (by simp [hl])) (hreach ▸ hwRoot)
    · intro l hl own' hown'
      obtain rfl : own = own' := Option.some.inj (hown.symm.trans hown')
      have hle := hroot.before_le l hl
      unfold reach
      by_cases hcoalesce : l.op = .coalesce
      · -- A `??` stands before the root only if the root is a weaker one.
        have hzero : l.op.level = 0 := level_eq_zero_iff.2 hcoalesce
        have hlt := hroot.leftmost (level_eq_zero_iff.1 (by omega)) l hl
        omega
      · rw [if_neg hcoalesce]
        omega
    · intro l hl
      rw [hreach]
      unfold reach
      by_cases hcoalesce : root.op = .coalesce
      · rw [if_pos hcoalesce]
        show 1 < _
        omega
      · rw [if_neg hcoalesce]
        have hlt := hroot.rightmost hcoalesce l hl
        omega

/-- A parser that comes to the last lexeme stands before the last token. -/
theorem tokens_eq_of_reads {l l' : Level} {s t : State} {ts : List Token} {stop : Token}
    (h : Reads l l' s t) (hs : s.tokens = ts ++ [stop]) (ht : t.lexemes = [stop.lexeme]) :
    t.tokens = [stop] := by
  obtain ⟨taken, htaken, -⟩ := h.tokens
  have hlength : t.tokens.length = [stop].length := by
    have := congrArg List.length ht
    rwa [State.lexemes, List.length_map] at this
  exact (List.append_inj_right' (hs.symm.trans htaken) hlength.symm).symm

/-- A chain of operators that stands alone is read to its end, as the tree that is cut at the
weakest operators. It is an error only if the nesting goes too deep, which takes at least
half as many operators as there are levels. -/
theorem expr_chain (first : Leaf) (links : List Link) (text : String) (span : Span) :
    Outcome (fun e s => e.unlocated = (tree first links).unlocated ∧
        s.tokens = [⟨.eof, text, span⟩])
      (fun err _ => err.cause = .nestingTooDeep nestingLimit ∧ nestingLimit ≤ 2 * links.length)
      (expr .default (.ofTokens (tokens first links ++ [⟨.eof, text, span⟩]))) := by
  obtain ⟨stop, hstop⟩ : ∃ t : Token, t = ⟨.eof, text, span⟩ := ⟨_, rfl⟩
  rw [← hstop]
  have heof : stop.kind = .eof := by rw [hstop]
  have htokens : (State.ofTokens (tokens first links ++ [stop])).tokens =
      tokens first links ++ [stop] :=
    State.terminate_tokens .none ⟨tokens first links, stop, rfl, heof⟩
  have hbinds (n : Nat) : BindsUpTo stop.lexeme n := by
    intro own hown
    rw [show stop.lexeme.kind = .eof from heof] at hown
    cases hown
  have hlevels := (spine_levels_le first links).2
  have hread : ReadAs ((tokens first links).map Token.lexeme) (tree first links) .default
      stop.lexeme := by
    refine readAs_tree first links _ _ (fun l _ => ?_) fun l _ => hbinds _
    show 0 < _
    omega
  have hchain : Outcome (Done (tree first links) [stop.lexeme] 0)
      (fun err _ => err.cause = .nestingTooDeep nestingLimit ∧ nestingLimit ≤ 2 * links.length)
      (exprWithin nestingLimit .default (.ofTokens (tokens first links ++ [stop]))) := by
    refine hread.exprWithin (hbinds _) (by rw [State.lexemes, htokens]; simp) rfl ?_
    intro hlt err s herr
    exact ⟨herr, by omega⟩
  have hparallel : Parallel Eq (fun _ => True) ⟨0, 0⟩ ⟨0, 0⟩ Expr.unlocated (expr .default)
      (expr .default) := parallel_expr .default
  show Outcome _ _ (exprWithin nestingLimit .default (.ofTokens (tokens first links ++ [stop])))
  cases hrun : exprWithin nestingLimit .default (.ofTokens (tokens first links ++ [stop])) with
  | error err s =>
    rw [hrun] at hchain
    exact hchain
  | ok e s =>
    rw [hrun] at hchain
    have hreads := hparallel.reads _ e s (ended_ofTokens _) trivial hrun
    exact ⟨hchain.tree, tokens_eq_of_reads hreads htokens hchain.lexemes⟩

/-- The operator that falls back on null is the root though it stands first. On its right
`||` is weaker than `*`. -/
theorem expr_chain_mixed_levels :
    ∃ first links text span,
      tokenize "a ?? b || c * d" = .ok (tokens first links ++ [⟨.eof, text, span⟩]) ∧
      ∃ e s, expr .default (.ofTokens (tokens first links ++ [⟨.eof, text, span⟩])) = .ok e s ∧
        s.tokens = [⟨.eof, text, span⟩] ∧
        e.unlocated = .binary .coalesce (.identifier "a" .none)
          (.binary .or (.identifier "b" .none)
            (.binary .multiply (.identifier "c" .none) (.identifier "d" .none) .none) .none)
          .none := by
  have hscan : ∃ ts, tokenize "a ?? b || c * d" = .ok ts ∧
      ts.map Token.lexeme =
        [⟨.identifier, "a"⟩, ⟨.nullCoalesce, "??"⟩, ⟨.identifier, "b"⟩, ⟨.or, "||"⟩,
          ⟨.identifier, "c"⟩, ⟨.star, "*"⟩, ⟨.identifier, "d"⟩, ⟨.eof, "EOF"⟩] :=
    exists_eq_ok (by decide +kernel)
  obtain ⟨ts, hts, hlexemes⟩ := hscan
  simp only [List.map_eq_cons_iff, List.map_eq_nil_iff] at hlexemes
  obtain ⟨a, _, rfl, ha, o₁, _, rfl, ho₁, b, _, rfl, hb, o₂, _, rfl, ho₂, c, _, rfl, hc, o₃, _,
    rfl, ho₃, d, _, rfl, hd, ⟨k, text, span⟩, _, rfl, hstop, rfl⟩ := hlexemes
  obtain rfl : k = .eof := congrArg Lexeme.kind hstop
  obtain ⟨a, rfl, ha'⟩ := exists_leaf_of_identifier hts (by simp) ha
  obtain ⟨b, rfl, hb'⟩ := exists_leaf_of_identifier hts (by simp) hb
  obtain ⟨c, rfl, hc'⟩ := exists_leaf_of_identifier hts (by simp) hc
  obtain ⟨d, rfl, hd'⟩ := exists_leaf_of_identifier hts (by simp) hd
  let links : List Link :=
    [⟨o₁, .coalesce, congrArg (·.kind.binaryOp?) ho₁, b⟩,
      ⟨o₂, .or, congrArg (·.kind.binaryOp?) ho₂, c⟩,
      ⟨o₃, .multiply, congrArg (·.kind.binaryOp?) ho₃, d⟩]
  have htree : (tree a links).unlocated = .binary .coalesce (.identifier "a" .none)
      (.binary .or (.identifier "b" .none)
        (.binary .multiply (.identifier "c" .none) (.identifier "d" .none) .none) .none) .none := by
    simp [links, tree, cut, takesRoot, BinaryOp.level, Expr.unlocated, ha', hb', hc', hd']
  have hread : Outcome _ _ _ := expr_chain a links text span
  refine ⟨a, links, text, span, hts, ?_⟩
  cases hrun : expr .default (.ofTokens (tokens a links ++ [⟨.eof, text, span⟩])) with
  | ok e s =>
    rw [hrun] at hread
    exact ⟨e, s, rfl, hread.2, hread.1.trans htree⟩
  | error err s =>
    rw [hrun] at hread
    exact absurd hread.2 (by decide : ¬ nestingLimit ≤ 2 * 3)

end Chain

end ClassScript

import ClassScript.Proofs.Parse.Routine

/-!
# The rules of the grammar

Every parser of the grammar is put together from a few steps. It looks at its state, reads
a token, notes what a name stands for, or throws; parsers follow each other and are
repeated; levels of nesting are entered and left. `Compositional P` says that a property
`P` holds of the steps and of what is put together from parsers that have it.

The lemmas go through the grammar once, one for every rule: a compositional property holds
of the rule if it holds of the parsers that the rule is given. What the grammar has is then
a matter of the steps alone, so a rule that changes costs one lemma here and none where a
property is proved.

A property `P n K p` may depend on two things that are known about `p`. It has `n` levels of
nesting left to enter. And from a token whose kind is in `K`, it reads at least one token if
it returns.
-/

namespace ClassScript.Parse

variable {α β : Type}

/-! ### Steps and combinations -/

/-- No kind at all: nothing is known to be read. -/
abbrev noKind : Kind → Prop := fun _ => False

/-- Every kind: a token is read wherever the parser begins. -/
abbrev anyKind : Kind → Prop := fun _ => True

/-- The quotes of the literal cannot be taken off: a character of several bytes stands in
the place of one of them. -/
def IsBroken (t : Token) : Prop :=
  (t.kind = .string ∨ t.kind = .char) ∧ Escape.hasByteEnds t.text.toList = false

/-- Only a name is an accessor. -/
theorem kind_of_accessorOf? {t : Token} {which : Accessor} (h : accessorOf? t = some which) :
    t.kind = .identifier := by
  unfold accessorOf? at h
  split at h
  · cases h
  · exact Classical.not_not.1 ‹_›

/-- What a rule may throw: an error of the source text other than that the nesting goes too
deep, or that a literal is broken. -/
inductive Complaint : CompileError → Prop
  | reported {e : CompileError} : e.cause.isReported = true → ¬ IsTooDeep e → Complaint e
  | broken {t : Token} : IsBroken t → Complaint (.atToken (.brokenLiteral t.text) t)

/-- What is made of a token that was read: an expression, or an error. -/
def ofResult : Except CompileError Expr → Parse Expr
  | .ok e => pure e
  | .error e => throw e

/-- A token that is no expression is an error of the source text, unless it is a broken literal. -/
theorem complaint_of_primaryOf {t : Token} {e : CompileError} (h : primaryOf t = .error e) :
    Complaint e := by
  unfold primaryOf at h
  split at h
  case h_1 =>
    split at h <;> cases h
    exact .reported rfl nofun
  case h_2 | h_3 =>
    rename_i hkind
    cases hvalue : Escape.literalValue? t.text with
    | some value => simp [hvalue] at h
    | none =>
      simp only [hvalue, Except.error.injEq] at h
      subst h
      exact .broken ⟨by simp [hkind], Escape.literalValue?_eq_none_iff.1 hvalue⟩
  case h_10 =>
    cases h
    exact .reported rfl nofun
  all_goals cases h

/-- A host call that is not well formed is an error of the source text. -/
theorem complaint_of_callOf {callee : Expr} {es : List Expr} {span : Span}
    {paren first : Token} {e : CompileError} (h : callOf callee es span paren first = .error e) :
    Complaint e := by
  unfold callOf at h
  split at h
  · split at h <;> cases h
    exact .reported rfl nofun
  · split at h <;> cases h
    exact .reported rfl nofun
  · split at h <;> cases h

/-- The property holds of the steps of the parser, and is kept when parsers are put
together. -/
structure Compositional (P : {α : Type} → Nat → (Kind → Prop) → Parse α → Prop) : Prop where
  /-- Less may be known about what is read. -/
  mono : ∀ {α : Type} {n : Nat} {K L : Kind → Prop} {p : Parse α}, P n K p → (∀ c, L c → K c) →
    P n L p
  pure : ∀ {α : Type} {n : Nat} (a : α), P n noKind (pure a)
  throw : ∀ {α : Type} {n : Nat} {K : Kind → Prop} {e : CompileError}, Complaint e →
    P n K (throw (α := α) e)
  /-- The parser looks at its state, which tells the kind of the token at hand. -/
  look : ∀ {α : Type} {n : Nat} {K : Kind → Prop} {k : State → Parse α},
    (∀ s, P n (fun c => K c ∧ s.kind = c) (k s)) → P n K (get >>= k)
  advance : ∀ {n : Nat}, P n (· ≠ .eof) advance
  skipBraced : ∀ {n : Nat}, P n noKind skipBraced
  beginClass : ∀ {n : Nat} (name : String), P n noKind (beginClass name)
  endClass : ∀ {n : Nat}, P n noKind endClass
  beginMember : ∀ {n : Nat}, P n noKind (modifyScope (·.beginMember))
  declareLocal : ∀ {n : Nat} (name : String) (isDom : Bool),
    P n noKind (modifyScope (·.declareLocal name isDom))
  bind : ∀ {α β : Type} {n : Nat} {K : Kind → Prop} {p : Parse α} {k : α → Parse β},
    P n K p → (∀ a, P n noKind (k a)) → P n K (p >>= k)
  /-- What comes first may read nothing if something is read later. -/
  after : ∀ {α β : Type} {n : Nat} {K : Kind → Prop} {p : Parse α} {k : α → Parse β},
    P n noKind p → (∀ a, P n anyKind (k a)) → P n K (p >>= k)
  many : ∀ {α : Type} {n : Nat} {more : State → Bool} {p : Parse α},
    P n noKind p → P n noKind (many more p)
  commaList : ∀ {α : Type} {n : Nat} {stop : Kind} {p : Parse α},
    P n noKind p → P n noKind (commaList stop p)
  /-- The parser asks how many levels are left. -/
  within : ∀ {α : Type} {n : Nat} {K : Kind → Prop} {p : Nat → Parse α},
    (∀ b, P b K (p b)) → P n K (get >>= fun s => p s.budget)
  tooDeep : ∀ {α : Type} {K : Kind → Prop}, P 0 K (tooDeep (α := α))
  call : ∀ {α : Type} {n : Nat} {K : Kind → Prop} {p body : Parse α}, Call n p body →
    P n K body → P (n + 1) K p
  operator : ∀ {n : Nat} {K : Kind → Prop} {power own : Power} {left : Expr},
    P n K (operatorBody n power own left) → P (n + 1) K (nested (operatorBody n power own left))

namespace Compositional

variable {P : {α : Type} → Nat → (Kind → Prop) → Parse α → Prop} (hP : Compositional P)
  {n : Nat} {K : Kind → Prop}

include hP

/-- The state is looked at, with nothing known to be read. -/
theorem ask {k : State → Parse α} (hk : ∀ s, P n noKind (k s)) : P n noKind (get >>= k) :=
  hP.look fun s => hP.mono (hk s) fun _ h => h.1

/-- The kind of the token at hand is looked at, and known from then on. -/
theorem kind {k : Kind → Parse α} (hk : ∀ c, P n (fun x => K x ∧ c = x) (k c)) :
    P n K (Parse.kind >>= k) :=
  hP.look fun s => hk s.kind

theorem askKind {k : Kind → Parse α} (hk : ∀ c, P n noKind (k c)) :
    P n noKind (Parse.kind >>= k) :=
  hP.ask fun s => hk s.kind

theorem position : P n noKind position :=
  hP.ask fun _ => hP.pure _

theorem spanFrom (start : Position) : P n noKind (spanFrom start) :=
  hP.ask fun _ => hP.pure _

/-- Something is put together from what was read, and from the span of it. -/
theorem closing {start : Position} {f : Span → α} :
    P n noKind (Parse.spanFrom start >>= fun span => Pure.pure (f span)) :=
  hP.bind (hP.spanFrom start) fun _ => hP.pure _

/-- The token at hand is not what was expected. Nothing is returned, so any kind will do. -/
theorem unexpected (expected : String) : P n K (fail (α := α) (·.unexpected expected)) :=
  hP.look fun _ => hP.throw (.reported rfl nofun)

theorem unexpectedDetailed (reason : String) :
    P n K (fail (α := α) (·.unexpectedDetailed reason)) :=
  hP.look fun _ => hP.throw (.reported rfl nofun)

/-- A token is read, or the end of the input is met once more. -/
theorem advanceAny : P n noKind Parse.advance :=
  hP.mono hP.advance nofun

/-- A token that is expected at the beginning is read, unless it is the end of the input. -/
theorem begins {c : Kind} (hc : c ≠ .eof) (expected : String) :
    P n K (expectDescribed c expected) := by
  refine hP.look fun s => ?_
  by_cases hkind : s.kind = c
  · rw [if_pos hkind]
    refine hP.mono hP.advance ?_
    rintro _ ⟨-, rfl⟩
    rwa [hkind]
  · rw [if_neg hkind]
    exact hP.unexpected expected

/-- What is expected at a later place may already be missing: nothing is known to be read. -/
theorem described (c : Kind) (expected : String) : P n noKind (expectDescribed c expected) := by
  refine hP.ask fun s => ?_
  split
  · exact hP.advanceAny
  · exact hP.unexpected expected

theorem expect (c : Kind) : P n noKind (expect c) :=
  hP.described c c.describe

theorem accept (c : Kind) : P n noKind (accept c) := by
  refine hP.ask fun s => ?_
  split
  · exact hP.bind hP.advanceAny fun _ => hP.pure true
  · exact hP.pure false

/-- Something may stand before what follows in any case. -/
theorem optional {c : Prop} [Decidable c] {p : Parse β} {k : Parse α} (hp : P n noKind p)
    (hk : P n noKind k) : P n noKind (if c then p >>= fun _ => k else k) := by
  split
  · exact hP.bind hp fun _ => hk
  · exact hk

/-! ### Types -/

/-- The name begins with an identifier, which is read. -/
theorem dottedName (expected : String) : P n K (dottedName expected) :=
  hP.bind (hP.begins (by decide) expected) fun _ =>
    hP.bind (hP.many (hP.bind hP.advanceAny fun _ => hP.expect _)) fun _ => hP.pure _

/-- Nothing is known of the first item, so nothing is known to be read. -/
theorem commaSeparated {p : Parse α} (h : P n noKind p) : P n noKind (commaSeparated p) :=
  hP.bind h fun _ => hP.bind (hP.many (hP.bind hP.advanceAny fun _ => h)) fun _ => hP.pure _

/-- The name is read first, and its arguments by the parser that is given for them. -/
theorem namedTypeOf {p : Parse TypeRef} (h : P n noKind p) : P n K (namedTypeOf p) := by
  refine hP.after hP.position fun start => hP.bind (hP.dottedName _) fun name => ?_
  refine hP.bind (hP.accept _) fun b => ?_
  simp only [pure_bind]
  split
  · refine hP.bind (hP.commaSeparated h) fun ts => hP.bind (hP.expect _) fun _ => ?_
    exact hP.closing
  · exact hP.closing

/-- A question mark is read because it was seen, square brackets because they are expected. -/
theorem typeSuffix : P n K typeSuffix := by
  refine hP.kind fun c => ?_
  by_cases hc : c = .question
  · rw [if_pos hc]
    refine hP.bind (hP.mono hP.advance ?_) fun _ => hP.pure _
    rintro _ ⟨-, rfl⟩
    simp [hc]
  · rw [if_neg hc]
    exact hP.bind (hP.begins (by decide) _) fun _ => hP.bind (hP.expect _) fun _ => hP.pure _

/-- A type takes a level of nesting, and its arguments take the levels below. -/
theorem typeWithin (n : Nat) (power : Power) : P n K (typeWithin n power) := by
  induction n generalizing power K with
  | zero => exact hP.tooDeep
  | succ n ih =>
    refine hP.call (.type n power) (hP.kind fun c => ?_)
    simp only [Parallel.fail_bind]
    split
    · exact hP.unexpected _
    · refine hP.bind (hP.namedTypeOf (ih .default)) fun _ => ?_
      exact hP.bind (hP.many hP.typeSuffix) fun _ => hP.pure _

/-- A type may use up all the levels that the state has left. -/
theorem typeRef (power : Power) : P n K (typeRef power) :=
  hP.within fun b => hP.typeWithin b power

/-! ### Expressions -/

/-- The end of the input is no expression, so a token is read if one is returned. -/
theorem primary : P n K primary := by
  -- The token that is read is the one at hand, so its kind is known beforehand.
  show P n K (get >>= fun s => Parse.advance >>= fun _ => ofResult (primaryOf s.current))
  refine hP.look fun s => ?_
  cases hread : primaryOf s.current with
  | error e => exact hP.after hP.advanceAny fun _ => hP.throw (complaint_of_primaryOf hread)
  | ok e =>
    refine hP.bind (hP.mono hP.advance ?_) fun _ => hP.pure e
    rintro _ ⟨-, rfl⟩ (heof : s.current.kind = .eof)
    rw [primaryOf, heof] at hread
    cases hread

theorem assigning (target : Expr) : P n noKind (assigning target) := by
  refine hP.bind hP.advanceAny fun mark => ?_
  split
  · exact hP.pure mark
  · exact hP.throw (.reported rfl nofun)

theorem update (left : Expr) : P n noKind (update left) :=
  hP.bind (hP.assigning left) fun _ => hP.pure _

/-- What a member stands for depends on the names that are known, so the state is looked at. -/
theorem member (left : Expr) : P n noKind (member left) :=
  hP.bind (hP.expect _) fun _ => hP.bind (hP.described _ _) fun _ => hP.ask fun _ => hP.pure _

section

variable {operand : Operand} (hoperand : ∀ power, P n noKind (operand power))

include hoperand

/-- The operator is read because it was seen. -/
theorem prefixed : P n (· ≠ .eof) (prefixed operand) :=
  hP.bind hP.advance fun _ => hP.bind (hoperand _) fun _ => hP.pure _

/-- The opening parenthesis is read because it is expected first. -/
theorem grouping : P n K (grouping operand) :=
  hP.bind (hP.begins (by decide) _) fun _ => hP.bind (hoperand _) fun _ =>
    hP.bind (hP.expect _) fun _ => hP.pure _

theorem arguments : P n K (arguments operand) :=
  hP.bind (hP.begins (by decide) _) fun _ => hP.bind (hP.commaList (hoperand _)) fun _ =>
    hP.bind (hP.described _ _) fun _ => hP.pure _

theorem creation : P n K (creation operand) :=
  hP.bind (hP.begins (by decide) _) fun _ => hP.bind (hP.typeRef _) fun _ =>
    hP.bind (hP.arguments hoperand) fun _ => hP.closing

/-- The kind at hand chooses the form, and each of the forms reads a token. -/
theorem beginning : P n K (beginning operand) := by
  refine hP.kind fun c => ?_
  split
  case h_10 | h_11 =>
    refine hP.mono (hP.prefixed hoperand) ?_
    rintro _ ⟨-, rfl⟩
    decide
  case h_12 => exact hP.grouping hoperand
  case h_13 => exact hP.creation hoperand
  case h_14 => exact hP.unexpected _
  all_goals exact hP.primary

variable (left : Expr)

/-- A token that is no operator is an error, and any other is read before the right operand. -/
theorem binary (power : Power) : P n noKind (binary operand left power) := by
  refine hP.askKind fun c => ?_
  split
  · exact hP.unexpected _
  · exact hP.bind hP.advanceAny fun _ => hP.bind (hoperand _) fun _ => hP.pure _

theorem coalesce : P n noKind (coalesce operand left) :=
  hP.bind (hP.expect _) fun _ => hP.bind (hoperand _) fun _ => hP.pure _

theorem assignment : P n noKind (assignment operand left) :=
  hP.bind (hP.assigning left) fun _ => hP.bind (hoperand _) fun _ => hP.pure _

/-- The parenthesis and the token after it are remembered for the error of a host call. -/
theorem callForm : P n noKind (Parse.call operand left) := by
  refine hP.ask fun s => hP.bind (hP.arguments hoperand) fun es => ?_
  refine hP.bind (hP.spanFrom _) fun span => ?_
  cases hcall : callOf left es span s.current (s.peek 1) with
  | ok e => exact hP.pure e
  | error e => exact hP.throw (complaint_of_callOf hcall)

theorem index : P n noKind (index operand left) :=
  hP.bind (hP.expect _) fun _ => hP.bind (hoperand _) fun _ =>
    hP.bind (hP.expect _) fun _ => hP.closing

/-- The forms of an expression that goes on after an operand. -/
theorem continuation (power : Power) : P n noKind (continuation operand left power) := by
  refine hP.askKind fun c => ?_
  split
  case h_6 => exact hP.coalesce hoperand left
  case h_7 => exact hP.callForm hoperand left
  case h_8 | h_9 => exact hP.update left
  case h_10 => exact hP.member left
  case h_11 => exact hP.index hoperand left
  case h_12 => exact hP.binary hoperand left power
  all_goals exact hP.assignment hoperand left

end

/-- An operator of a chain runs on a level of its own, and so does the rest of the chain. -/
theorem operatorLevel {power own : Power} {left : Expr}
    (h : P n noKind (operatorBody n power own left)) :
    P (n + 1) noKind (do
      deepen
      let longer ← Parse.continuation (exprWithin n) left own
      let e ← climb n power longer
      surface 1
      return e) := by
  have hlevel := hP.operator h
  simp only [nested, operatorBody, bind_assoc] at hlevel
  exact hlevel

/-- Precedence climbing, over the levels that are left. -/
theorem exprWithin_climb (n : Nat) :
    (∀ {K : Kind → Prop} power, P n K (exprWithin n power)) ∧
      ∀ power left, P n noKind (climb n power left) := by
  -- Each of the two calls both of them with one level less.
  induction n with
  | zero =>
    refine ⟨fun _ => hP.tooDeep, fun power left => ?_⟩
    unfold climb
    refine hP.askKind fun c => ?_
    split
    · exact hP.pure left
    · split
      · exact hP.tooDeep
      · exact hP.pure left
  | succ n ih =>
    refine ⟨fun power => ?_, fun power left => ?_⟩
    · exact hP.call (.expr n power)
        (hP.bind (hP.beginning fun power => ih.1 power) fun left => ih.2 power left)
    · unfold climb
      refine hP.askKind fun c => ?_
      split
      · exact hP.pure left
      · split
        · refine hP.operatorLevel (hP.bind ?_ fun longer => ih.2 power longer)
          exact hP.continuation (fun power => ih.1 power) left _
        · exact hP.pure left

theorem exprWithin (n : Nat) (power : Power) : P n K (exprWithin n power) :=
  (hP.exprWithin_climb n).1 power

/-- An expression may use up all the levels that the state has left. -/
theorem expr (power : Power) : P n K (expr power) :=
  hP.within fun b => hP.exprWithin b power

/-! ### Statements -/

/-- An expression is read at least. -/
theorem expressionStmt : P n K expressionStmt :=
  hP.bind (hP.expr _) fun _ => hP.bind (hP.expect _) fun _ => hP.closing

/-- Without an equals sign nothing is read. -/
theorem initialValue : P n noKind initialValue := by
  refine hP.bind (hP.accept _) fun b => ?_
  split
  · exact hP.bind (hP.expr _) fun _ => hP.pure _
  · exact hP.pure none

theorem localStmt : P n K localStmt := by
  refine hP.after hP.position fun _ => hP.bind (hP.typeRef _) fun _ => ?_
  refine hP.bind (hP.described _ _) fun _ => hP.bind hP.initialValue fun _ => ?_
  refine hP.bind (hP.expect _) fun _ => hP.bind (hP.declareLocal _ _) fun _ => ?_
  exact hP.closing

/-- The tokens ahead decide which of the two statements it is, and both read a token. -/
theorem plainStmt : P n K plainStmt := by
  refine hP.look fun s => ?_
  split
  · exact hP.localStmt
  · exact hP.expressionStmt

theorem returnStmt : P n K returnStmt := by
  refine hP.bind (hP.begins (by decide) _) fun mark => hP.askKind fun c => ?_
  simp only [pure_bind, bind_map_left]
  split
  · exact hP.bind (hP.expect _) fun _ => hP.closing
  · exact hP.bind (hP.expr _) fun _ => hP.bind (hP.expect _) fun _ => hP.closing

theorem condition : P n K condition :=
  hP.grouping fun power => hP.expr power

/-- The part of a head that may be left out, and the token that ends it. -/
theorem optionalBefore (stop : Kind) : P n noKind (optionalBefore stop) :=
  hP.askKind fun _ => hP.optional (hP.expr _) (hP.bind (hP.expect _) fun _ => hP.pure _)

section

variable {stmt : Parse Stmt} (hstmt : P n noKind stmt)

include hstmt

/-- A block begins with its brace, also if it has no statements. -/
theorem blockOf : P n K (blockOf stmt) :=
  hP.bind (hP.begins (by decide) _) fun _ => hP.bind (hP.many hstmt) fun _ =>
    hP.bind (hP.expect _) fun _ => hP.closing

theorem blockStmt : P n K (blockStmt stmt) :=
  hP.bind (hP.blockOf hstmt) fun _ => hP.pure _

theorem ifStmt : P n K (ifStmt stmt) := by
  refine hP.bind (hP.begins (by decide) _) fun _ => hP.bind hP.condition fun _ => ?_
  refine hP.bind hstmt fun _ => hP.bind (hP.accept _) fun _ => ?_
  exact hP.optional hstmt hP.closing

theorem whileStmt : P n K (whileStmt stmt) :=
  hP.bind (hP.begins (by decide) _) fun _ => hP.bind hP.condition fun _ =>
    hP.bind hstmt fun _ => hP.closing

/-- The head of the loop is read in parts, the first of which may be a declaration. -/
theorem forStmt : P n K (forStmt stmt) := by
  refine hP.bind (hP.begins (by decide) _) fun _ => hP.bind (hP.expect _) fun _ => ?_
  refine hP.bind (hP.accept _) fun _ => hP.optional hP.plainStmt ?_
  refine hP.bind (hP.optionalBefore _) fun _ => hP.bind (hP.optionalBefore _) fun _ => ?_
  exact hP.bind hstmt fun _ => hP.closing

/-- The kind at hand chooses the statement. -/
theorem stmtOf : P n K (stmtOf stmt) := by
  refine hP.kind fun c => ?_
  split
  · exact hP.returnStmt
  · exact hP.ifStmt hstmt
  · exact hP.whileStmt hstmt
  · exact hP.forStmt hstmt
  · exact hP.blockStmt hstmt
  · exact hP.plainStmt

end

/-- A statement takes a level of nesting, and those in it take the levels below. -/
theorem stmtWithin (n : Nat) : P n K (stmtWithin n) := by
  induction n generalizing K with
  | zero => exact hP.tooDeep
  | succ n ih => exact hP.call (.stmt n) (hP.stmtOf ih)

theorem stmt : P n K stmt :=
  hP.within fun b => hP.stmtWithin b

theorem block : P n K block :=
  hP.blockOf hP.stmt

/-! ### Members -/

/-- There may be no modifiers, so nothing is known to be read. -/
theorem modifiers : P n noKind modifiers :=
  hP.bind (hP.many hP.advanceAny) fun _ => hP.pure _

/-- The type of a parameter is read, and its name becomes known. -/
theorem parameter : P n K parameter := by
  refine hP.after hP.position fun _ => hP.bind (hP.typeRef _) fun _ => ?_
  refine hP.bind (hP.described _ _) fun _ => hP.bind hP.initialValue fun _ => ?_
  exact hP.bind (hP.declareLocal _ _) fun _ => hP.closing

/-- The names of the parameters become known one after another. -/
theorem parameters : P n K parameters :=
  hP.bind (hP.begins (by decide) _) fun _ => hP.bind (hP.commaList hP.parameter) fun _ =>
    hP.bind (hP.described _ _) fun _ => hP.pure _

/-- There may be no call of another constructor. -/
theorem constructorChain : P n noKind constructorChain := by
  -- After either of the two words the call goes on in the same way.
  have hrest (target : ChainTarget) (start : Position) : P n noKind (do
      let _ ← Parse.advance
      let arguments ← Parse.arguments Parse.expr
      return some ({ target, arguments, span := ← Parse.spanFrom start } : ConstructorChain)) :=
    hP.bind hP.advanceAny fun _ => hP.bind (hP.arguments fun power => hP.expr power) fun _ =>
      hP.closing
  refine hP.askKind fun c => ?_
  split
  · exact hP.pure none
  · refine hP.bind hP.advanceAny fun mark => hP.askKind fun c => ?_
    simp only [pure_bind, Parallel.fail_bind]
    split
    · exact hrest .base _
    · exact hrest .this _
    · exact hP.unexpected _

theorem constructor (m : Modifiers) (start : Position) : P n K (constructor m start) :=
  hP.bind (hP.begins (by decide) _) fun _ => hP.bind hP.parameters fun _ =>
    hP.bind hP.constructorChain fun _ => hP.bind hP.block fun _ => hP.closing

theorem expressionBody (isVoid : Bool) : P n noKind (expressionBody isVoid) :=
  hP.bind (hP.expect _) fun _ => hP.bind (hP.expr _) fun _ => hP.bind (hP.expect _) fun _ =>
    hP.closing

theorem methodBody (isVoid : Bool) : P n noKind (methodBody isVoid) := by
  refine hP.askKind fun c => ?_
  split
  · exact hP.bind hP.advanceAny fun _ => hP.pure none
  · exact hP.bind (hP.expressionBody isVoid) fun _ => hP.pure _
  · exact hP.bind hP.block fun _ => hP.pure _

/-- The text of an accessor's block is passed over without being read. -/
theorem accessorBody : P n noKind accessorBody := by
  refine hP.askKind fun c => ?_
  split
  · exact hP.bind hP.advanceAny fun _ => hP.pure _
  · exact hP.skipBraced
  · exact hP.bind hP.advanceAny fun _ => hP.bind (hP.expr _) fun _ =>
      hP.bind (hP.expect _) fun _ => hP.pure _
  · exact hP.unexpected _

/-- Only a name is an accessor, so it is not the end of the input. -/
theorem accessor : P n K accessor := by
  refine hP.after hP.modifiers fun _ => hP.look fun s => ?_
  cases hwhich : accessorOf? s.current with
  | none => exact hP.unexpected _
  | some which =>
    refine hP.bind (hP.mono hP.advance ?_) fun _ => hP.bind hP.accessorBody fun _ => hP.pure _
    rintro _ ⟨-, rfl⟩
    rw [State.kind, kind_of_accessorOf? hwhich]
    decide

section

variable (m : Modifiers) (type : TypeRef) (name : String) (start : Position)

theorem method : P n noKind (method m type name start) :=
  hP.bind hP.parameters fun _ => hP.bind (hP.methodBody _) fun _ => hP.closing

/-- A property ends with its braces, or with the semicolon after its first value. -/
theorem property : P n noKind (property m type name start) := by
  refine hP.bind (hP.expect _) fun _ => hP.bind (hP.many hP.accessor) fun _ => ?_
  refine hP.bind (hP.expect _) fun _ => hP.bind hP.initialValue fun _ => ?_
  exact hP.optional (hP.expect _) hP.closing

theorem field : P n noKind (field m type name start) :=
  hP.bind hP.initialValue fun _ => hP.bind (hP.expect _) fun _ => hP.closing

end

/-- Modifiers may be missing, but then a constructor or a type begins. -/
theorem classMember (className : String) : P n K (classMember className) := by
  refine hP.after hP.position fun start => hP.after hP.modifiers fun m => ?_
  refine hP.after hP.beginMember fun _ => hP.look fun s => ?_
  split
  · exact hP.constructor m start
  · refine hP.bind (hP.typeRef _) fun type => hP.bind (hP.described _ _) fun name => ?_
    refine hP.askKind fun c => ?_
    split
    · exact hP.method m type _ start
    · exact hP.property m type _ start
    · exact hP.field m type _ start
    · exact hP.field m type _ start
    · exact hP.unexpectedDetailed _

/-! ### Declarations -/

theorem baseNames : P n noKind baseNames := by
  refine hP.bind (hP.accept _) fun b => ?_
  split
  · exact hP.bind (hP.commaSeparated (hP.typeRef _)) fun _ => hP.pure _
  · exact hP.pure []

/-- The names of a class are known from its opening brace to the end of the class. -/
theorem classDecl : P n K classDecl := by
  refine hP.after hP.position fun _ => hP.after hP.modifiers fun _ => ?_
  refine hP.bind (hP.begins (by decide) _) fun _ => hP.bind (hP.described _ _) fun _ => ?_
  refine hP.bind hP.baseNames fun _ => hP.bind (hP.expect _) fun _ => ?_
  refine hP.bind (hP.beginClass _) fun _ => hP.bind (hP.many (hP.classMember _)) fun _ => ?_
  exact hP.bind (hP.expect _) fun _ => hP.bind hP.endClass fun _ => hP.closing

theorem usingDirective : P n K usingDirective :=
  hP.bind (hP.begins (by decide) _) fun _ => hP.bind (hP.dottedName _) fun _ =>
    hP.bind (hP.expect _) fun _ => hP.pure _

section

variable {body : Parse (List Contribution)} (hbody : P n noKind body)

include hbody

/-- A namespace that ends with a semicolon takes no body of its own. -/
theorem namespaceOf : P n K (namespaceOf body) := by
  refine hP.bind (hP.begins (by decide) _) fun _ => hP.bind (hP.dottedName _) fun _ => ?_
  refine hP.bind (hP.accept _) fun b => ?_
  split
  · exact hP.pure _
  · exact hP.bind (hP.described _ _) fun _ => hP.bind hbody fun _ =>
      hP.bind (hP.expect _) fun _ => hP.pure _

theorem topLevelOf : P n K (topLevelOf body) := by
  refine hP.kind fun c => ?_
  split
  · exact hP.bind hP.usingDirective fun _ => hP.pure _
  · exact hP.namespaceOf hbody
  · exact hP.bind hP.classDecl fun _ => hP.pure _

end

/-- A namespace takes a level of nesting, and what is in it takes the levels below. -/
theorem topLevelWithin (n : Nat) : P n K (topLevelWithin n) := by
  induction n generalizing K with
  | zero => exact hP.topLevelOf hP.tooDeep
  | succ n ih => exact hP.topLevelOf (hP.call (.namespaceBody n) (hP.many ih))

theorem topLevel : P n K topLevel :=
  hP.within fun b => hP.topLevelWithin b

/-- Nothing needs to be read: a unit may be empty. -/
theorem compilationUnit : P n noKind compilationUnit :=
  hP.bind hP.position fun _ => hP.bind (hP.many hP.topLevel) fun _ => hP.closing

end Compositional

end ClassScript.Parse

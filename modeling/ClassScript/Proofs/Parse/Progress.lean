import ClassScript.Proofs.Parse.Concatenation
import ClassScript.Proofs.Parse.Rules
import ClassScript.Proofs.Token.MaximalMunch
import Mathlib.Logic.Relation

/-!
# Progress

A parser goes forward through its tokens. All that it does to its state is to read a token,
to enter or leave levels of nesting and to note what names stand for (`Step`), so a state
that it comes to stands before a last part of the tokens. What reads a part of the language
reads at least one token if it returns (`Construct.advances`).

The loops of the parser are written so that they stop after a round without progress. There
is no such round: each of them gives what the plain loop gives (`Loop`, `CommaLoop`,
`BraceLoop`), and since these are defined by induction, the plain loops end.
-/

namespace ClassScript.Parse

variable {α β γ : Type}

/-! ### Steps -/

/-- What a parser does to its state at a time. -/
inductive Step : State → State → Prop
  | read (s : State) : Step s s.next
  | level (s : State) (depth : Nat) : Step s { s with depth }
  | names (s : State) (scope : Scope) : Step s { s with scope }

/-- A state that is come to from another one, by any number of steps. -/
abbrev Steps : State → State → Prop := Relation.ReflTransGen Step

theorem Step.tokens_suffix {s t : State} (h : Step s t) : t.tokens <:+ s.tokens := by
  cases h with
  | read =>
    by_cases hend : s.kind = .eof ∨ s.following = []
    · simp [State.next_of_end hend]
    · rw [not_or] at hend
      rw [(State.next_of_more hend.1 hend.2).1]
      exact List.suffix_cons _ _
  | level => exact List.suffix_rfl
  | names => exact List.suffix_rfl

/-- Tokens are only taken from the front. -/
theorem Steps.tokens_suffix {s t : State} (h : Steps s t) : t.tokens <:+ s.tokens := by
  induction h with
  | refl => exact List.suffix_rfl
  | tail _ hstep ih => exact hstep.tokens_suffix.trans ih

/-- The end of the input stays where it is. -/
theorem Steps.ended {s t : State} (h : Steps s t) (hs : s.Ended) : t.Ended := by
  obtain ⟨taken, htaken⟩ := h.tokens_suffix
  have hlast : s.tokens.getLast? = t.tokens.getLast? := by
    rw [← htaken, List.getLast?_append]
    rfl
  rw [State.Ended, ← hlast]
  exact hs

theorem State.Ended.next {s : State} (h : s.Ended) : s.next.Ended :=
  Steps.ended (.single (.read s)) h

/-- The token at hand is not counted among those that remain. -/
theorem State.length_tokens (s : State) : s.tokens.length = s.remaining + 1 := by
  rw [s.remaining_eq]
  rfl

/-- What remains never grows. -/
theorem Steps.remaining_le {s t : State} (h : Steps s t) : t.remaining ≤ s.remaining := by
  have hlength := h.tokens_suffix.length_le
  rw [s.length_tokens, t.length_tokens] at hlength
  omega

/-- A token is read unless the input ends with it. -/
theorem State.Ended.remaining_next_lt {s : State} (h : s.Ended) (hkind : s.kind ≠ .eof) :
    s.next.remaining < s.remaining := by
  have htokens := (State.next_of_more hkind (h.following_ne_nil hkind)).1
  have hlength := congrArg List.length htokens
  rw [s.next.length_tokens, ← s.remaining_eq] at hlength
  omega

/-! ### Runs are steps -/

/-- Whether it returns or fails, the parser leaves a state that is come to by steps. -/
def Runs (p : Parse α) : Prop :=
  ∀ s, Outcome (fun _ t => Steps s t) (fun _ t => Steps s t) (p s)

namespace Runs

variable {p : Parse α} {k : α → Parse β}

theorem pure (a : α) : Runs (pure a) := fun _ => .refl

/-- The same of a run that goes on from where steps have led. -/
theorem after (hp : Runs p) {s t : State} (h : Steps s t) :
    Outcome (fun _ u => Steps s u) (fun _ u => Steps s u) (p t) := by
  have hrun := hp t
  cases hr : p t <;> rw [hr] at hrun <;> exact h.trans hrun

/-- The same of what is returned. -/
theorem returns (hp : Runs p) {s t : State} (h : Steps s t) :
    Outcome (fun _ u => Steps s u) anyError (p t) := by
  have hrun := hp.after h
  cases hr : p t with
  | ok a u => rwa [hr] at hrun
  | error e u => trivial

/-- The first parser may fail, and then the second one does not run. -/
theorem bind (hp : Runs p) (hk : ∀ a, Runs (k a)) : Runs (p >>= k) := by
  intro s
  rw [outcome_bind]
  exact (hp s).mono fun a t h => (hk a).after h

theorem get {k : State → Parse β} (hk : ∀ s, Runs (k s)) : Runs (get >>= k) := fun s => hk s s

theorem advance : Runs advance := fun s => .single (.read s)

theorem expectDescribed (c : Kind) (expected : String) : Runs (expectDescribed c expected) := by
  intro s
  rw [outcome_expectDescribed]
  exact ⟨fun _ => .single (.read s), fun _ => .refl⟩

theorem expect (c : Kind) : Runs (expect c) := expectDescribed c c.describe

theorem accept (c : Kind) : Runs (accept c) := by
  intro s
  rw [outcome_accept]
  exact ⟨fun _ => .single (.read s), fun _ => .refl⟩

theorem tooDeep : Runs (tooDeep (α := α)) := fun s => .single (.level s _)

/-- The level is entered also where this is an error. -/
theorem deepen : Runs deepen := by
  intro s
  rw [outcome_deepen]
  exact ⟨fun _ => .single (.level s _), fun _ => .single (.level s _)⟩

theorem surface (levels : Nat) : Runs (surface levels) := fun s => .single (.level s _)

theorem nested (hp : Runs p) : Runs (nested p) :=
  deepen.bind fun _ => hp.bind fun _ => (surface 1).bind fun _ => pure _

theorem modifyScope (f : Scope → Scope) : Runs (modifyScope f) := fun s => .single (.names s _)

theorem beginClass (name : String) : Runs (beginClass name) := fun s => .single (.names s _)

/-- Each round is a run, so the loop is one, by induction on the tokens that remain. -/
theorem many {more : State → Bool} (hp : Runs p) : Runs (many more p) := by
  intro s
  have hround : ∀ t, Steps s t → more t = true →
      Outcome (fun _ u => True ∧ Steps s u) (fun _ u => Steps s u) (p t) :=
    fun t ht _ => (hp.after ht).mono fun _ _ h => ⟨trivial, h⟩
  exact (outcome_many hround s .refl).mono fun _ _ h => h.2

theorem commaList {stop : Kind} (hp : Runs p) : Runs (commaList stop p) := by
  intro s
  have hround : ∀ t, Steps s t →
      Outcome (fun _ u => True ∧ Steps s u) (fun _ u => Steps s u) (p t) :=
    fun t ht => (hp.after ht).mono fun _ _ h => ⟨trivial, h⟩
  have hnext : ∀ t, Steps s t → Steps s t.next := fun t ht => ht.tail (.read t)
  exact (outcome_commaList hnext hround s .refl).mono fun _ _ h => h.2

theorem commaSeparated (hp : Runs p) : Runs (commaSeparated p) :=
  hp.bind fun _ => (advance.bind fun _ => hp).many.bind fun _ => pure _

/-- Passing over a block reads its tokens one by one. -/
theorem closeBraces (depth : Nat) (s : State) : Steps s (closeBraces depth s).1 := by
  fun_induction Parse.closeBraces depth s with
  | case1 depth s _ _ ih => exact .head (.read s) ih
  | case2 s => exact .single (.read s)
  | case3 depth s _ _ _ ih => exact .head (.read s) ih
  | case4 depth s _ _ _ ih => exact .head (.read s) ih
  | case5 => exact .refl

theorem skipBraced : Runs skipBraced := by
  intro s
  have hsteps : Steps s (Parse.closeBraces 1 s.next).1 :=
    .head (.read s) (closeBraces 1 s.next)
  rw [run_skipBraced]
  by_cases hopen : s.kind = .openCurly
  · rw [if_pos hopen]
    split
    · exact hsteps
    · exact hsteps
  · rw [if_neg hopen]
    exact .refl

end Runs

/-! ### Parsers that read a token -/

/-- From a token of a kind in `K`, the parser reads at least one token if it returns. -/
def Advances (K : Kind → Prop) (p : Parse α) : Prop :=
  ∀ s, s.Ended → K s.kind →
    Outcome (fun _ t => t.remaining < s.remaining) (fun _ _ => True) (p s)

namespace Advances

variable {K : Kind → Prop} {p : Parse α} {k : α → Parse β}

/-- What follows may do anything. -/
theorem bind (hp : Advances K p) (hk : ∀ a, Runs (k a)) : Advances K (p >>= k) := by
  intro s hs hK
  rw [outcome_bind]
  refine (hp s hs hK).mono fun a t ht => ?_
  have hrest := hk a t
  cases hrun : k a t with
  | error e u => trivial
  | ok b u =>
    rw [hrun] at hrest
    exact Nat.lt_of_le_of_lt hrest.remaining_le ht

/-- What comes first may do anything. -/
theorem after (hp : Runs p) (hk : ∀ a, Advances anyKind (k a)) : Advances K (p >>= k) := by
  intro s hs _
  have hfirst := hp s
  rw [outcome_bind]
  cases hrun : p s with
  | error e t => trivial
  | ok a t =>
    rw [hrun] at hfirst
    refine (hk a t (hfirst.ended hs) trivial).mono fun b u hu => ?_
    exact Nat.lt_of_lt_of_le hu hfirst.remaining_le

/-- Nothing is claimed about any kind. -/
theorem nowhere : Advances noKind p := fun _ _ h => h.elim

/-- Anything but the end of the input is left behind. -/
theorem advance (h : ∀ c, K c → c ≠ .eof) : Advances K advance :=
  fun _ hs hK => hs.remaining_next_lt (h _ hK)

/-- A level is entered and left without reading anything. -/
theorem nested (h : Advances K p) : Advances K (nested p) := by
  intro s hs hK
  unfold Parse.nested
  rw [outcome_bind, outcome_deepen]
  refine ⟨fun _ => ?_, fun _ => trivial⟩
  have hlevel := h.bind (k := fun a => do Parse.surface 1; return a) fun a =>
    (Runs.surface 1).bind fun _ => .pure a
  exact hlevel { s with depth := s.depth + 1 } hs hK

end Advances

/-- What is known of every rule: its runs are steps, and it reads a token where it should. -/
structure Progresses (K : Kind → Prop) (p : Parse α) : Prop where
  runs : Runs p
  advances : Advances K p

/-- Each step of a rule is a step of the state, and a token that is at hand is read. -/
theorem compositional_progresses : Compositional fun _ K p => Progresses K p where
  mono h hK := ⟨h.runs, fun s hs hkind => h.advances s hs (hK _ hkind)⟩
  pure a := ⟨.pure a, .nowhere⟩
  throw _ := ⟨fun _ => .refl, fun _ _ _ => trivial⟩
  look h := ⟨.get fun s => (h s).runs, fun s hs hK => (h s).advances s hs ⟨hK, rfl⟩⟩
  advance := ⟨.advance, .advance fun _ h => h⟩
  skipBraced := ⟨.skipBraced, .nowhere⟩
  beginClass name := ⟨.beginClass name, .nowhere⟩
  endClass := ⟨.modifyScope _, .nowhere⟩
  beginMember := ⟨.modifyScope _, .nowhere⟩
  declareLocal _ _ := ⟨.modifyScope _, .nowhere⟩
  bind hp hk := ⟨hp.runs.bind fun a => (hk a).runs, hp.advances.bind fun a => (hk a).runs⟩
  after hp hk := ⟨hp.runs.bind fun a => (hk a).runs, .after hp.runs fun a => (hk a).advances⟩
  many h := ⟨h.runs.many, .nowhere⟩
  commaList h := ⟨h.runs.commaList, .nowhere⟩
  within h := ⟨.get fun s => (h s.budget).runs, fun s => (h s.budget).advances s⟩
  tooDeep := ⟨.tooDeep, fun _ _ _ => trivial⟩
  call hcall h := hcall.eq_nested ▸ ⟨h.runs.nested, .nested h.advances⟩
  operator h := ⟨h.runs.nested, .nested h.advances⟩

/-- A run is progress of which nothing is known to be read. -/
theorem Runs.progresses {p : Parse α} (h : Runs p) : Progresses noKind p :=
  ⟨h, .nowhere⟩

/-- The runs of what the rules are made of are steps, on any number of levels. -/
theorem Runs.of_ruleAt (levels : Nat) {p : Parse α}
    (h : ∀ {P : {α : Type} → Nat → (Kind → Prop) → Parse α → Prop}, Compositional P →
      P levels noKind p) : Runs p :=
  (h compositional_progresses).runs

/-- What the rules give every compositional property, the parser's runs have. -/
theorem Runs.of_rule {p : Parse α}
    (h : ∀ {P : {α : Type} → Nat → (Kind → Prop) → Parse α → Prop}, Compositional P →
      P 0 noKind p) : Runs p :=
  .of_ruleAt 0 h

theorem runs_typeWithin (budget : Nat) (power : Power) : Runs (typeWithin budget power) :=
  .of_ruleAt budget fun hP => hP.typeWithin budget power

theorem runs_typeRef (power : Power) : Runs (typeRef power) :=
  .of_rule fun hP => hP.typeRef power

theorem runs_exprWithin (budget : Nat) (power : Power) : Runs (exprWithin budget power) :=
  .of_ruleAt budget fun hP => hP.exprWithin budget power

theorem runs_expr (power : Power) : Runs (expr power) :=
  .of_rule fun hP => hP.expr power

theorem runs_arguments {operand : Operand} (h : ∀ power, Runs (operand power)) :
    Runs (arguments operand) :=
  (compositional_progresses.arguments (n := 0) (K := noKind) fun power => (h power).progresses).runs

theorem runs_initialValue : Runs initialValue :=
  .of_rule fun hP => hP.initialValue

theorem runs_condition : Runs condition :=
  .of_rule fun hP => hP.condition

theorem runs_optionalBefore (stop : Kind) : Runs (optionalBefore stop) :=
  .of_rule fun hP => hP.optionalBefore stop

theorem runs_plainStmt : Runs plainStmt :=
  .of_rule fun hP => hP.plainStmt

theorem runs_stmtWithin (budget : Nat) : Runs (stmtWithin budget) :=
  .of_ruleAt budget fun hP => hP.stmtWithin budget

theorem runs_block : Runs block :=
  .of_rule fun hP => hP.block

theorem runs_modifiers : Runs modifiers :=
  .of_rule fun hP => hP.modifiers

theorem runs_parameters : Runs parameters :=
  .of_rule fun hP => hP.parameters

theorem runs_classMember (className : String) : Runs (classMember className) :=
  .of_rule fun hP => hP.classMember className

theorem runs_topLevelWithin (budget : Nat) : Runs (topLevelWithin budget) :=
  .of_ruleAt budget fun hP => hP.topLevelWithin budget

/-! ### The parts of the language -/

/-- What reads a part of the language: an expression, a type, a statement, a block, arguments,
a member, a class or a top-level declaration. -/
inductive Construct : {α : Type} → Parse α → Prop
  | expr (budget : Nat) (power : Power) : Construct (exprWithin budget power)
  | type (budget : Nat) (power : Power) : Construct (typeWithin budget power)
  | stmt (budget : Nat) : Construct (stmtWithin budget)
  | block {stmt : Parse Stmt} : Construct stmt → Construct (blockOf stmt)
  | arguments {operand : Operand} : (∀ power, Construct (operand power)) →
      Construct (arguments operand)
  | member (className : String) : Construct (classMember className)
  | classDecl : Construct classDecl
  | topLevel (budget : Nat) : Construct (topLevelWithin budget)
  /-- All levels of nesting that are left may be entered. -/
  | within {α : Type} {p : Nat → Parse α} : (∀ budget, Construct (p budget)) →
      Construct (do p (← get).budget)

/-- What is compositional on any number of levels holds of all that reads a part of the
language. -/
theorem Construct.holds {P : {α : Type} → (Kind → Prop) → Parse α → Prop}
    (hP : Compositional fun _ K p => P K p) {p : Parse α} (h : Construct p) {K : Kind → Prop} :
    P K p := by
  induction h generalizing K with
  | expr budget power => exact hP.exprWithin budget power
  | type budget power => exact hP.typeWithin budget power
  | stmt budget => exact hP.stmtWithin budget
  | block _ ih => exact hP.blockOf (n := 0) ih
  | arguments _ ih => exact hP.arguments (n := 0) fun power => ih power
  | member className => exact hP.classMember (n := 0) className
  | classDecl => exact hP.classDecl (n := 0)
  | topLevel budget => exact hP.topLevelWithin budget
  | within _ ih => exact hP.within (n := 0) fun budget => ih budget

/-- What returns has read a token. -/
theorem Construct.progresses {p : Parse α} (h : Construct p) {K : Kind → Prop} :
    Progresses K p :=
  h.holds compositional_progresses

/-! ### The loops -/

/-- A list with an item before it. -/
def prepend (a : α) : EStateM.Result CompileError State (List α) →
    EStateM.Result CompileError State (List α)
  | .ok as s => .ok (a :: as) s
  | .error e s => .error e s

/-- What the plain loop gives that reads an item as long as the state allows one more. -/
inductive Loop (more : State → Bool) (item : Parse α) :
    State → EStateM.Result CompileError State (List α) → Prop
  | done {s : State} : more s = false → Loop more item s (.ok [] s)
  | failed {s t : State} {e : CompileError} : more s = true → item s = .error e t →
      Loop more item s (.error e t)
  | round {s t : State} {a : α} {r : EStateM.Result CompileError State (List α)} :
      more s = true → item s = .ok a t → Loop more item t r → Loop more item s (prepend a r)

/-- What the plain loop gives that reads items with commas between them up to `stop`. -/
inductive CommaLoop (stop : Kind) (item : Parse α) :
    State → EStateM.Result CompileError State (List α) → Prop
  | done {s : State} : s.kind = stop → CommaLoop stop item s (.ok [] s)
  | failed {s t : State} {e : CompileError} : s.kind ≠ stop → item s = .error e t →
      CommaLoop stop item s (.error e t)
  | last {s t : State} {a : α} : s.kind ≠ stop → item s = .ok a t → t.kind ≠ .comma →
      CommaLoop stop item s (.ok [a] t)
  | round {s t : State} {a : α} {r : EStateM.Result CompileError State (List α)} :
      s.kind ≠ stop → item s = .ok a t → t.kind = .comma → CommaLoop stop item t.next r →
      CommaLoop stop item s (prepend a r)

/-- What the plain loop gives that reads on to the brace that closes the outermost of some
open ones, or to the end of the input. -/
inductive BraceLoop : Nat → State → State × Bool → Prop
  | ended {depth : Nat} {s : State} : s.kind = .eof → BraceLoop depth s (s, false)
  | closed {s : State} : s.kind = .closeCurly → BraceLoop 1 s (s.next, true)
  | opening {depth : Nat} {s : State} {r : State × Bool} : s.kind = .openCurly →
      BraceLoop (depth + 1) s.next r → BraceLoop depth s r
  | closing {depth : Nat} {s : State} {r : State × Bool} : s.kind = .closeCurly → depth ≠ 0 →
      BraceLoop depth s.next r → BraceLoop (depth + 1) s r
  | other {depth : Nat} {s : State} {r : State × Bool} : s.kind ≠ .eof → s.kind ≠ .openCurly →
      s.kind ≠ .closeCurly → BraceLoop depth s.next r → BraceLoop depth s r

/-- A loop whose rounds read something ends for one of the reasons that it gives, after at most
as many rounds as tokens remain. -/
theorem loop_many {more : State → Bool} {item : Parse α} (hruns : Runs item)
    (hmore : ∀ s, s.Ended → more s = true →
      Outcome (fun _ t => t.remaining < s.remaining) (fun _ _ => True) (item s))
    {s : State} (hs : s.Ended) : Loop more item s (many more item s) := by
  fun_induction many more item s with
  | case1 s h e t hitem => exact .failed h hitem
  | case2 s h a t hitem hlt e u hmany ih =>
    have hstep := hruns s
    rw [hitem] at hstep
    have hrest := ih (hstep.ended hs)
    rw [hmany] at hrest
    exact .round h hitem hrest
  | case3 s h a t hitem hlt as u hmany ih =>
    have hstep := hruns s
    rw [hitem] at hstep
    have hrest := ih (hstep.ended hs)
    rw [hmany] at hrest
    exact .round h hitem hrest
  | case4 s h a t hitem hlt =>
    -- A round that reads nothing would end the loop early.
    have hround := hmore s hs h
    rw [hitem] at hround
    exact absurd hround hlt
  | case5 s h => exact .done (by simpa using h)

/-- A list goes on only after a comma, and each of its items reads a token. -/
theorem commaLoop_commaList {stop : Kind} {item : Parse α} (hruns : Runs item)
    (hitem : Advances (fun _ => True) item) {s : State} (hs : s.Ended) :
    CommaLoop stop item s (commaList stop item s) := by
  fun_induction commaList stop item s with
  | case1 s hstop => exact .done hstop
  | case2 s hstop e t h => exact .failed hstop h
  | case3 s hstop a t h hcomma hlt e u hrest ih =>
    have hstep := hruns s
    rw [h] at hstep
    have hlist := ih (hstep.ended hs).next
    rw [hrest] at hlist
    exact .round hstop h hcomma hlist
  | case4 s hstop a t h hcomma hlt as u hrest ih =>
    have hstep := hruns s
    rw [h] at hstep
    have hlist := ih (hstep.ended hs).next
    rw [hrest] at hlist
    exact .round hstop h hcomma hlist
  | case5 s hstop a t h hcomma hlt =>
    -- The comma cannot take back what the item has read.
    have hround := hitem s hs trivial
    rw [h] at hround
    exact absurd (Nat.lt_of_le_of_lt t.remaining_next_le hround) hlt
  | case6 s hstop a t h hcomma => exact .last hstop h hcomma

/-- A block that is passed over ends with its closing brace or with the input. -/
theorem braceLoop_closeBraces {depth : Nat} (hdepth : depth ≠ 0) {s : State} (hs : s.Ended) :
    BraceLoop depth s (closeBraces depth s) := by
  fun_induction closeBraces depth s with
  | case1 depth s hmore hkind ih => exact .opening hkind (ih (by omega) hs.next)
  | case2 s hmore hkind => exact .closed hkind
  | case3 depth s hmore hkind hone ih =>
    obtain ⟨n, rfl⟩ := Nat.exists_eq_succ_of_ne_zero hdepth
    exact .closing hkind (by omega) (ih (by omega) hs.next)
  | case4 depth s hmore hopen hclose ih =>
    exact .other (State.more_of_remaining_lt hmore).1 hopen hclose (ih hdepth hs.next)
  | case5 depth s hmore => exact .ended (Classical.not_not.1 (mt hs.remaining_next_lt hmore))

/-- The loops of the parser that read items one after the other. -/
inductive Round : {α : Type} → (State → Bool) → Parse α → Prop
  /-- The names after the first one of a dotted name. -/
  | name : Round (·.kind = .dot) (do let _ ← advance; expect .identifier)
  /-- The items after the first one of some that commas separate. -/
  | separated {α : Type} {item : Parse α} : Construct item →
      Round (·.kind = .comma) (do let _ ← advance; item)
  | suffix (power : Power) : Round (fun s => startsSuffix s && power < .call) typeSuffix
  | modifier : Round (·.kind.isModifier) advance
  | accessor : Round beforeCloseCurly accessor
  /-- The statements of a block, the members of a class, the declarations of a namespace. -/
  | braced {α : Type} {item : Parse α} : Construct item → Round beforeCloseCurly item
  | declaration : Round State.hasTokens topLevel

/-- The loops of the parser that read lists. -/
inductive Listed : {α : Type} → Parse α → Prop
  | argument {α : Type} {item : Parse α} : Construct item → Listed item
  | parameter : Listed parameter

/-- A mark that was seen is read, whatever comes after it. -/
theorem Progresses.afterMark {K : Kind → Prop} (hK : ∀ c, K c → c ≠ .eof) {item : Parse α}
    (h : Runs item) : Progresses K (do let _ ← advance; item) :=
  ⟨Runs.advance.bind fun _ => h, (Advances.advance hK).bind fun _ => h⟩

/-- A round that returns has read a token. -/
theorem Round.progresses {more : State → Bool} {item : Parse α} (h : Round more item) :
    Progresses (fun c => ∃ s : State, s.kind = c ∧ more s = true) item := by
  have hrules := compositional_progresses
  cases h with
  | name => exact .afterMark (by grind) (.expect _)
  | separated h => exact .afterMark (by grind) (h.progresses (K := noKind)).runs
  | suffix power => exact hrules.typeSuffix (n := 0)
  | modifier => exact ⟨.advance, .advance (by grind [Kind.isModifier])⟩
  | accessor => exact hrules.accessor (n := 0)
  | braced h => exact h.progresses
  | declaration => exact hrules.topLevel (n := 0)

/-- The items of every list between commas read a token. -/
theorem Listed.progresses {item : Parse α} (h : Listed item) : Progresses anyKind item := by
  cases h with
  | argument h => exact h.progresses
  | parameter => exact compositional_progresses.parameter (n := 0)

/-! ### The scans -/

section

variable {stop : Token} (hstop : stop.kind = .eof)

include hstop

/-- No member of a class body is looked for after the end of the input. -/
theorem domMembersIn_before (braces parens : Nat) (w r : List Token) :
    domMembersIn braces parens (w ++ stop :: r) = domMembersIn braces parens (w ++ [stop]) := by
  induction w generalizing braces parens with
  | nil => simp [domMembersIn, hstop]
  | cons t w ih =>
    have hname : declaredName? (w ++ stop :: r) = declaredName? (w ++ [stop]) := by
      rcases w with _ | ⟨n, _ | ⟨u, w⟩⟩ <;> simp [declaredName?, hstop]
    simp only [List.cons_append, domMembersIn, ih, hname]

end

/-! ### Runs that break off -/

/-- The run fails because the nesting goes too deep, or with a complaint of a rule. -/
def Complains (p : Parse α) : Prop :=
  ∀ s, Outcome (fun _ _ => True) (fun e _ => IsTooDeep e ∨ Complaint e) (p s)

namespace Complains

variable {p : Parse α}

theorem bind {k : α → Parse β} (hp : Complains p) (hk : ∀ a, Complains (k a)) :
    Complains (p >>= k) := by
  intro s
  rw [outcome_bind]
  exact (hp s).mono fun a t _ => hk a t

theorem nested (hp : Complains p) : Complains (nested p) := by
  refine bind (fun s => ?_) fun _ => hp.bind fun _ _ => trivial
  rw [outcome_deepen]
  exact ⟨fun _ => trivial, fun _ => .inl rfl⟩

/-- The form in which the lemmas for loops ask for a round. -/
theorem round (hp : Complains p) (s : State) :
    Outcome (fun _ _ => True ∧ True) (fun e _ => IsTooDeep e ∨ Complaint e) (p s) :=
  (hp s).mono fun _ _ _ => ⟨trivial, trivial⟩

theorem many {more : State → Bool} (hp : Complains p) : Complains (many more p) :=
  fun s => (outcome_many (fun t _ _ => hp.round t) s trivial).mono fun _ _ _ => trivial

theorem commaList {stop : Kind} (hp : Complains p) : Complains (commaList stop p) :=
  fun s => (outcome_commaList (fun _ _ => trivial) (fun t _ => hp.round t) s trivial).mono
    fun _ _ _ => trivial

/-- An error that is not reported is that of a broken literal. -/
theorem exists_broken (h : Complains p) {s t : State} {e : CompileError}
    (hrun : p s = .error e t) (he : e.cause.isReported = false) :
    ∃ literal, IsBroken literal ∧ e = .atToken (.brokenLiteral literal.text) literal := by
  have herror := h s
  rw [hrun] at herror
  rcases herror with hdeep | hcomplaint
  · rw [show e.cause = .nestingTooDeep nestingLimit from hdeep] at he
    cases he
  · cases hcomplaint with
    | reported hreported => exact absurd (he.symm.trans hreported) (by decide)
    | broken hbroken => exact ⟨_, hbroken, rfl⟩

end Complains

/-- The rules throw complaints, and the levels complain of the nesting. -/
theorem compositional_complains : Compositional fun _ _ p => Complains p where
  mono h _ := h
  pure _ _ := trivial
  throw h _ := .inr h
  look h s := h s s
  advance _ := trivial
  skipBraced s := by
    rw [run_skipBraced]
    split
    · split
      · trivial
      · exact .inr (.reported rfl nofun)
    · exact .inr (.reported rfl nofun)
  beginClass _ _ := trivial
  endClass _ := trivial
  beginMember _ := trivial
  declareLocal _ _ _ := trivial
  bind hp hk := hp.bind hk
  after hp hk := hp.bind hk
  many h := h.many
  commaList h := h.commaList
  within h s := h s.budget s
  tooDeep _ := .inl rfl
  call hcall h := hcall.eq_nested ▸ h.nested
  operator h := h.nested

/-- An error of two runs in step is at a token of the list that the first one reads. -/
theorem Agrees.mem_of_error {L L' : List Token} {view : α → β}
    {r r' : EStateM.Result CompileError State α} (h : Agrees L L' view r r') {e : CompileError}
    {s : State} (hr : r = .error e s) : ∃ cause, ∃ t ∈ L, e = .atToken cause t := by
  cases h with
  | ok => cases hr
  | error cause hindex =>
    cases hr
    obtain ⟨i, hi, -⟩ := hindex
    exact ⟨cause, _, List.mem_of_getElem? hi, rfl⟩

/-- The error of a parse is at one of its tokens. -/
theorem exists_mem_of_error {tokens : List Token} {e : CompileError} {s : State}
    (h : compilationUnit (.ofTokens tokens) = .error e s) :
    ∃ cause, ∃ t ∈ (State.ofTokens tokens).tokens, e = .atToken cause t := by
  -- A run is in step with itself, and what is in step fails at a token of the list.
  have hstart : InStep (State.ofTokens tokens).tokens (State.ofTokens tokens).tokens
      (.ofTokens tokens) (.ofTokens tokens) := ⟨⟨0, rfl, rfl⟩, rfl, rfl⟩
  have hrun :=
    (parallel_compilationUnit (K := anyKind) (l := ⟨0, 0⟩)).agrees rfl _ _ hstart trivial
  exact hrun.mem_of_error h

/-- A broken literal is no expression, and the error is not reported. -/
theorem primaryOf_of_isBroken {t : Token} (h : IsBroken t) :
    primaryOf t = .error (.atToken (.brokenLiteral t.text) t) := by
  have hvalue := Escape.literalValue?_eq_none_iff.2 h.2
  rcases h.1 with hkind | hkind <;> simp only [primaryOf, hkind, hvalue]

/-- A broken literal is read, and then there is no value for it. -/
theorem primary_of_isBroken {s : State} (h : IsBroken s.current) :
    primary s = .error (.atToken (.brokenLiteral s.current.text) s.current) s.next := by
  have hadvance : advance s = .ok s.current s.next := rfl
  unfold primary
  rw [run_bind_of_ok hadvance, primaryOf_of_isBroken h]
  rfl

/-- An expression that begins with a broken literal is not read, if a level is left for it. -/
theorem expr_of_isBroken {s : State} (h : IsBroken s.current) (hdepth : s.depth < nestingLimit)
    (power : Power) :
    expr power s = .error (.atToken (.brokenLiteral s.current.text) s.current)
      { s with depth := s.depth + 1 }.next := by
  obtain ⟨budget, hbudget⟩ : ∃ budget, s.budget = budget + 1 :=
    Nat.exists_eq_succ_of_ne_zero (by rw [State.budget]; omega)
  -- The level is entered before the literal is looked at.
  let entered : State := { s with depth := s.depth + 1 }
  have hkind : kind entered = .ok s.current.kind entered := rfl
  have hbeginning : beginning (exprWithin budget) entered =
      .error (.atToken (.brokenLiteral s.current.text) s.current) entered.next := by
    unfold beginning
    rw [run_bind_of_ok hkind, ← primary_of_isBroken (s := entered) h]
    rcases h.1 with hliteral | hliteral <;> rw [hliteral]
  show exprWithin s.budget power s = _
  rw [hbudget, (Call.expr budget power).eq_nested, run_nested, if_pos hdepth,
    run_bind_of_error hbeginning]

/-! ### Progress -/

/-- The place of a state in the tokens that a parse begins with. -/
def cursor (tokens : List Token) (s : State) : Nat :=
  (State.ofTokens tokens).tokens.length - s.tokens.length

/-- The progress of a parse of some tokens, whatever they are. -/
structure Progress (tokens : List Token) : Prop where
  /-- The end of the input is added if it is missing, and nothing else. -/
  terminated : (State.ofTokens tokens).Ended ∧
    ((State.ofTokens tokens).tokens = tokens ∨
      ∃ p, (State.ofTokens tokens).tokens = tokens ++ [.endOfInput p])
  /-- What is read leads to a state that steps lead to, be it returned or an error. -/
  reached : ∀ {α : Type} {p : Parse α}, Construct p → Runs p
  reached_unit : Runs compilationUnit
  /-- The place is one of the token list. -/
  cursor_lt : ∀ s, Steps (.ofTokens tokens) s →
    cursor tokens s < (State.ofTokens tokens).tokens.length ∧
      s.tokens = (State.ofTokens tokens).tokens.drop (cursor tokens s)
  /-- The place never moves back. -/
  cursor_le : ∀ s t, Steps (.ofTokens tokens) s → Steps s t → cursor tokens s ≤ cursor tokens t
  /-- It moves forward with each part of the language. -/
  cursor_advances : ∀ {α : Type} {p : Parse α}, Construct p → ∀ s a t,
    Steps (.ofTokens tokens) s → p s = .ok a t → cursor tokens s < cursor tokens t
  /-- The loops end. -/
  loops : ∀ {α : Type} {more : State → Bool} {item : Parse α}, Round more item → ∀ s,
    Steps (.ofTokens tokens) s → Loop more item s (many more item s)
  commaLoops : ∀ {α : Type} {item : Parse α}, Listed item → ∀ stop s,
    Steps (.ofTokens tokens) s → CommaLoop stop item s (commaList stop item s)
  braceLoops : ∀ s, Steps (.ofTokens tokens) s → BraceLoop 1 s (closeBraces 1 s)
  /-- The parse returns a unit or an error that is reported, if no literal is broken. -/
  returns : (∀ t ∈ tokens, ¬ IsBroken t) → ∀ e, parseTokens tokens = .error e →
    e.cause.isReported = true
  /-- The tokens of a source text are of this kind. -/
  scanned : ∀ source, tokenize source = .ok tokens → ∀ t ∈ tokens, ¬ IsBroken t
  /-- A parse that breaks off does so at a broken literal. -/
  breaks : ∀ e, parseTokens tokens = .error e → e.cause.isReported = false →
    ∃ t ∈ tokens, IsBroken t ∧ e = .atToken (.brokenLiteral t.text) t
  /-- So it does wherever an expression that begins with such a literal is to be read. -/
  breaks_at : ∀ s, Steps (.ofTokens tokens) s → IsBroken s.current → s.depth < nestingLimit →
    ∀ power, ∃ t, expr power s = .error (.atToken (.brokenLiteral s.current.text) s.current) t
  /-- The scans end before the tokens do: they never see what would come after. -/
  scans : ∀ s, Steps (.ofTokens tokens) s → ∀ more,
    looksLikeDeclaration (s.tokens ++ more) = looksLikeDeclaration s.tokens ∧
    (∀ depth, skipAngles depth (s.tokens ++ more) =
      (skipAngles depth s.tokens).map (· ++ more)) ∧
    ∀ braces parens, domMembersIn braces parens (s.tokens ++ more) =
      domMembersIn braces parens s.tokens

theorem terminate_eq_or (p : Position) (ts : List Token) :
    (State.terminate p ts).1 :: (State.terminate p ts).2 = ts ∨
      ∃ q, (State.terminate p ts).1 :: (State.terminate p ts).2 = ts ++ [.endOfInput q] := by
  induction ts generalizing p with
  | nil => exact .inr ⟨p, rfl⟩
  | cons t ts ih =>
    rw [State.terminate]
    split
    · rename_i hlast
      simp only [Bool.and_eq_true, List.isEmpty_iff] at hlast
      exact .inl (by rw [hlast.1])
    · rcases ih t.span.stop with h | ⟨q, h⟩
      · exact .inl (congrArg (t :: ·) h)
      · exact .inr ⟨q, congrArg (t :: ·) h⟩

/-- The tokens of a state that has an end stop with it. -/
theorem State.Ended.exists_eof {s : State} (h : s.Ended) :
    ∃ w stop, s.tokens = w ++ [stop] ∧ stop.kind = .eof := by
  obtain ⟨stop, hlast, hkind⟩ := Option.map_eq_some_iff.1 h
  obtain ⟨w, hw⟩ := List.getLast?_eq_some_iff.1 hlast
  exact ⟨w, stop, hw, hkind⟩

/-- What the scans ahead decide does not depend on what would stand behind the end of the input. -/
theorem scans_of_ended {s : State} (h : s.Ended) (more : List Token) :
    looksLikeDeclaration (s.tokens ++ more) = looksLikeDeclaration s.tokens ∧
    (∀ depth, skipAngles depth (s.tokens ++ more) =
      (skipAngles depth s.tokens).map (· ++ more)) ∧
    ∀ braces parens, domMembersIn braces parens (s.tokens ++ more) =
      domMembersIn braces parens s.tokens := by
  obtain ⟨w, stop, hw, heof⟩ := h.exists_eof
  have hstop : stop.kind.endsType = true := by rw [heof]; rfl
  rw [hw, List.append_assoc]
  refine ⟨looksLikeDeclaration_before hstop w _ _, fun depth => ?_, fun braces parens => ?_⟩
  · obtain ⟨o, ho⟩ := skipAngles_before hstop depth w
    show skipAngles depth (w ++ stop :: more) = _
    rw [ho, ho []]
    cases o <;> simp
  · exact domMembersIn_before heof braces parens w more

/-- The cursor never leaves the token vector, and what is left begins at it. -/
theorem Steps.cursor_eq {tokens : List Token} {s : State} (h : Steps (.ofTokens tokens) s) :
    cursor tokens s < (State.ofTokens tokens).tokens.length ∧
      s.tokens = (State.ofTokens tokens).tokens.drop (cursor tokens s) := by
  obtain ⟨taken, htaken⟩ := h.tokens_suffix
  have hlength : cursor tokens s = taken.length := by
    rw [cursor, ← htaken, List.length_append]
    omega
  rw [hlength, ← htaken]
  refine ⟨?_, by simp⟩
  rw [List.length_append, s.length_tokens]
  omega

/-- What breaks off has come to a broken literal of the list. -/
theorem exists_broken_of_unreported {tokens : List Token} {e : CompileError}
    (h : parseTokens tokens = .error e) (he : e.cause.isReported = false) :
    ∃ t ∈ tokens, IsBroken t ∧ e = .atToken (.brokenLiteral t.text) t := by
  obtain ⟨s, hrun⟩ : ∃ s, compilationUnit (.ofTokens tokens) = .error e s := by
    unfold parseTokens at h
    split at h
    · cases h
    · cases h
      exact ⟨_, ‹_›⟩
  have hcomplains : Complains compilationUnit := compositional_complains.compilationUnit (n := 0)
  obtain ⟨t, hbroken, rfl⟩ := hcomplains.exists_broken hrun he
  obtain ⟨cause, u, hu, heq⟩ := exists_mem_of_error hrun
  obtain rfl : t = u := Option.some.inj (congrArg CompileError.token heq)
  refine ⟨t, ?_, hbroken, rfl⟩
  -- The end of the input, which may be added to the list, is no literal.
  rcases terminate_eq_or .none tokens with hsame | ⟨p, hadded⟩
  · rwa [show (State.ofTokens tokens).tokens = tokens from hsame] at hu
  · rw [show (State.ofTokens tokens).tokens = tokens ++ [.endOfInput p] from hadded,
      List.mem_append, List.mem_singleton] at hu
    rcases hu with hu | rfl
    · exact hu
    · exact absurd hbroken.1 (by simp [Token.endOfInput])

/-- A scan gives literals with their quotes on, which are characters of one byte. -/
theorem not_isBroken_of_tokenize {source : String} {tokens : List Token}
    (h : tokenize source = .ok tokens) : ∀ t ∈ tokens, ¬ IsBroken t := by
  intro t ht hbroken
  obtain ⟨value, hvalue⟩ := literalValue?_of_tokenize h ht hbroken.1
  rw [Escape.literalValue?_eq_none_iff.2 hbroken.2] at hvalue
  cases hvalue

/-- A parse makes progress and ends, whatever its tokens are. It ends with a unit or an error
that is reported, unless it comes to a literal whose quotes cannot be taken off. -/
theorem progress (tokens : List Token) : Progress tokens := by
  have hended {s : State} (h : Steps (.ofTokens tokens) s) : s.Ended :=
    h.ended (ended_ofTokens tokens)
  refine {
    terminated := ⟨ended_ofTokens tokens, terminate_eq_or .none tokens⟩
    reached := fun h => (h.progresses (K := noKind)).runs
    reached_unit := (compositional_progresses.compilationUnit (n := 0)).runs
    cursor_lt := fun s hs => hs.cursor_eq
    cursor_le := fun s t _ hst => Nat.sub_le_sub_left hst.tokens_suffix.length_le _
    cursor_advances := fun hp s a t hs hrun => ?_
    loops := fun h s hs => loop_many h.progresses.runs
      (fun t ht hmore => h.progresses.advances t ht ⟨t, rfl, hmore⟩) (hended hs)
    commaLoops := fun h _ s hs =>
      commaLoop_commaList h.progresses.runs h.progresses.advances (hended hs)
    braceLoops := fun s hs => braceLoop_closeBraces (by decide) (hended hs)
    returns := fun htokens e he => ?_
    scanned := fun _ => not_isBroken_of_tokenize
    breaks := fun e => exists_broken_of_unreported
    breaks_at := fun s _ hbroken hdepth power => ⟨_, expr_of_isBroken hbroken hdepth power⟩
    scans := fun s hs => scans_of_ended (hended hs) }
  · have hadvances := (hp.progresses.advances s (hended hs) (K := anyKind) trivial).of_eq_ok hrun
    have hle := hs.remaining_le
    rw [cursor, cursor, State.length_tokens, State.length_tokens, State.length_tokens]
    omega
  · cases hreported : e.cause.isReported with
    | true => rfl
    | false =>
      obtain ⟨t, ht, hbroken, -⟩ := exists_broken_of_unreported he hreported
      exact absurd hbroken (htokens t ht)

/-- A string token that is one character of two bytes: the parse of a field with this value
breaks off without an answer. -/
theorem broken_literal_unanswered :
    ∃ e, parseTokens [⟨.kwClass, "class", .none⟩, ⟨.identifier, "A", .none⟩,
        ⟨.openCurly, "\x7b", .none⟩, ⟨.identifier, "string", .none⟩, ⟨.identifier, "x", .none⟩,
        ⟨.assignment, "=", .none⟩, ⟨.string, "é", .none⟩, ⟨.semicolon, ";", .none⟩,
        ⟨.closeCurly, "\x7d", .none⟩] = .error e ∧
      e = .atToken (.brokenLiteral "é") ⟨.string, "é", .none⟩ ∧ e.cause.isReported = false :=
  exists_eq_error (by decide +kernel)

end ClassScript.Parse

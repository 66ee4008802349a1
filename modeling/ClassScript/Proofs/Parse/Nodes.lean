import ClassScript.Proofs.Parse.Outcome
import ClassScript.Proofs.Tree.Subexpression

/-!
# The nodes that the parser builds

The parser of expressions makes a node in two places only: where an expression
begins and where one is continued. `Begins` and `Continues` list the nodes that
can come out there, with all that the parser has checked about them, and
`returns_beginning` and `returns_continuation` say that nothing else does.

`returns_exprWithin` is the induction over precedence climbing, done once: a
property of what an operand may be follows from what the two kinds of steps do
to it. It carries the levels of nesting that are left, so that bounds can be
proved with it, and not only properties of single nodes. It also carries a
property of the state that reading keeps (`State.Kept`), so that a node can be
compared with the names in scope where it was built.
-/

namespace ClassScript.Parse

variable {T : Token → Prop} {S : State → Prop}

/-- Of an error nothing is asked. -/
def anyError (_ : CompileError) (_ : State) : Prop := True

/-- What holds of every value holds of a returned one. -/
theorem outcome_any {α : Type} {ok : α → State → Prop} {r : EStateM.Result CompileError State α}
    (h : ∀ a s, ok a s) : Outcome ok anyError r := by
  cases r with
  | ok a s => exact h a s
  | error e s => trivial

/-! ### The tokens that are left and the state -/

/-- All tokens from the one at hand on satisfy `T`. -/
def State.Over (T : Token → Prop) (s : State) : Prop :=
  ∀ t ∈ s.tokens, T t

/-- Nothing is asked of a state. -/
def anyState (_ : State) : Prop := True

/-- What is kept when a token is read and when the depth changes, which is all that the
parser of expressions does to its state. -/
class State.Kept (S : State → Prop) : Prop where
  next {s : State} : S s → S s.next
  withDepth {s : State} (n : Nat) : S s → S { s with depth := n }

instance : State.Kept anyState := ⟨fun _ => trivial, fun _ _ => trivial⟩

/-- All tokens from the one at hand on satisfy `T`, and the state satisfies `S`. -/
structure State.Under (T : Token → Prop) (S : State → Prop) (s : State) : Prop where
  tokens : s.Over T
  holds : S s

namespace State

variable {s : State}

/-- Reading goes on to the next token, or stays at the last. -/
theorem next_tokens (s : State) : s.next.tokens = s.tokens ∨ s.next.tokens = s.following := by
  unfold next
  split
  · exact .inl rfl
  · split
    · exact .inl rfl
    · rename_i hfollowing
      exact .inr hfollowing.symm

theorem Over.current (h : s.Over T) : T s.current := h _ List.mem_cons_self

/-- No token is added. -/
theorem Over.next (h : s.Over T) : s.next.Over T := by
  intro t ht
  rcases s.next_tokens with heq | heq
  · exact h t (heq ▸ ht)
  · exact h t (List.mem_cons_of_mem _ (heq ▸ ht))

theorem Over.withDepth (h : s.Over T) (n : Nat) : ({ s with depth := n } : State).Over T := h

theorem Over.withScope (h : s.Over T) (c : Scope) : ({ s with scope := c } : State).Over T := h

/-- If nothing is asked of the state, the tokens are enough. -/
theorem Over.under (h : s.Over T) : s.Under T anyState := ⟨h, trivial⟩

theorem Under.next [Kept S] (h : s.Under T S) : s.next.Under T S :=
  ⟨h.tokens.next, Kept.next h.holds⟩

theorem Under.withDepth [Kept S] (h : s.Under T S) (n : Nat) :
    ({ s with depth := n } : State).Under T S :=
  ⟨h.tokens, Kept.withDepth n h.holds⟩

end State

/-! ### Names and types -/

/-- `name` is the text of an identifier. -/
def Named (T : Token → Prop) (name : String) : Prop :=
  ∃ t, T t ∧ t.kind = .identifier ∧ t.text = name

/-- `name` is made of the texts of identifiers, with points between them. -/
inductive Dotted (T : Token → Prop) : String → Prop
  | single {name : String} : Named T name → Dotted T name
  | point {front name : String} : Dotted T front → Named T name → Dotted T (front ++ "." ++ name)

/-- The text of an identifier is a name. -/
theorem State.Under.named {s : State} (h : s.Under T S) (hk : s.kind = .identifier) :
    Named T s.current.text :=
  ⟨s.current, h.tokens.current, hk, rfl⟩

/-- Names are joined from the left. -/
theorem dotted_foldl {others : List Token} {front : String}
    (hothers : ∀ t ∈ others, T t ∧ t.kind = .identifier) (hfront : Dotted T front) :
    Dotted T (others.foldl (fun name t => name ++ "." ++ t.text) front) := by
  induction others generalizing front with
  | nil => exact hfront
  | cons t others ih =>
    obtain ⟨ht, hothers⟩ := List.forall_mem_cons.1 hothers
    exact ih hothers (.point hfront ⟨t, ht.1, ht.2, rfl⟩)

variable [State.Kept S]

/-- A dotted name is made of identifiers of the input. -/
theorem returns_dottedName (expected : String) {s : State} (hs : s.Under T S) :
    Outcome (fun name s' => Dotted T name ∧ s'.Under T S) anyError (dottedName expected s) := by
  have round : ∀ t : State, t.Under T S → (decide (t.kind = .dot)) = true →
      Outcome (fun u t' => (T u ∧ u.kind = .identifier) ∧ t'.Under T S) anyError
        ((advance >>= fun _ => expect .identifier) t) := by
    intro t ht _
    rw [outcome_bind, outcome_advance, outcome_expect]
    exact ⟨fun hk => ⟨⟨ht.next.tokens.current, hk⟩, ht.next.next⟩, fun _ => trivial⟩
  unfold dottedName
  rw [outcome_bind, outcome_expectDescribed]
  refine ⟨fun hk => ?_, fun _ => trivial⟩
  rw [outcome_bind]
  refine (outcome_many round s.next hs.next).mono fun others s' h => ?_
  exact ⟨dotted_foldl h.1 (.single (hs.named hk)), h.2⟩

/-- The name of a type is a dotted name, whatever its arguments are. -/
theorem returns_namedTypeOf {argument : Parse TypeRef}
    (hargument : ∀ s : State, s.Under T S →
      Outcome (fun t s' => Dotted T t.name ∧ s'.Under T S) anyError (argument s))
    {s : State} (hs : s.Under T S) :
    Outcome (fun t s' => Dotted T t.name ∧ s'.Under T S) anyError (namedTypeOf argument s) := by
  unfold namedTypeOf
  rw [outcome_bind, outcome_position, outcome_bind]
  refine (returns_dottedName "type" hs).mono fun name s₁ h₁ => ?_
  rw [outcome_bind, outcome_accept]
  refine ⟨fun _ => ?_, fun _ => ⟨h₁.1, h₁.2⟩⟩
  simp only [if_true, outcome_bind]
  refine (outcome_commaSeparated (fun _ h => h.next) hargument s₁.next h₁.2.next).mono
    fun arguments s₂ h₂ => ?_
  rw [outcome_expect]
  exact ⟨fun _ => ⟨h₁.1, h₂.2.next⟩, fun _ => trivial⟩

theorem returns_typeSuffix {s : State} (hs : s.Under T S) :
    Outcome (fun _ s' => True ∧ s'.Under T S) anyError (typeSuffix s) := by
  unfold typeSuffix
  rw [outcome_bind, outcome_kind, outcome_ite]
  refine ⟨fun _ => ⟨trivial, hs.next⟩, fun _ => ?_⟩
  simp only [outcome_bind, outcome_expect]
  exact ⟨fun _ => ⟨fun _ => ⟨trivial, hs.next.next⟩, fun _ => trivial⟩, fun _ => trivial⟩

theorem withSuffix_name (t : TypeRef) (suffix : TypeSuffix × Position) :
    (withSuffix t suffix).name = t.name := by
  obtain ⟨suffix, stop⟩ := suffix
  cases suffix <;> rfl

/-- Suffixes leave the name as it is. -/
theorem foldl_withSuffix_name (suffixes : List (TypeSuffix × Position)) (t : TypeRef) :
    (suffixes.foldl withSuffix t).name = t.name := by
  induction suffixes generalizing t with
  | nil => rfl
  | cons suffix suffixes ih => rw [List.foldl_cons, ih, withSuffix_name]

/-- By induction on the levels that are left. -/
theorem returns_typeWithin (budget : Nat) (power : Power) {s : State} (hs : s.Under T S) :
    Outcome (fun t s' => Dotted T t.name ∧ s'.Under T S) anyError (typeWithin budget power s) := by
  induction budget generalizing power s with
  | zero => exact trivial
  | succ budget ih =>
    unfold typeWithin
    rw [outcome_bind, outcome_deepen]
    refine ⟨fun _ => ?_, fun _ => trivial⟩
    rw [outcome_bind, outcome_kind, outcome_ite]
    refine ⟨fun _ => trivial, fun _ => ?_⟩
    rw [outcome_bind]
    refine (returns_namedTypeOf (fun _ h => ih .default h) (hs.withDepth _)).mono fun t s₁ h₁ => ?_
    rw [outcome_bind]
    refine (outcome_many (fun _ h _ => returns_typeSuffix h) s₁ h₁.2).mono fun suffixes s₂ h₂ => ?_
    rw [outcome_bind, outcome_surface, outcome_pure, foldl_withSuffix_name]
    exact ⟨h₁.1, h₂.2.withDepth _⟩

theorem returns_typeRef (power : Power) {s : State} (hs : s.Under T S) :
    Outcome (fun t s' => Dotted T t.name ∧ s'.Under T S) anyError (typeRef power s) :=
  returns_typeWithin s.budget power hs

/-! ### Where an expression begins -/

/-- The expression that a token is by itself. -/
inductive Single (t : Token) : Expr → Prop
  | number {value : Binary64} : t.kind = .number → Binary64.ofText? t.text = some value →
      Single t (.literal (.number value) t.span)
  | string {value : String} : t.kind = .string ∨ t.kind = .char →
      Escape.literalValue? t.text = some value → Single t (.literal (.string value) t.span)
  | boolean {value : Bool} : t.kind = (if value then .kwTrue else .kwFalse) →
      Single t (.literal (.boolean value) t.span)
  | null : t.kind = .kwNull → Single t (.literal .null t.span)
  | identifier : t.kind = .identifier → Single t (.identifier t.text t.span)
  | this : t.kind = .kwThis → Single t (.this t.span)
  | base : t.kind = .kwBase → Single t (.base t.span)

/-- A token alone is a literal, a name or one of two words. -/
theorem single_of_primaryOf {t : Token} {e : Expr} (h : primaryOf t = .ok e) : Single t e := by
  unfold primaryOf at h
  split at h
  case h_1 hkind =>
    split at h
    · cases h
      exact .number hkind ‹_›
    · cases h
  case h_2 hkind | h_3 hkind =>
    split at h
    · cases h
      exact .string (by simp [hkind]) ‹_›
    · cases h
  case h_10 => cases h
  all_goals cases h
  case h_4 hkind | h_5 hkind => exact .boolean hkind
  case h_6 hkind => exact .null hkind
  case h_7 hkind => exact .identifier hkind
  case h_8 hkind => exact .this hkind
  case h_9 hkind => exact .base hkind

theorem Single.kind_ne_eof {t : Token} {e : Expr} (h : Single t e) : t.kind ≠ .eof := by
  cases h with
  | string hkind => rcases hkind with hkind | hkind <;> simp [hkind]
  | @boolean value hkind => cases value <;> simp [hkind]
  | number hkind | null hkind | identifier hkind | this hkind | base hkind => simp [hkind]

/-- The nodes that can begin an expression whose operands satisfy `A`. -/
inductive Begins (T : Token → Prop) (A : Expr → Prop) : Expr → Prop
  | token {t : Token} {e : Expr} : T t → Single t e → Begins T A e
  | prefixed {e : Expr} (op : UnaryOp) (span : Span) : A e → Begins T A (.unary op e span)
  | group {e : Expr} : A e → Begins T A e
  | create {type : TypeRef} {arguments : List Expr} (span : Span) : Dotted T type.name →
      isPlainElement type = false → (∀ a ∈ arguments, A a) →
      Begins T A (.create type arguments span)
  | domCreate {element : String} {arguments : List Expr} (span : Span) : Dotted T element →
      Dom.isElement element = true → (∀ a ∈ arguments, A a) →
      Begins T A (.domCreate element arguments span)

section

variable {A : Expr → Prop} {operand : Operand}
  (hoperand : ∀ (p : Power) (s : State), s.Under T S →
    Outcome (fun e s' => A e ∧ s'.Under T S) anyError (operand p s))

include hoperand

/-- The arguments are operands. -/
theorem returns_arguments {s : State} (hs : s.Under T S) :
    Outcome (fun es s' => (∀ e ∈ es, A e) ∧ s'.Under T S) anyError (arguments operand s) := by
  unfold arguments
  rw [outcome_bind, outcome_expect]
  refine ⟨fun _ => ?_, fun _ => trivial⟩
  rw [outcome_bind]
  refine (outcome_commaList (fun _ h => h.next) (hoperand .default) s.next hs.next).mono
    fun es s₁ h₁ => ?_
  rw [outcome_bind, outcome_expectDescribed]
  exact ⟨fun _ => ⟨h₁.1, h₁.2.next⟩, fun _ => trivial⟩

omit hoperand in
/-- An expression of one token, which is one of the input. -/
theorem returns_primary {s : State} (hs : s.Under T S) :
    Outcome (fun e s' => Begins T A e ∧ s'.Under T S) anyError (primary s) := by
  unfold primary
  rw [outcome_bind, outcome_advance]
  cases he : primaryOf s.current with
  | ok e => exact ⟨.token hs.tokens.current (single_of_primaryOf he), hs.next⟩
  | error e => exact trivial

/-- An operator before an operand. -/
theorem returns_prefixed {s : State} (hs : s.Under T S) :
    Outcome (fun e s' => Begins T A e ∧ s'.Under T S) anyError (prefixed operand s) := by
  unfold prefixed
  rw [outcome_bind, outcome_advance, outcome_bind]
  exact (hoperand .unary s.next hs.next).mono fun e s₁ h₁ => ⟨.prefixed _ _ h₁.1, h₁.2⟩

theorem returns_grouping {s : State} (hs : s.Under T S) :
    Outcome (fun e s' => A e ∧ s'.Under T S) anyError (grouping operand s) := by
  unfold grouping
  rw [outcome_bind, outcome_expect]
  refine ⟨fun _ => ?_, fun _ => trivial⟩
  rw [outcome_bind]
  refine (hoperand .default s.next hs.next).mono fun e s₁ h₁ => ?_
  rw [outcome_bind, outcome_expect]
  exact ⟨fun _ => ⟨h₁.1, h₁.2.next⟩, fun _ => trivial⟩

/-- What is created is told apart by its type. -/
theorem returns_creation {s : State} (hs : s.Under T S) :
    Outcome (fun e s' => Begins T A e ∧ s'.Under T S) anyError (creation operand s) := by
  unfold creation
  rw [outcome_bind, outcome_expect]
  refine ⟨fun _ => ?_, fun _ => trivial⟩
  rw [outcome_bind]
  refine (returns_typeRef .default hs.next).mono fun type s₁ h₁ => ?_
  rw [outcome_bind]
  refine (returns_arguments hoperand h₁.2).mono fun arguments s₂ h₂ => ?_
  rw [outcome_bind, outcome_spanFrom, outcome_pure]
  refine ⟨?_, h₂.2⟩
  -- A new element has a node of its own.
  split
  · rename_i hplain
    simp only [isPlainElement, Bool.and_eq_true] at hplain
    exact .domCreate _ h₁.1 hplain.1.1.1 h₂.1
  · rename_i hplain
    exact .create _ h₁.1 (Bool.eq_false_iff.2 hplain) h₂.1

/-- Nothing but the nodes listed begins an expression. -/
theorem returns_beginning {s : State} (hs : s.Under T S) :
    Outcome (fun e s' => Begins T A e ∧ s'.Under T S) anyError (beginning operand s) := by
  unfold beginning
  rw [outcome_bind, outcome_kind]
  generalize s.kind = k
  split
  any_goals exact returns_primary hs
  · exact returns_prefixed hoperand hs
  · exact returns_prefixed hoperand hs
  · exact (returns_grouping hoperand hs).mono fun e s₁ h₁ => ⟨.group h₁.1, h₁.2⟩
  · exact returns_creation hoperand hs
  · exact trivial

end

/-! ### Where an expression is continued -/

/-- The callee is neither a host form nor a property of an element, which make
nodes of their own when they are called. -/
def isPlainCallee (callee : Expr) : Bool :=
  match callee with
  | .domProperty .. => false
  | _ => hostMember? callee ≠ some "Call" && hostMember? callee ≠ some "Set"

/-- The nodes that can continue `left`, where operands satisfy `A`. -/
inductive Continues (T : Token → Prop) (S : State → Prop) (A : Expr → Prop) (left : Expr) :
    Expr → Prop
  | binary {right : Expr} (op : BinaryOp) (span : Span) : A right →
      Continues T S A left (.binary op left right span)
  | assign {right : Expr} (op : AssignOp) (span : Span) : left.isAssignable = true → A right →
      Continues T S A left (.assign op left right span)
  | update (op : UpdateOp) (span : Span) : left.isAssignable = true →
      Continues T S A left (.update op left span)
  | call {arguments : List Expr} (span : Span) : isPlainCallee left = true →
      (∀ a ∈ arguments, A a) → Continues T S A left (.call left arguments span)
  | hostCall {path : String} {arguments : List Expr} (span : Span) :
      (∀ a ∈ arguments, A a) → Continues T S A left (.hostCall path arguments span)
  | hostSet {object property value : Expr} (span : Span) : A object → A property → A value →
      Continues T S A left (.hostSet object property value span)
  | domCall {object : Expr} {property : String} {inner : Span} {arguments : List Expr}
      (span : Span) : left = .domProperty object property inner → (∀ a ∈ arguments, A a) →
      Continues T S A left (.domCall object property arguments span)
  | member {name : String} (nameSpan span : Span) : Named T name →
      (∃ s : State, S s ∧ s.scope.isDomValue left = false) →
      Continues T S A left (.member left name nameSpan span)
  | domProperty {name : String} (span : Span) : Named T name →
      (∃ s : State, S s ∧ s.scope.isDomValue left = true) →
      Continues T S A left (.domProperty left name span)
  | index {key : Expr} (span : Span) : A key → Continues T S A left (.index left key span)

section

variable {A : Expr → Prop} {left : Expr}

omit [State.Kept S] in
/-- A call is told apart by what is called. -/
theorem continues_callOf {arguments : List Expr} {span : Span} {paren first : Token} {e : Expr}
    (harguments : ∀ a ∈ arguments, A a) (he : callOf left arguments span paren first = .ok e) :
    Continues T S A left e := by
  unfold callOf at he
  -- A call of the host takes the path from its first argument, and all that is set on
  -- the host comes from the arguments.
  split at he
  · split at he
    · cases he
      exact .hostCall _ (List.forall_mem_cons.1 harguments).2
    · cases he
  · split at he
    · cases he
      simp only [List.forall_mem_cons] at harguments
      exact .hostSet _ harguments.1 harguments.2.1 harguments.2.2.1
    · cases he
  · rename_i hcall hset
    split at he
    · cases he
      exact .domCall _ rfl harguments
    · rename_i hdom
      cases he
      refine .call _ ?_ harguments
      unfold isPlainCallee
      split
      · exact absurd rfl (hdom _ _ _)
      · simpa using ⟨hcall, hset⟩

/-- A member is told apart by whether it is one of an element. -/
theorem returns_member {s : State} (hs : s.Under T S) :
    Outcome (fun e s' => Continues T S A left e ∧ s'.Under T S) anyError (member left s) := by
  unfold member
  rw [outcome_bind, outcome_expect]
  refine ⟨fun _ => ?_, fun _ => trivial⟩
  rw [outcome_bind, outcome_expectDescribed]
  refine ⟨fun hk => ?_, fun _ => trivial⟩
  rw [outcome_bind, outcome_get, outcome_pure]
  refine ⟨?_, hs.next.next⟩
  split
  · rename_i hdom
    exact .domProperty _ (hs.next.named hk) ⟨_, hs.next.next.holds, hdom⟩
  · rename_i hplain
    exact .member _ _ (hs.next.named hk) ⟨_, hs.next.next.holds, Bool.eq_false_iff.2 hplain⟩

/-- An assignment goes on only if its left side can be assigned to. -/
theorem returns_assigning {s : State} (hs : s.Under T S) :
    Outcome (fun _ s' => left.isAssignable = true ∧ s'.Under T S) anyError (assigning left s) := by
  unfold assigning
  rw [outcome_bind, outcome_advance, outcome_ite]
  exact ⟨fun h => ⟨h, hs.next⟩, fun _ => trivial⟩

theorem returns_update {s : State} (hs : s.Under T S) :
    Outcome (fun e s' => Continues T S A left e ∧ s'.Under T S) anyError (update left s) := by
  unfold update
  rw [outcome_bind]
  exact (returns_assigning hs).mono fun mark s₁ h₁ => ⟨.update _ _ h₁.1, h₁.2⟩

variable {operand : Operand}
  (hoperand : ∀ (p : Power) (s : State), s.Under T S →
    Outcome (fun e s' => A e ∧ s'.Under T S) anyError (operand p s))

include hoperand

/-- The right side is an operand. -/
theorem returns_binary (power : Power) {s : State} (hs : s.Under T S) :
    Outcome (fun e s' => Continues T S A left e ∧ s'.Under T S) anyError
      (binary operand left power s) := by
  unfold binary
  rw [outcome_bind, outcome_kind]
  generalize s.kind.binaryOp? = op?
  split
  · exact trivial
  · rw [outcome_bind, outcome_advance, outcome_bind]
    exact (hoperand power s.next hs.next).mono fun right s₁ h₁ => ⟨.binary _ _ h₁.1, h₁.2⟩

theorem returns_coalesce {s : State} (hs : s.Under T S) :
    Outcome (fun e s' => Continues T S A left e ∧ s'.Under T S) anyError
      (coalesce operand left s) := by
  unfold coalesce
  rw [outcome_bind, outcome_expect]
  refine ⟨fun _ => ?_, fun _ => trivial⟩
  rw [outcome_bind]
  exact (hoperand .assignment s.next hs.next).mono fun right s₁ h₁ => ⟨.binary _ _ h₁.1, h₁.2⟩

theorem returns_assignment {s : State} (hs : s.Under T S) :
    Outcome (fun e s' => Continues T S A left e ∧ s'.Under T S) anyError
      (assignment operand left s) := by
  unfold assignment
  rw [outcome_bind]
  refine (returns_assigning hs).mono fun mark s₁ h₁ => ?_
  rw [outcome_bind]
  exact (hoperand .default s₁ h₁.2).mono fun right s₂ h₂ => ⟨.assign _ _ h₁.1 h₂.1, h₂.2⟩

/-- Between its parentheses a call holds operands. -/
theorem returns_call {s : State} (hs : s.Under T S) :
    Outcome (fun e s' => Continues T S A left e ∧ s'.Under T S) anyError (call operand left s) := by
  unfold call
  rw [outcome_bind, outcome_get, outcome_bind]
  refine (returns_arguments hoperand hs).mono fun arguments s₁ h₁ => ?_
  rw [outcome_bind, outcome_spanFrom]
  cases he : callOf left arguments (s₁.spanFrom left.span.start) s.current (s.peek 1) with
  | ok e => exact ⟨continues_callOf h₁.1 he, h₁.2⟩
  | error e => exact trivial

/-- Between its brackets an index is an operand. -/
theorem returns_index {s : State} (hs : s.Under T S) :
    Outcome (fun e s' => Continues T S A left e ∧ s'.Under T S) anyError
      (index operand left s) := by
  unfold index
  rw [outcome_bind, outcome_expect]
  refine ⟨fun _ => ?_, fun _ => trivial⟩
  rw [outcome_bind]
  refine (hoperand .default s.next hs.next).mono fun key s₁ h₁ => ?_
  rw [outcome_bind, outcome_expect]
  exact ⟨fun _ => ⟨.index _ h₁.1, h₁.2.next⟩, fun _ => trivial⟩

/-- Nothing but the nodes listed continues an expression. -/
theorem returns_continuation (power : Power) {s : State} (hs : s.Under T S) :
    Outcome (fun e s' => Continues T S A left e ∧ s'.Under T S) anyError
      (continuation operand left power s) := by
  unfold continuation
  rw [outcome_bind, outcome_kind]
  generalize s.kind = k
  split
  any_goals exact returns_assignment hoperand hs
  · exact returns_coalesce hoperand hs
  · exact returns_call hoperand hs
  · exact returns_update hs
  · exact returns_update hs
  · exact returns_member hs
  · exact returns_index hoperand hs
  · exact returns_binary hoperand power hs

end

/-! ### Precedence climbing -/

section

variable {A : Nat → Expr → Prop} {B : Nat → Expr → Prop}

/-- What a climb returns is what it started from, or came out of its last step.
`B m` is what is known of the expression at hand while `m` levels are left. -/
theorem returns_climb {budget : Nat}
    (step : ∀ m left e, m < budget → B (m + 1) left → Continues T S (A m) left e → B m e)
    (hoperand : ∀ m, m < budget → ∀ (p : Power) (s : State), s.Under T S →
      Outcome (fun e s' => A m e ∧ s'.Under T S) anyError (exprWithin m p s))
    (power : Power) {left : Expr} {s : State} (hleft : B budget left) (hs : s.Under T S) :
    Outcome (fun e s' => (∃ m, m ≤ budget ∧ B m e) ∧ s'.Under T S) anyError
      (climb budget power left s) := by
  induction budget generalizing left s with
  | zero =>
    -- With no level left, an operator that would be taken is an error.
    unfold climb
    rw [outcome_bind, outcome_kind]
    generalize s.kind.power? = own?
    split
    · exact ⟨⟨0, Nat.le_refl 0, hleft⟩, hs⟩
    · rw [outcome_ite]
      exact ⟨fun _ => trivial, fun _ => ⟨⟨0, Nat.le_refl 0, hleft⟩, hs⟩⟩
  | succ budget ih =>
    unfold climb
    rw [outcome_bind, outcome_kind]
    generalize s.kind.power? = own?
    split
    · exact ⟨⟨budget + 1, Nat.le_refl _, hleft⟩, hs⟩
    · rename_i own
      rw [outcome_ite]
      refine ⟨fun _ => ?_, fun _ => ⟨⟨budget + 1, Nat.le_refl _, hleft⟩, hs⟩⟩
      rw [outcome_bind, outcome_deepen]
      refine ⟨fun _ => ?_, fun _ => trivial⟩
      rw [outcome_bind]
      refine (returns_continuation (hoperand budget (Nat.lt_succ_self _)) own
        (hs.withDepth _)).mono fun longer s₁ h₁ => ?_
      have hlonger : B budget longer := step budget left longer (Nat.lt_succ_self _) hleft h₁.1
      rw [outcome_bind]
      refine (ih (fun m left e hm => step m left e (Nat.lt_succ_of_lt hm))
        (fun m hm => hoperand m (Nat.lt_succ_of_lt hm)) hlonger h₁.2).mono fun e s₂ h₂ => ?_
      obtain ⟨⟨m, hm, he⟩, hs₂⟩ := h₂
      exact ⟨⟨m, Nat.le_succ_of_le hm, he⟩, hs₂.withDepth _⟩

end

/-- The induction over precedence climbing. `A n` is to hold of every expression
read with `n` levels left. `B n m` is what holds, while an expression is read with
`n + 1` levels left, of the part read so far once `m` of them remain for operators. -/
theorem returns_exprWithin {A : Nat → Expr → Prop} {B : Nat → Nat → Expr → Prop}
    (first : ∀ n e, Begins T (A n) e → B n n e)
    (step : ∀ n m left e, m < n → B n (m + 1) left → Continues T S (A m) left e → B n m e)
    (last : ∀ n m e, m ≤ n → B n m e → A (n + 1) e)
    (budget : Nat) (power : Power) {s : State} (hs : s.Under T S) :
    Outcome (fun e s' => A budget e ∧ s'.Under T S) anyError (exprWithin budget power s) := by
  -- An operand is read with the levels that the operators before it have left over.
  induction budget using Nat.strongRecOn generalizing power s with
  | ind budget ih =>
    cases budget with
    | zero => exact trivial
    | succ n =>
      unfold exprWithin
      rw [outcome_bind, outcome_deepen]
      refine ⟨fun _ => ?_, fun _ => trivial⟩
      rw [outcome_bind]
      refine (returns_beginning (fun p s hs => ih n (Nat.lt_succ_self n) p hs)
        (hs.withDepth _)).mono fun left s₁ h₁ => ?_
      rw [outcome_bind]
      refine (returns_climb (step n) (fun m hm p s hs => ih m (Nat.lt_succ_of_lt hm) p hs) power
        (first n left h₁.1) h₁.2).mono fun e s₂ h₂ => ?_
      obtain ⟨⟨m, hm, he⟩, hs₂⟩ := h₂
      exact ⟨last n m e hm he, hs₂.withDepth _⟩

end ClassScript.Parse

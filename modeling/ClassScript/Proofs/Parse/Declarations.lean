import ClassScript.Parse.Decl
import ClassScript.Proofs.Parse.Nodes

/-!
# What stands in a parsed unit

Above the level of expressions the parser only collects: every expression of a
unit was returned by the parser of expressions, and every name of it is the text
of an identifier, or of several with points between them. So what is known of
all parsed expressions is known of all expressions of a unit
(`returns_compilationUnit`).
-/

namespace ClassScript.Parse

variable {α : Type} {T : Token → Prop} {S : State → Prop} {P : Expr → Prop}

/-- The expressions satisfy `P`, and the names are made of identifiers. -/
structure Made (T : Token → Prop) (P : Expr → Prop) (es : List Expr) (ns : List String) : Prop where
  expressions : ∀ e ∈ es, P e
  names : ∀ n ∈ ns, Dotted T n

namespace Made

theorem nil : Made T P [] [] := ⟨by simp, by simp⟩

theorem append {es fs : List Expr} {ns ms : List String} (h : Made T P es ns)
    (h' : Made T P fs ms) : Made T P (es ++ fs) (ns ++ ms) :=
  ⟨List.forall_mem_append.2 ⟨h.expressions, h'.expressions⟩,
    List.forall_mem_append.2 ⟨h.names, h'.names⟩⟩

/-- Another name made of identifiers. -/
theorem name {es : List Expr} {ns : List String} {n : String} (hn : Dotted T n)
    (h : Made T P es ns) : Made T P es (n :: ns) :=
  ⟨h.expressions, List.forall_mem_cons.2 ⟨hn, h.names⟩⟩

/-- What is made of several parts, if each of them is. -/
theorem flatMap {xs : List α} {f : α → List Expr} {g : α → List String}
    (h : ∀ x ∈ xs, Made T P (f x) (g x)) : Made T P (xs.flatMap f) (xs.flatMap g) := by
  induction xs with
  | nil => exact nil
  | cons x xs ih =>
    obtain ⟨hx, hxs⟩ := List.forall_mem_cons.1 h
    simp only [List.flatMap_cons]
    exact hx.append (ih hxs)

end Made

/-- What is kept by all that is done to the state in a member. A local is declared after its
type, its name and its first value are read. -/
class State.Lasting (S : State → Prop) : Prop extends State.Kept S where
  declareLocal {s s₁ s₂ s₃ : State} {type : TypeRef} {value : Option Expr} (dom : Bool) : S s →
    typeRef .default s = .ok type s₁ → s₁.kind = .identifier →
    initialValue s₁.next = .ok value s₂ → s₃ = s₂ ∨ s₃ = s₂.next → S s₃ →
    S { s₃ with scope := s₃.scope.declareLocal s₁.current.text dom }

instance : State.Lasting anyState where
  declareLocal _ _ _ _ _ _ _ := trivial

section

variable (hexpr : ∀ (p : Power) (s : State), s.Under T S →
  Outcome (fun e s' => P e ∧ s'.Under T S) anyError (expr p s))

include hexpr

/-! ### Statements -/

/-- There is at most one expression, behind an equals sign. -/
theorem returns_initialValue [State.Kept S] {s : State} (hs : s.Under T S) :
    Outcome (fun v s' => Made T P v.toList [] ∧ s'.Under T S) anyError (initialValue s) := by
  unfold initialValue
  rw [outcome_bind, outcome_accept]
  refine ⟨fun _ => ?_, fun _ => ⟨.nil, hs⟩⟩
  simp only [if_true, outcome_bind, outcome_pure]
  exact (hexpr .default _ hs.next).mono fun e s₁ h₁ => ⟨⟨by simpa using h₁.1, by simp⟩, h₁.2⟩

theorem returns_expressionStmt [State.Kept S] {s : State} (hs : s.Under T S) :
    Outcome (fun st s' => Made T P st.expressions st.names ∧ s'.Under T S) anyError
      (expressionStmt s) := by
  unfold expressionStmt
  rw [outcome_bind]
  refine (hexpr .default s hs).mono fun e s₁ h₁ => ?_
  rw [outcome_bind, outcome_expect]
  refine ⟨fun _ => ?_, fun _ => trivial⟩
  exact ⟨⟨by simpa [Stmt.expressions] using h₁.1, by simp [Stmt.names]⟩, h₁.2.next⟩

/-- A declaration changes the scope, which the property of states must allow. -/
theorem returns_localStmt [State.Lasting S] {s : State} (hs : s.Under T S) :
    Outcome (fun st s' => Made T P st.expressions st.names ∧ s'.Under T S) anyError
      (localStmt s) := by
  unfold localStmt
  rw [outcome_bind, outcome_position, outcome_bind]
  refine (returns_typeRef .default hs).and_eq.mono fun type s₁ h₁ => ?_
  obtain ⟨h₁, htype⟩ := h₁
  rw [outcome_bind, outcome_expectDescribed]
  refine ⟨fun hk => ?_, fun _ => trivial⟩
  have hname := Dotted.single (h₁.2.named hk)
  rw [outcome_bind]
  refine (returns_initialValue hexpr h₁.2.next).and_eq.mono fun value s₂ h₂ => ?_
  obtain ⟨h₂, hvalue⟩ := h₂
  rw [outcome_bind, outcome_expect]
  refine ⟨fun _ => ?_, fun _ => trivial⟩
  exact ⟨h₂.1.name hname, h₂.2.next.tokens,
    State.Lasting.declareLocal _ hs.holds htype hk hvalue (.inr rfl) h₂.2.next.holds⟩

omit hexpr in
/-- The rule for a body between braces, given the one for its statements. -/
theorem returns_blockOf [State.Kept S] {stmt : Parse Stmt}
    (hstmt : ∀ s : State, s.Under T S →
      Outcome (fun st s' => Made T P st.expressions st.names ∧ s'.Under T S) anyError (stmt s))
    {s : State} (hs : s.Under T S) :
    Outcome (fun b s' => Made T P b.expressions b.names ∧ s'.Under T S) anyError
      (blockOf stmt s) := by
  unfold blockOf
  rw [outcome_bind, outcome_expect]
  refine ⟨fun _ => ?_, fun _ => trivial⟩
  rw [outcome_bind]
  refine (outcome_many (fun s hs _ => hstmt s hs) s.next hs.next).mono fun body s₁ h₁ => ?_
  rw [outcome_bind, outcome_expect]
  refine ⟨fun _ => ?_, fun _ => trivial⟩
  refine ⟨?_, h₁.2.next⟩
  simp only [Block.expressions, Block.names, Stmt.expressionsOf_eq_flatMap, Stmt.namesOf_eq_flatMap]
  exact .flatMap h₁.1

theorem returns_returnStmt [State.Kept S] {s : State} (hs : s.Under T S) :
    Outcome (fun st s' => Made T P st.expressions st.names ∧ s'.Under T S) anyError
      (returnStmt s) := by
  unfold returnStmt
  rw [outcome_bind, outcome_expect]
  refine ⟨fun _ => ?_, fun _ => trivial⟩
  rw [outcome_bind, outcome_kind, outcome_ite]
  constructor
  · intro _
    rw [outcome_bind, outcome_pure, outcome_bind, outcome_expect]
    exact ⟨fun _ => ⟨.nil, hs.next.next⟩, fun _ => trivial⟩
  · intro _
    rw [outcome_bind, outcome_map]
    refine (hexpr .default _ hs.next).mono fun e s₁ h₁ => ?_
    rw [outcome_bind, outcome_expect]
    exact ⟨fun _ => ⟨⟨by simpa [Stmt.expressions] using h₁.1, by simp [Stmt.names]⟩, h₁.2.next⟩,
      fun _ => trivial⟩

/-- The statements that hold no others. -/
theorem returns_plainStmt [State.Lasting S] {s : State} (hs : s.Under T S) :
    Outcome (fun st s' => Made T P st.expressions st.names ∧ s'.Under T S) anyError
      (plainStmt s) := by
  unfold plainStmt
  rw [outcome_bind, outcome_get, outcome_ite]
  exact ⟨fun _ => returns_localStmt hexpr hs, fun _ => returns_expressionStmt hexpr hs⟩

/-- The expression is read and not kept. -/
theorem returns_optionalBefore [State.Kept S] (stop : Kind) {s : State} (hs : s.Under T S) :
    Outcome (fun _ s' => s'.Under T S) anyError (optionalBefore stop s) := by
  unfold optionalBefore
  rw [outcome_bind, outcome_kind, outcome_ite]
  constructor
  · intro _
    rw [outcome_bind]
    refine (hexpr .default s hs).mono fun e s₁ h₁ => ?_
    rw [outcome_bind, outcome_expect]
    exact ⟨fun _ => h₁.2.next, fun _ => trivial⟩
  · intro _
    rw [outcome_bind, outcome_expect]
    exact ⟨fun _ => hs.next, fun _ => trivial⟩

/-! ### Statements with statements in them -/

section

variable {stmt : Parse Stmt}
  (hstmt : ∀ s : State, s.Under T S →
    Outcome (fun st s' => Made T P st.expressions st.names ∧ s'.Under T S) anyError (stmt s))

include hstmt

/-- Given what holds of the statements inside. -/
theorem returns_ifStmt [State.Kept S] {s : State} (hs : s.Under T S) :
    Outcome (fun st s' => Made T P st.expressions st.names ∧ s'.Under T S) anyError
      (ifStmt stmt s) := by
  unfold ifStmt condition
  rw [outcome_bind, outcome_expect]
  refine ⟨fun _ => ?_, fun _ => trivial⟩
  rw [outcome_bind]
  refine (returns_grouping hexpr hs.next).mono fun _ s₁ h₁ => ?_
  rw [outcome_bind]
  refine (hstmt s₁ h₁.2).mono fun _ s₂ h₂ => ?_
  rw [outcome_bind, outcome_accept]
  refine ⟨fun _ => ?_, fun _ => ⟨.nil, h₂.2⟩⟩
  simp only [if_true, outcome_bind]
  exact (hstmt _ h₂.2.next).mono fun _ s₃ h₃ => ⟨.nil, h₃.2⟩

theorem returns_whileStmt [State.Kept S] {s : State} (hs : s.Under T S) :
    Outcome (fun st s' => Made T P st.expressions st.names ∧ s'.Under T S) anyError
      (whileStmt stmt s) := by
  unfold whileStmt condition
  rw [outcome_bind, outcome_expect]
  refine ⟨fun _ => ?_, fun _ => trivial⟩
  rw [outcome_bind]
  refine (returns_grouping hexpr hs.next).mono fun _ s₁ h₁ => ?_
  rw [outcome_bind]
  exact (hstmt s₁ h₁.2).mono fun _ s₂ h₂ => ⟨.nil, h₂.2⟩

theorem returns_forStmt [State.Lasting S] {s : State} (hs : s.Under T S) :
    Outcome (fun st s' => Made T P st.expressions st.names ∧ s'.Under T S) anyError
      (forStmt stmt s) := by
  have parts : ∀ s₁ : State, s₁.Under T S → Outcome
      (fun st s' => Made T P st.expressions st.names ∧ s'.Under T S) anyError
      ((optionalBefore .semicolon >>= fun _ => optionalBefore .closeParen >>= fun _ =>
        stmt >>= fun _ => spanFrom s.current.span.start >>= fun span =>
          pure (Stmt.unsupported .forLoop span)) s₁) := by
    intro s₁ h₁
    rw [outcome_bind]
    refine (returns_optionalBefore hexpr .semicolon h₁).mono fun _ s₂ h₂ => ?_
    rw [outcome_bind]
    refine (returns_optionalBefore hexpr .closeParen h₂).mono fun _ s₃ h₃ => ?_
    rw [outcome_bind]
    exact (hstmt s₃ h₃).mono fun _ s₄ h₄ => ⟨.nil, h₄.2⟩
  unfold forStmt
  rw [outcome_bind, outcome_expect]
  refine ⟨fun _ => ?_, fun _ => trivial⟩
  rw [outcome_bind, outcome_expect]
  refine ⟨fun _ => ?_, fun _ => trivial⟩
  rw [outcome_bind, outcome_accept]
  refine ⟨fun _ => parts _ hs.next.next.next, fun _ => ?_⟩
  -- A first statement that is there has read its own semicolon.
  simp only [Bool.not_false, if_true]
  rw [outcome_bind]
  exact (returns_plainStmt hexpr hs.next.next).mono fun _ s₁ h₁ => parts s₁ h₁.2

theorem returns_stmtOf [State.Lasting S] {s : State} (hs : s.Under T S) :
    Outcome (fun st s' => Made T P st.expressions st.names ∧ s'.Under T S) anyError
      (stmtOf stmt s) := by
  unfold stmtOf
  rw [outcome_bind, outcome_kind]
  generalize s.kind = k
  split
  · exact returns_returnStmt hexpr hs
  · exact returns_ifStmt hexpr hstmt hs
  · exact returns_whileStmt hexpr hstmt hs
  · exact returns_forStmt hexpr hstmt hs
  · unfold blockStmt
    rw [outcome_bind]
    exact (returns_blockOf hstmt hs).mono fun _ _ h => h
  · exact returns_plainStmt hexpr hs

end

/-- By induction on the depth that is left. -/
theorem returns_stmtWithin [State.Lasting S] (budget : Nat) (s : State) (hs : s.Under T S) :
    Outcome (fun st s' => Made T P st.expressions st.names ∧ s'.Under T S) anyError
      (stmtWithin budget s) := by
  induction budget generalizing s with
  | zero => exact trivial
  | succ budget ih =>
    unfold stmtWithin
    rw [outcome_bind, outcome_deepen]
    refine ⟨fun _ => ?_, fun _ => trivial⟩
    rw [outcome_bind]
    exact (returns_stmtOf hexpr ih (hs.withDepth _)).mono fun _ _ h => ⟨h.1, h.2.withDepth _⟩

theorem returns_block [State.Lasting S] {s : State} (hs : s.Under T S) :
    Outcome (fun b s' => Made T P b.expressions b.names ∧ s'.Under T S) anyError (block s) :=
  returns_blockOf (fun s hs => returns_stmtWithin hexpr s.budget s hs) hs

/-! ### Members -/

omit hexpr in
/-- Modifiers are no names. -/
theorem returns_modifiers [State.Kept S] {s : State} (hs : s.Under T S) :
    Outcome (fun _ s' => s'.Under T S) anyError (modifiers s) := by
  have round : ∀ t : State, t.Under T S → (t.kind.isModifier) = true →
      Outcome (fun _ t' => True ∧ t'.Under T S) anyError (advance t) :=
    fun t ht _ => ⟨trivial, ht.next⟩
  unfold modifiers
  rw [outcome_bind]
  exact (outcome_many round s hs).mono fun _ _ h => h.2

/-- A parameter has a name, and sometimes a first value. -/
theorem returns_parameter [State.Lasting S] (s : State) (hs : s.Under T S) :
    Outcome (fun p s' => Made T P p.defaultValue.toList [p.name] ∧ s'.Under T S) anyError
      (parameter s) := by
  unfold parameter
  rw [outcome_bind, outcome_position, outcome_bind]
  refine (returns_typeRef .default hs).and_eq.mono fun type s₁ h₁ => ?_
  obtain ⟨h₁, htype⟩ := h₁
  rw [outcome_bind, outcome_expectDescribed]
  refine ⟨fun hk => ?_, fun _ => trivial⟩
  have hname := Dotted.single (h₁.2.named hk)
  rw [outcome_bind]
  refine (returns_initialValue hexpr h₁.2.next).and_eq.mono fun value s₂ h₂ => ?_
  obtain ⟨h₂, hvalue⟩ := h₂
  exact ⟨h₂.1.name hname, h₂.2.tokens,
    State.Lasting.declareLocal _ hs.holds htype hk hvalue (.inl rfl) h₂.2.holds⟩

theorem returns_parameters [State.Lasting S] {s : State} (hs : s.Under T S) :
    Outcome (fun ps s' => Made T P (ps.flatMap (·.defaultValue.toList)) (ps.map Parameter.name) ∧
      s'.Under T S) anyError (parameters s) := by
  unfold parameters
  rw [outcome_bind, outcome_expect]
  refine ⟨fun _ => ?_, fun _ => trivial⟩
  rw [outcome_bind]
  refine (outcome_commaList (fun _ h => h.next) (returns_parameter hexpr) s.next hs.next).mono
    fun ps s₁ h₁ => ?_
  rw [outcome_bind, outcome_expectDescribed]
  refine ⟨fun _ => ⟨?_, h₁.2.next⟩, fun _ => trivial⟩
  rw [List.map_eq_flatMap]
  exact .flatMap h₁.1

/-- The arguments of a chained call are all that it holds. -/
theorem returns_constructorChain [State.Kept S] {s : State} (hs : s.Under T S) :
    Outcome (fun c s' => Made T P (c.toList.flatMap (·.arguments)) [] ∧ s'.Under T S) anyError
      (constructorChain s) := by
  have rest : ∀ (target : ChainTarget) (start : Position) (s₁ : State), s₁.Under T S → Outcome
      (fun c s' => Made T P (c.toList.flatMap (·.arguments)) [] ∧ s'.Under T S) anyError
      ((advance >>= fun _ => arguments expr >>= fun args => spanFrom start >>= fun span =>
        pure (some (ConstructorChain.mk target args span))) s₁) := by
    intro target start s₁ h₁
    rw [outcome_bind, outcome_advance, outcome_bind]
    refine (returns_arguments hexpr h₁.next).mono fun args s₂ h₂ => ?_
    exact ⟨⟨by simpa using h₂.1, by simp⟩, h₂.2⟩
  unfold constructorChain
  rw [outcome_bind, outcome_kind, outcome_ite]
  refine ⟨fun _ => ⟨.nil, hs⟩, fun _ => ?_⟩
  rw [outcome_bind, outcome_advance, outcome_bind, outcome_kind]
  generalize s.next.kind = k
  split
  · exact rest .base _ s.next hs.next
  · exact rest .this _ s.next hs.next
  · exact trivial

/-- A constructor is made of its parameters, its chained call and its body. -/
theorem returns_constructor [State.Lasting S] (m : Modifiers) (start : Position) {s : State}
    (hs : s.Under T S) :
    Outcome (fun k s' => Made T P k.expressions k.names ∧ s'.Under T S) anyError
      (constructor m start s) := by
  unfold constructor
  rw [outcome_bind, outcome_expect]
  refine ⟨fun hk => ?_, fun _ => trivial⟩
  have hname := Dotted.single (hs.named hk)
  rw [outcome_bind]
  refine (returns_parameters hexpr hs.next).mono fun ps s₁ h₁ => ?_
  rw [outcome_bind]
  refine (returns_constructorChain hexpr h₁.2).mono fun chain s₂ h₂ => ?_
  rw [outcome_bind]
  refine (returns_block hexpr h₂.2).mono fun body s₃ h₃ => ?_
  refine ⟨?_, h₃.2⟩
  have hall := ((h₁.1.append h₂.1).append h₃.1).name hname
  simpa [Member.expressions, Member.names] using hall

/-- A body may be missing, or be an expression behind an arrow. -/
theorem returns_methodBody [State.Lasting S] (isVoid : Bool) {s : State} (hs : s.Under T S) :
    Outcome (fun b s' => Made T P (b.toList.flatMap Block.expressions)
      (b.toList.flatMap Block.names) ∧ s'.Under T S) anyError (methodBody isVoid s) := by
  unfold methodBody
  rw [outcome_bind, outcome_kind]
  generalize s.kind = k
  split
  · rw [outcome_bind, outcome_advance]
    exact ⟨.nil, hs.next⟩
  · unfold expressionBody
    simp only [outcome_bind, outcome_expect]
    refine ⟨fun _ => ?_, fun _ => trivial⟩
    refine (hexpr .default _ hs.next).mono fun e s₁ h₁ => ?_
    refine ⟨fun _ => ?_, fun _ => trivial⟩
    cases isVoid <;>
      exact ⟨⟨by simpa [Block.expressions, Stmt.expressionsOf, Stmt.expressions] using h₁.1,
        by simp [Block.names, Stmt.namesOf, Stmt.names]⟩, h₁.2.next⟩
  · rw [outcome_bind]
    exact (returns_block hexpr hs).mono fun body s₁ h₁ => ⟨by simpa using h₁.1, h₁.2⟩

/-- The name was read before the parameters. -/
theorem returns_method [State.Lasting S] (m : Modifiers) (type : TypeRef) {name : String}
    (start : Position) (hname : Dotted T name) {s : State} (hs : s.Under T S) :
    Outcome (fun k s' => Made T P k.expressions k.names ∧ s'.Under T S) anyError
      (method m type name start s) := by
  unfold method
  rw [outcome_bind]
  refine (returns_parameters hexpr hs).mono fun ps s₁ h₁ => ?_
  rw [outcome_bind]
  refine (returns_methodBody hexpr type.isVoid h₁.2).mono fun body s₂ h₂ => ?_
  exact ⟨(h₁.1.append h₂.1).name hname, h₂.2⟩

omit hexpr in
/-- Only tokens of the input are passed over. -/
theorem closeBraces_over [State.Kept S] (depth : Nat) {s : State} (hs : s.Under T S) :
    (closeBraces depth s).1.Under T S := by
  fun_induction closeBraces depth s with
  | case1 _ _ _ _ ih => exact ih hs.next
  | case2 => exact hs.next
  | case3 _ _ _ _ _ ih => exact ih hs.next
  | case4 _ _ _ _ _ ih => exact ih hs.next
  | case5 => exact hs

omit hexpr in
/-- The body of an accessor is passed over, so it adds nothing. -/
theorem returns_skipBraced [State.Kept S] {s : State} (hs : s.Under T S) :
    Outcome (fun _ s' => s'.Under T S) anyError (skipBraced s) := by
  unfold skipBraced
  rw [outcome_bind, outcome_expect]
  refine ⟨fun _ => ?_, fun _ => trivial⟩
  rw [outcome_bind, outcome_get]
  have hclose := closeBraces_over 1 hs.next
  rw [outcome_bind, outcome_set, outcome_ite]
  exact ⟨fun _ => trivial, fun _ => hclose⟩

theorem returns_accessorBody [State.Kept S] {s : State} (hs : s.Under T S) :
    Outcome (fun _ s' => s'.Under T S) anyError (accessorBody s) := by
  unfold accessorBody
  rw [outcome_bind, outcome_kind]
  generalize s.kind = k
  split
  · exact hs.next
  · exact returns_skipBraced hs
  · rw [outcome_bind, outcome_advance, outcome_bind]
    refine (hexpr .default _ hs.next).mono fun e s₁ h₁ => ?_
    rw [outcome_bind, outcome_expect]
    exact ⟨fun _ => h₁.2.next, fun _ => trivial⟩
  · exact trivial

theorem returns_accessor [State.Kept S] (s : State) (hs : s.Under T S) :
    Outcome (fun _ s' => True ∧ s'.Under T S) anyError (accessor s) := by
  unfold accessor
  rw [outcome_bind]
  refine (returns_modifiers hs).mono fun _ s₁ h₁ => ?_
  rw [outcome_bind, outcome_get]
  generalize accessorOf? s₁.current = which?
  split
  · exact trivial
  · rw [outcome_bind, outcome_advance, outcome_bind]
    exact (returns_accessorBody hexpr h₁.next).mono fun _ s₂ h₂ => ⟨trivial, h₂⟩

/-- A property adds its name, and its first value if there is one. -/
theorem returns_property [State.Kept S] (m : Modifiers) (type : TypeRef) {name : String}
    (start : Position) (hname : Dotted T name) {s : State} (hs : s.Under T S) :
    Outcome (fun k s' => Made T P k.expressions k.names ∧ s'.Under T S) anyError
      (property m type name start s) := by
  unfold property
  rw [outcome_bind, outcome_expect]
  refine ⟨fun _ => ?_, fun _ => trivial⟩
  rw [outcome_bind]
  refine (outcome_many (fun s hs _ => returns_accessor hexpr s hs) s.next hs.next).mono
    fun accessors s₁ h₁ => ?_
  rw [outcome_bind, outcome_expect]
  refine ⟨fun _ => ?_, fun _ => trivial⟩
  rw [outcome_bind]
  refine (returns_initialValue hexpr h₁.2.next).mono fun value s₂ h₂ => ?_
  rw [outcome_ite]
  refine ⟨fun _ => ?_, fun _ => ⟨h₂.1.name hname, h₂.2⟩⟩
  rw [outcome_bind, outcome_expect]
  exact ⟨fun _ => ⟨h₂.1.name hname, h₂.2.next⟩, fun _ => trivial⟩

/-- A field adds the same. -/
theorem returns_field [State.Kept S] (m : Modifiers) (type : TypeRef) {name : String}
    (start : Position) (hname : Dotted T name) {s : State} (hs : s.Under T S) :
    Outcome (fun k s' => Made T P k.expressions k.names ∧ s'.Under T S) anyError
      (field m type name start s) := by
  unfold field
  rw [outcome_bind]
  refine (returns_initialValue hexpr hs).mono fun value s₁ h₁ => ?_
  rw [outcome_bind, outcome_expect]
  exact ⟨fun _ => ⟨h₁.1.name hname, h₁.2.next⟩, fun _ => trivial⟩

/-- Before a member the state need not satisfy more than `R`, if that is enough for `S` once
the locals of the member before are forgotten. -/
theorem returns_classMember {R : State → Prop} [State.Kept R] [State.Lasting S]
    (hbegin : ∀ s, R s → S { s with scope := s.scope.beginMember }) (className : String)
    (s : State) (hs : s.Under T R) :
    Outcome (fun k s' => Made T P k.expressions k.names ∧ s'.Under T S) anyError
      (classMember className s) := by
  unfold classMember
  rw [outcome_bind, outcome_position, outcome_bind]
  refine (returns_modifiers hs).mono fun m s₁ h₁ => ?_
  rw [outcome_bind, outcome_modifyScope, outcome_bind, outcome_get, outcome_ite]
  have hs₂ : ({ s₁ with scope := s₁.scope.beginMember } : State).Under T S :=
    ⟨h₁.tokens, hbegin s₁ h₁.holds⟩
  refine ⟨fun _ => returns_constructor hexpr m _ hs₂, fun _ => ?_⟩
  rw [outcome_bind]
  refine (returns_typeRef .default hs₂).mono fun type s₃ h₃ => ?_
  rw [outcome_bind, outcome_expectDescribed]
  refine ⟨fun hk => ?_, fun _ => trivial⟩
  have hname := Dotted.single (h₃.2.named hk)
  rw [outcome_bind, outcome_kind]
  generalize s₃.next.kind = k
  split
  · exact returns_method hexpr m type _ hname h₃.2.next
  · exact returns_property hexpr m type _ hname h₃.2.next
  · exact returns_field hexpr m type _ hname h₃.2.next
  · exact returns_field hexpr m type _ hname h₃.2.next
  · exact trivial

end

/-! ### Classes and units -/

/-- Base classes are read as types, and only their names are kept. -/
theorem returns_baseNames [State.Kept S] {s : State} (hs : s.Under T S) :
    Outcome (fun ns s' => (∀ n ∈ ns, Dotted T n) ∧ s'.Under T S) anyError (baseNames s) := by
  unfold baseNames
  rw [outcome_bind, outcome_accept]
  refine ⟨fun _ => ?_, fun _ => ⟨by simp, hs⟩⟩
  simp only [if_true, outcome_bind]
  refine (outcome_commaSeparated (fun _ h => h.next) (fun s hs => returns_typeRef .default hs)
    s.next hs.next).mono fun types s₁ h₁ => ?_
  exact ⟨by simpa using h₁.1, h₁.2⟩

section

variable (hexpr : ∀ (p : Power) (s : State), s.Over T →
  Outcome (fun e s' => P e ∧ s'.Over T) anyError (expr p s))

include hexpr

/-- The expressions and names of a class are those of its members, with the name of the class. -/
theorem returns_classDecl {s : State} (hs : s.Over T) :
    Outcome (fun c s' => Made T P c.expressions c.names ∧ s'.Over T) anyError (classDecl s) := by
  have hinner : ∀ (p : Power) (s : State), s.Under T anyState →
      Outcome (fun e s' => P e ∧ s'.Under T anyState) anyError (expr p s) := fun p s hs =>
    (hexpr p s hs.tokens).mono fun _ _ h => ⟨h.1, h.2.under⟩
  unfold classDecl
  rw [outcome_bind, outcome_position, outcome_bind]
  refine (returns_modifiers hs.under).mono fun m s₁ h₁ => ?_
  rw [outcome_bind, outcome_expect]
  refine ⟨fun _ => ?_, fun _ => trivial⟩
  rw [outcome_bind, outcome_expectDescribed]
  refine ⟨fun hk => ?_, fun _ => trivial⟩
  have hname := Dotted.single (h₁.next.named hk)
  rw [outcome_bind]
  refine (returns_baseNames h₁.next.next).mono fun bases s₂ h₂ => ?_
  rw [outcome_bind, outcome_expect]
  refine ⟨fun _ => ?_, fun _ => trivial⟩
  rw [outcome_bind, outcome_beginClass, outcome_bind]
  have hmember (name : String) (s : State) (hs : s.Under T anyState) :=
    returns_classMember (R := anyState) hinner (fun _ _ => trivial) name s hs
  refine (outcome_many (fun s hs _ => hmember _ s hs) _
    (h₂.2.tokens.next.withScope _).under).mono fun members s₃ h₃ => ?_
  rw [outcome_bind, outcome_expect]
  refine ⟨fun _ => ?_, fun _ => trivial⟩
  have hmembers : Made T P (members.flatMap Member.expressions) (members.flatMap Member.names) :=
    .flatMap h₃.1
  have hall : ∀ base : Option String, (∀ n ∈ base.toList, Dotted T n) →
      Made T P (members.flatMap Member.expressions)
        (s₁.next.current.text :: base.toList ++ members.flatMap Member.names) := fun base hbase =>
    ⟨hmembers.expressions,
      List.forall_mem_append.2 ⟨List.forall_mem_cons.2 ⟨hname, hbase⟩, hmembers.names⟩⟩
  rw [outcome_bind, outcome_endClass]
  -- Only a single base is kept.
  rcases bases with _ | ⟨base, _ | ⟨second, others⟩⟩
  · exact ⟨hall none (by simp), h₃.2.next.tokens⟩
  · exact ⟨hall (some base) (by simpa using h₂.1), h₃.2.next.tokens⟩
  · exact ⟨hall none (by simp), h₃.2.next.tokens⟩

/-- The expressions and names that a top-level declaration adds. -/
def Contribution.Made (T : Token → Prop) (P : Expr → Prop) (c : Contribution) : Prop :=
  Parse.Made T P (c.classes.flatMap ClassDecl.expressions)
    (c.namespaceName.toList ++ c.classes.flatMap ClassDecl.names)

omit hexpr in
/-- What two declarations add together. -/
theorem Contribution.Made.append {a b : Contribution} (ha : a.Made T P) (hb : b.Made T P) :
    (a.append b).Made T P := by
  obtain ⟨hea, hna⟩ := ha
  obtain ⟨heb, hnb⟩ := hb
  simp only [List.forall_mem_append] at hna hnb
  refine ⟨?_, ?_⟩
  · simpa [Contribution.append] using List.forall_mem_append.2 ⟨hea, heb⟩
  · -- The first name that is given is the name of the whole.
    have hspace : ∀ n ∈ (a.namespaceName <|> b.namespaceName).toList, Dotted T n := by
      cases hname : a.namespaceName with
      | none => simpa [hname] using hnb.1
      | some n => simpa [hname] using hna.1
    simpa [Contribution.append, List.forall_mem_append] using
      List.forall_mem_append.2 ⟨hspace, List.forall_mem_append.2 ⟨hna.2, hnb.2⟩⟩

omit hexpr in
theorem Contribution.made_concat {parts : List Contribution} (h : ∀ c ∈ parts, c.Made T P) :
    (Contribution.concat parts).Made T P := by
  induction parts with
  | nil => exact .nil
  | cons c parts ih =>
    obtain ⟨hc, hparts⟩ := List.forall_mem_cons.1 h
    exact hc.append (ih hparts)

/-- A namespace adds what its declarations add. -/
theorem returns_topLevelOf {body : Parse (List Contribution)}
    (hbody : ∀ s : State, s.Over T →
      Outcome (fun cs s' => (∀ c ∈ cs, c.Made T P) ∧ s'.Over T) anyError (body s))
    {s : State} (hs : s.Over T) :
    Outcome (fun c s' => c.Made T P ∧ s'.Over T) anyError (topLevelOf body s) := by
  unfold topLevelOf
  rw [outcome_bind, outcome_kind]
  generalize s.kind = k
  split
  · unfold usingDirective
    simp only [outcome_bind, outcome_expect]
    refine ⟨fun _ => ?_, fun _ => trivial⟩
    refine (returns_dottedName _ hs.next.under).mono fun name s₁ h₁ => ?_
    exact ⟨fun _ => ⟨.nil, h₁.2.tokens.next⟩, fun _ => trivial⟩
  · unfold namespaceOf
    rw [outcome_bind, outcome_expect]
    refine ⟨fun _ => ?_, fun _ => trivial⟩
    rw [outcome_bind]
    refine (returns_dottedName _ hs.next.under).mono fun name s₁ h₁ => ?_
    have hown : Contribution.Made T P ⟨[], some name, []⟩ := Made.name h₁.1 .nil
    rw [outcome_bind, outcome_accept]
    refine ⟨fun _ => ⟨hown, h₁.2.tokens.next⟩, fun _ => ?_⟩
    simp only [Bool.false_eq_true, if_false]
    rw [outcome_bind, outcome_expectDescribed]
    refine ⟨fun _ => ?_, fun _ => trivial⟩
    rw [outcome_bind]
    refine (hbody _ h₁.2.tokens.next).mono fun parts s₂ h₂ => ?_
    rw [outcome_bind, outcome_expect]
    exact ⟨fun _ => ⟨hown.append (Contribution.made_concat h₂.1), h₂.2.next⟩, fun _ => trivial⟩
  · rw [outcome_bind]
    exact (returns_classDecl hexpr hs).mono fun c s₁ h₁ =>
      ⟨by simpa [Contribution.Made] using h₁.1, h₁.2⟩

/-- By induction on the depth that is left. -/
theorem returns_topLevelWithin (budget : Nat) (s : State) (hs : s.Over T) :
    Outcome (fun c s' => c.Made T P ∧ s'.Over T) anyError (topLevelWithin budget s) := by
  induction budget generalizing s with
  | zero =>
    -- No level is left for the body of a namespace.
    refine returns_topLevelOf hexpr (fun s _ => ?_) hs
    exact trivial
  | succ budget ih =>
    refine returns_topLevelOf hexpr (fun s hs => ?_) hs
    rw [outcome_bind, outcome_deepen]
    refine ⟨fun _ => ?_, fun _ => trivial⟩
    rw [outcome_bind]
    exact (outcome_many (fun s hs _ => ih s hs) _ (hs.withDepth _)).mono fun _ _ h => h

/-- What holds of every parsed expression holds of every expression of a unit,
and the names of a unit are made of identifiers. -/
theorem returns_compilationUnit {s : State} (hs : s.Over T) :
    Outcome (fun u _ => Made T P u.expressions u.names) anyError (compilationUnit s) := by
  unfold compilationUnit
  rw [outcome_bind, outcome_position, outcome_bind]
  refine (outcome_many (fun s hs _ => returns_topLevelWithin hexpr s.budget s hs) s hs).mono
    fun parts s₁ h₁ => ?_
  exact Contribution.made_concat h₁.1

end

end ClassScript.Parse

namespace ClassScript

/-- A source compiles to what the parser makes of its tokens. -/
theorem compile_eq_ok_iff {source : String} {unit : CompilationUnit} :
    compile source = .ok unit ↔ ∃ tokens s, tokenize source = .ok tokens ∧
      Parse.compilationUnit (.ofTokens tokens) = .ok unit s := by
  unfold compile
  constructor
  · intro h
    cases htokens : tokenize source with
    | error e =>
      rw [htokens] at h
      cases h
    | ok tokens =>
      rw [htokens] at h
      replace h : parseTokens tokens = .ok unit := h
      unfold parseTokens at h
      split at h
      · rename_i u s hunit
        cases h
        exact ⟨tokens, s, rfl, hunit⟩
      · cases h
  · rintro ⟨tokens, s, htokens, hunit⟩
    rw [htokens]
    show parseTokens tokens = .ok unit
    rw [parseTokens, hunit]

/-- What can be checked by a computation holds of its result. -/
theorem exists_eq_ok {ε α : Type} {x : Except ε α} {P : α → Prop} [DecidablePred P]
    (h : x.toOption.any (fun a => decide (P a)) = true) : ∃ a, x = .ok a ∧ P a := by
  cases x with
  | error e => cases h
  | ok a => exact ⟨a, rfl, of_decide_eq_true h⟩

/-- The error of a computation that fails. -/
def error? {ε α : Type} : Except ε α → Option ε
  | .error e => some e
  | .ok _ => none

/-- What can be checked by a computation holds of its error. -/
theorem exists_eq_error {ε α : Type} {x : Except ε α} {P : ε → Prop} [DecidablePred P]
    (h : (error? x).any (fun e => decide (P e)) = true) : ∃ e, x = .error e ∧ P e := by
  cases x with
  | error e => exact ⟨e, rfl, of_decide_eq_true h⟩
  | ok a => cases h

end ClassScript

import ClassScript.Proofs.Parse.ScopeLog

/-!
# The latest declaration of a name counts

A step of a rule leaves the scope alone or makes one call on it, so every run of every parser
of the grammar can be followed with its calls (`compositional_traced`). Whatever has been done
with a parser before, and wherever its last run has come to, the scope is told by the log of
the calls: which names hold elements is decided by the latest declaration of each, or else by
the class at hand.
-/

namespace ClassScript.Parse

variable {α : Type}

/-! ### The rules -/

/-- Each step of a rule is silent or makes one call. -/
theorem compositional_traced : Compositional fun _ _ p => Traced p where
  mono h _ := h
  pure a := .pure a
  throw _ := .throw _
  look h := .look h
  advance := .advance
  skipBraced := .skipBraced
  beginClass name := .calls (.beginClass name)
  endClass := .calls .endClass
  beginMember := .calls .beginMember
  declareLocal name isDom := .calls (.declareLocal name isDom)
  bind hp hk := .bind hp hk
  after hp hk := .bind hp hk
  many h := .many h
  commaList h := .commaList h
  within h := .look fun s => h s.budget
  tooDeep := .tooDeep
  call hcall h := hcall.eq_nested ▸ .nested h
  operator h := .nested h

/-! ### All that is done with a parser -/

/-- What can be asked of a parser from outside: the calls that change the scope, the single
steps, and every form of the grammar. -/
inductive Operation : {α : Type} → Parse α → Prop
  | beginClass (name : String) : Operation (beginClass name)
  | endClass : Operation endClass
  | beginMember : Operation (modifyScope (·.beginMember))
  | declareLocal (name : String) (isDom : Bool) :
      Operation (modifyScope (·.declareLocal name isDom))
  | advance : Operation advance
  | expectDescribed (k : Kind) (expected : String) : Operation (expectDescribed k expected)
  | deepen : Operation deepen
  | surface (levels : Nat) : Operation (surface levels)
  | type (power : Power) : Operation (typeRef power)
  | namedType : Operation namedType
  | expr (power : Power) : Operation (expr power)
  | primary : Operation primary
  | prefixed : Operation (prefixed expr)
  | grouping : Operation (grouping expr)
  | creation : Operation (creation expr)
  | arguments : Operation (arguments expr)
  | binary (left : Expr) (power : Power) : Operation (binary expr left power)
  | coalesce (left : Expr) : Operation (coalesce expr left)
  | assignment (left : Expr) : Operation (assignment expr left)
  | update (left : Expr) : Operation (update left)
  | call (left : Expr) : Operation (call expr left)
  | member (left : Expr) : Operation (member left)
  | index (left : Expr) : Operation (index expr left)
  | stmt : Operation stmt
  | expressionStmt : Operation expressionStmt
  | localStmt : Operation localStmt
  | returnStmt : Operation returnStmt
  | ifStmt : Operation (ifStmt stmt)
  | whileStmt : Operation (whileStmt stmt)
  | forStmt : Operation (forStmt stmt)
  | blockStmt : Operation (blockStmt stmt)
  | block : Operation block
  | classMember (className : String) : Operation (classMember className)
  | classDecl : Operation classDecl
  | usingDirective : Operation usingDirective
  | topLevel : Operation topLevel
  | compilationUnit : Operation compilationUnit

/-- What is compositional, and holds of the two steps by which levels are entered and left,
holds of every operation. -/
theorem Operation.holds {P : {α : Type} → Nat → (Kind → Prop) → Parse α → Prop}
    (hP : Compositional P) {n : Nat} (hdeepen : P n noKind Parse.deepen)
    (hsurface : ∀ levels, P n noKind (Parse.surface levels)) {p : Parse α} (h : Operation p) :
    P n noKind p := by
  cases h with
  | beginClass name => exact hP.beginClass name
  | endClass => exact hP.endClass
  | beginMember => exact hP.beginMember
  | declareLocal name isDom => exact hP.declareLocal name isDom
  | advance => exact hP.advanceAny
  | expectDescribed k expected => exact hP.described k expected
  | deepen => exact hdeepen
  | surface levels => exact hsurface levels
  | type power => exact hP.typeRef power
  | namedType => exact hP.namedTypeOf (hP.typeRef _)
  | expr power => exact hP.expr power
  | primary => exact hP.primary
  | prefixed => exact hP.mono (hP.prefixed fun power => hP.expr power) nofun
  | grouping => exact hP.grouping fun power => hP.expr power
  | creation => exact hP.creation fun power => hP.expr power
  | arguments => exact hP.arguments fun power => hP.expr power
  | binary left power => exact hP.binary (fun power => hP.expr power) left power
  | coalesce left => exact hP.coalesce (fun power => hP.expr power) left
  | assignment left => exact hP.assignment (fun power => hP.expr power) left
  | update left => exact hP.update left
  | call left => exact hP.callForm (fun power => hP.expr power) left
  | member left => exact hP.member left
  | index left => exact hP.index (fun power => hP.expr power) left
  | stmt => exact hP.stmt
  | expressionStmt => exact hP.expressionStmt
  | localStmt => exact hP.localStmt
  | returnStmt => exact hP.returnStmt
  | ifStmt => exact hP.ifStmt hP.stmt
  | whileStmt => exact hP.whileStmt hP.stmt
  | forStmt => exact hP.forStmt hP.stmt
  | blockStmt => exact hP.blockStmt hP.stmt
  | block => exact hP.block
  | classMember className => exact hP.classMember className
  | classDecl => exact hP.classDecl
  | usingDirective => exact hP.usingDirective
  | topLevel => exact hP.topLevel
  | compilationUnit => exact hP.compilationUnit

theorem Operation.traced {p : Parse α} (h : Operation p) : Traced p :=
  h.holds compositional_traced (n := 0) .deepen .surface

/-- A parser over some tokens is in this state, after the calls of the log. It has been used
any number of times, and its last run may still be on its way or may have failed. -/
inductive Reached : List ScopeCall → State → Prop
  | start (tokens : List Token) : Reached [] (.ofTokens tokens)
  | run {α : Type} {p : Parse α} {s t : State} {log calls : List ScopeCall}
      {r : Option (Except CompileError α)} :
      Reached log s → Trace p s calls t r → Reached (calls ++ log) t

theorem Reached.scope_eq {log : List ScopeCall} {s : State} (h : Reached log s) :
    s.scope = ScopeCall.replay .empty log := by
  induction h with
  | start tokens => rfl
  | run _ htrace ih => rw [htrace.scope_eq, ih, ScopeCall.replay_append]

theorem Reached.knows {log : List ScopeCall} {s : State} (h : Reached log s) :
    ScopeCall.Knows log s.scope := by
  rw [h.scope_eq]
  exact ScopeCall.knows_replay log

/-- At every moment no local counts both as an element and as none. A bare name holds an
element exactly if the latest declaration of it says so, of those since a member or a class
began or a class ended, or if there is none and the class at hand has recorded a member of
that name. And every operation is a run of this kind, from where it begins to where it
returns or fails. -/
theorem isDomValue_identifier_iff_latest {log : List ScopeCall} {s : State} (h : Reached log s) :
    (∀ name ∈ s.scope.domLocals, name ∉ s.scope.plainLocals) ∧
    (∀ name span, s.scope.isDomValue (.identifier name span) = true ↔
      ScopeCall.latest? name log = some true ∨
        ScopeCall.latest? name log = none ∧ name ∈ ScopeCall.recorded log) ∧
    ∀ {α : Type} (p : Parse α), Operation p → ∃ calls,
      Trace p s calls (finalState (p s)) (some (outcomeOf (p s))) ∧
        Reached (calls ++ log) (finalState (p s)) := by
  refine ⟨fun name hdom => h.knows.disjoint hdom, fun name span => h.knows.isDomName_iff name, ?_⟩
  intro α p hp
  obtain ⟨calls, htrace⟩ := hp.traced s
  exact ⟨calls, htrace, h.run htrace⟩

/-- A class records the member `x`. A plain local of that name hides it, up to the next
member. -/
theorem isDomValue_identifier_iff_latest_hidden : ∃ log s t,
    Reached log s ∧ s.scope.isDomValue (.identifier "x" .none) = false ∧
      Reached (.beginMember :: log) t ∧ t.scope.isDomValue (.identifier "x" .none) = true := by
  let tokens : List Token := [⟨.identifier, "HTMLElement", .none⟩, ⟨.identifier, "x", .none⟩,
    ⟨.semicolon, ";", .none⟩, ⟨.closeCurly, "\x7d", .none⟩]
  have hclass := (Reached.start tokens).run (.call (.beginClass "A" _))
  have hlocal := hclass.run (.call (.declareLocal "x" false _))
  have hnext := hlocal.run (.call (.beginMember _))
  refine ⟨_, _, _, hlocal, ?_, hnext, ?_⟩
  · rw [← Bool.not_eq_true, (isDomValue_identifier_iff_latest hlocal).2.1]
    decide
  · rw [(isDomValue_identifier_iff_latest hnext).2.1]
    decide

end ClassScript.Parse

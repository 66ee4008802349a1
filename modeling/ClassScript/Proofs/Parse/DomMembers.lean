import ClassScript.Proofs.Parse.Concatenation
import ClassScript.Proofs.Parse.Declarations
import ClassScript.Proofs.Parse.MemberNames
import Mathlib.Data.List.Basic

/-!
# Which members hold elements

`dom_member_lookahead` compares what the scan at the start of a class body finds with the
members that are read after it, for every class of every source that compiles. A member that
was read is kept together with the tokens it was read from (`MemberRun`), so the scan can be
followed along the body member by member (`Consecutive.domMembersIn_eq`).

What the scan has found stays in scope all through the class (`Reading`), and each expression
is judged by what is in scope where it is read (`judges_expr`). So a member of the class is
treated as an element in the whole class, or nowhere, unless a local hides it.
-/

namespace ClassScript

/-! ### Names that stand for members -/

/-- The expression stands for the member `name` of the class at hand, where the names that
satisfy `isLocal` are those of locals. -/
def Expr.Names (isLocal : String → Prop) (name : String) : Expr → Prop
  | .identifier x _ => x = name ∧ ¬ isLocal name
  | .member (.this _) x _ _ => x = name
  | _ => False

/-- What is done to a member of the class is done to an element exactly if the member is one
of `names`. -/
def Expr.DomExactly (names : List String) (isLocal : String → Prop) : Expr → Prop
  | .domProperty left _ _ | .domCall left _ _ _ => ∀ name, left.Names isLocal name → name ∈ names
  | .member left _ _ _ => ∀ name, left.Names isLocal name → name ∉ names
  | _ => True

/-- With fewer locals, more names stand for members. -/
theorem Expr.Names.mono {p q : String → Prop} (hpq : ∀ n, p n → q n) {name : String} {e : Expr}
    (h : e.Names q name) : e.Names p name := by
  unfold Names at *
  split at h
  · exact ⟨h.1, mt (hpq name) h.2⟩
  · exact h
  · exact h.elim

/-- The more is local, the less is said of members. -/
theorem Expr.DomExactly.mono {names : List String} {p q : String → Prop} (hpq : ∀ n, p n → q n)
    {e : Expr} (h : e.DomExactly names p) : e.DomExactly names q := by
  unfold DomExactly at *
  split at h
  · exact fun name hname => h name (hname.mono hpq)
  · exact fun name hname => h name (hname.mono hpq)
  · exact fun name hname => h name (hname.mono hpq)
  · exact trivial

namespace Parse

/-- What is done to a value is done to an element exactly if the value is known to be one. -/
def Scope.Judges (c : Scope) : Expr → Prop
  | .domProperty left _ _ | .domCall left _ _ _ => c.isDomValue left = true
  | .member left _ _ _ => c.isDomValue left = false
  | _ => True

/-- A local of this name has been declared. -/
def Scope.IsLocal (c : Scope) (name : String) : Prop := name ∈ c.domLocals ∨ name ∈ c.plainLocals

/-- A declaration adds one local. -/
theorem Scope.isLocal_declareLocal {c : Scope} {name n : String} {dom : Bool}
    (h : (c.declareLocal name dom).IsLocal n) : n = name ∨ c.IsLocal n := by
  unfold declareLocal IsLocal at *
  split at h <;> simp only [List.mem_insert_iff, List.mem_filter] at h <;> grind

/-- What stands for a member is an element if the member is listed as one. -/
theorem Scope.isDomValue_of_names {c : Scope} {isLocal : String → Prop} {left : Expr}
    {name : String} (h : left.Names isLocal name) (hlocal : ∀ n, c.IsLocal n → isLocal n) :
    c.isDomValue left = true ↔ name ∈ c.domMembers := by
  unfold Expr.Names at h
  split at h
  · obtain ⟨rfl, hname⟩ := h
    have hnot : ¬ c.IsLocal _ := mt (hlocal _) hname
    unfold IsLocal at hnot
    simp_all [isDomValue, isDomName]
  · subst h
    simp [isDomValue]
  · exact h.elim

/-- An expression that is judged by the scope is judged by its list of members. -/
theorem Scope.domExactly_of_judges {c : Scope} {isLocal : String → Prop}
    (hlocal : ∀ n, c.IsLocal n → isLocal n) {e : Expr} (h : c.Judges e) :
    e.DomExactly c.domMembers isLocal := by
  unfold Judges at h
  unfold Expr.DomExactly
  split at h
  · exact fun name hname => (isDomValue_of_names hname hlocal).1 h
  · exact fun name hname => (isDomValue_of_names hname hlocal).1 h
  · intro name hname hmem
    rw [(isDomValue_of_names hname hlocal).2 hmem] at h
    cases h
  · exact trivial

/-! ### Expressions -/

section

variable {T : Token → Prop} {S : State → Prop} {c : Scope}

/-- The names in scope are those of `c`. -/
def State.InScope (c : Scope) (s : State) : Prop := s.scope = c

/-- Two properties of states. -/
def State.Both (R S : State → Prop) (s : State) : Prop := R s ∧ S s

instance : State.Kept (State.InScope c) where
  next {s} h := s.next_scope.trans h
  withDepth _ h := h

instance {R S : State → Prop} [State.Kept R] [State.Kept S] : State.Kept (State.Both R S) where
  next h := ⟨State.Kept.next h.1, State.Kept.next h.2⟩
  withDepth n h := ⟨State.Kept.withDepth n h.1, State.Kept.withDepth n h.2⟩

/-- An expression of one token does nothing to a value. -/
theorem judges_of_single {t : Token} {e : Expr} (h : Single t e) :
    c.Judges e ∧ e.children = [] := by
  cases h <;> exact ⟨trivial, rfl⟩

/-- The ways to begin an expression. -/
theorem judges_begins {e : Expr} (h : Begins T (Expr.All c.Judges) e) : e.All c.Judges := by
  rw [Expr.all_iff]
  cases h with
  | token _ he =>
    obtain ⟨hjudges, hchildren⟩ := judges_of_single (c := c) he
    exact ⟨hjudges, by simp [hchildren]⟩
  | prefixed op span he => exact ⟨trivial, by simpa [Expr.children] using he⟩
  | group he => exact Expr.all_iff.1 he
  | create span _ _ harguments => exact ⟨trivial, harguments⟩
  | domCreate span _ _ harguments => exact ⟨trivial, harguments⟩

/-- The ways to continue one. Here it is decided what is done to an element. -/
theorem judges_continues (hS : ∀ s, S s → s.scope = c) {left e : Expr}
    (hleft : left.All c.Judges) (h : Continues T S (Expr.All c.Judges) left e) :
    e.All c.Judges := by
  rw [Expr.all_iff]
  cases h with
  | binary op span hright => exact ⟨trivial, by simp [Expr.children, hleft, hright]⟩
  | assign op span _ hright => exact ⟨trivial, by simp [Expr.children, hleft, hright]⟩
  | update op span _ => exact ⟨trivial, by simp [Expr.children, hleft]⟩
  | call span _ harguments => exact ⟨trivial, List.forall_mem_cons.2 ⟨hleft, harguments⟩⟩
  | hostCall span harguments => exact ⟨trivial, harguments⟩
  | hostSet span ho hp hv => exact ⟨trivial, by simp [Expr.children, ho, hp, hv]⟩
  | domCall span hdom harguments =>
    -- The property that is called was judged when it was read.
    subst hdom
    obtain ⟨hproperty, hobject⟩ := Expr.all_iff.1 hleft
    exact ⟨hproperty, List.forall_mem_cons.2 ⟨hobject _ List.mem_cons_self, harguments⟩⟩
  | member nameSpan span _ hplain =>
    obtain ⟨s, hs, hplain⟩ := hplain
    exact ⟨hS s hs ▸ hplain, by simp [Expr.children, hleft]⟩
  | domProperty span _ hdom =>
    obtain ⟨s, hs, hdom⟩ := hdom
    exact ⟨hS s hs ▸ hdom, by simp [Expr.children, hleft]⟩
  | index span hkey => exact ⟨trivial, by simp [Expr.children, hleft, hkey]⟩

/-- An expression is judged by the names that are in scope where it is read. -/
theorem judges_expr [State.Kept S] (power : Power) {s : State} (hs : s.Under T S) :
    Outcome (fun e s' => e.All s.scope.Judges ∧ s'.Under T S) anyError (expr power s) := by
  have hstart : s.Under T (State.Both S (State.InScope s.scope)) := ⟨hs.tokens, hs.holds, rfl⟩
  refine Outcome.mono (returns_exprWithin (A := fun _ => Expr.All s.scope.Judges)
    (B := fun _ _ => Expr.All s.scope.Judges) (fun _ _ h => judges_begins h) ?_
    (fun _ _ _ _ h => h) s.budget power hstart) fun e s' h => ⟨h.1, h.2.tokens, h.2.holds.1⟩
  exact fun _ _ _ _ _ hleft h => judges_continues (fun _ hstate => hstate.2) hleft h

/-! ### The scope in a member -/

/-- Nothing is a local. -/
def noLocal (_ : List Token) (_ : String) : Prop := False

/-- Anything may be a local. -/
def anyLocal (_ : List Token) (_ : String) : Prop := True

/-- Somewhere in the tokens the name stands after a type. -/
def DeclaresLocal (ts : List Token) (name : String) : Prop :=
  ∃ u levels v x r, ts = u ++ v ++ x :: r ∧ TypeWithin levels v ∧ x.kind = .identifier ∧
    x.text = name

/-- In a class whose members `names` hold elements, the parser has come to `s` from the state
`a`, and only what satisfies `isLocal` by the tokens in between is a local. -/
structure Reading (a : State) (names : List String) (isLocal : List Token → String → Prop)
    (s : State) : Prop where
  ended : s.Ended
  domMembers : s.scope.domMembers = names
  locals : ∃ u, a.tokens = u ++ s.tokens ∧ ∀ n, s.scope.IsLocal n → isLocal u n

variable {a : State} {names : List String} {isLocal : List Token → String → Prop}

/-- Going on to the next token keeps the locals, if what makes a local is kept by more tokens. -/
theorem kept_reading (hmono : ∀ {u v : List Token} {n : String}, isLocal u n → isLocal (u ++ v) n) :
    State.Kept (Reading a names isLocal) where
  next {s} h := by
    obtain ⟨u, htokens, hlocals⟩ := h.locals
    refine ⟨h.ended.next, s.next_scope.symm ▸ h.domMembers, ?_⟩
    rw [s.next_scope]
    rcases s.next_tokens with heq | heq
    · exact ⟨u, heq ▸ htokens, hlocals⟩
    · refine ⟨u ++ [s.current], ?_, fun n hn => hmono (hlocals n hn)⟩
      rw [htokens, heq, List.append_assoc]
      rfl
  withDepth _ h := ⟨h.ended, h.domMembers, h.locals⟩

instance : State.Kept (Reading a names noLocal) := kept_reading False.elim

instance : State.Kept (Reading a names anyLocal) := kept_reading fun _ => trivial

/-- What stands somewhere in the tokens stands there in more of them. -/
theorem DeclaresLocal.append {u v : List Token} {n : String} (h : DeclaresLocal u n) :
    DeclaresLocal (u ++ v) n := by
  obtain ⟨u, levels, w, x, r, rfl, hx⟩ := h
  exact ⟨u, levels, w, x, r ++ v, by simp, hx⟩

/-- A local is declared by the tokens that were read as its type and its name. -/
instance : State.Lasting (Reading a names DeclaresLocal) where
  toKept := kept_reading DeclaresLocal.append
  declareLocal {s s₁ s₂ s₃ type value} dom hs htype hkind hvalue hlast hs₃ := by
    obtain ⟨u, hu, -⟩ := hs.locals
    obtain ⟨u₃, hu₃, hlocals⟩ := hs₃.locals
    obtain ⟨w, hw, levels, d, b, v, rfl, htyped⟩ :=
      (takes_typeRef (K := fun _ => True) .default s hs.ended trivial).of_eq_ok htype
    have hs₁ := hs.ended.of_append hw
    obtain ⟨_, hname, rfl, -⟩ := Takes.advance (K := (· = .identifier)) (by simp) s₁ hs₁ hkind
    have hsteps : Steps s₁.next s₃ := by
      have hrun := (runs_initialValue s₁.next).of_eq_ok hvalue
      rcases hlast with rfl | rfl
      · exact hrun
      · exact hrun.tail (.read s₂)
    obtain ⟨y, hy⟩ := hsteps.tokens_suffix
    have hsplit : u₃ = u ++ (d ++ b ++ v) ++ s₁.current :: y := by
      refine (List.append_left_inj s₃.tokens).1 ?_
      rw [← hu₃, hu, hw, hname, ← hy]
      simp
    refine ⟨hs₃.ended, ?_, u₃, hu₃, fun n hn => ?_⟩
    · unfold Scope.declareLocal
      split <;> exact hs₃.domMembers
    · rcases Scope.isLocal_declareLocal hn with rfl | hn
      · exact ⟨u, levels, d ++ b ++ v, s₁.current, y, hsplit, htyped.typeOf, hkind, rfl⟩
      · exact hlocals n hn

/-- The expression is read after some tokens `u` from the state `a` on, and what is done in it
to members is done to elements exactly if they are among `names`. -/
def ReadAt (a : State) (names : List String) (isLocal : List Token → String → Prop) (e : Expr) :
    Prop :=
  ∃ u s power t, a.tokens = u ++ s.tokens ∧ expr power s = .ok e t ∧
    e.All (Expr.DomExactly names (isLocal u))

theorem ReadAt.mono {isLocal' : List Token → String → Prop}
    (h : ∀ u n, isLocal u n → isLocal' u n) {e : Expr} (he : ReadAt a names isLocal e) :
    ReadAt a names isLocal' e := by
  obtain ⟨u, s, power, t, hu, hrun, hall⟩ := he
  exact ⟨u, s, power, t, hu, hrun, hall.imp fun _ hd => hd.mono (h u)⟩

/-- Each expression is judged by what is in scope where it is read. -/
theorem readAt_expr [State.Kept (Reading a names isLocal)] (power : Power) (s : State)
    (hs : s.Under T (Reading a names isLocal)) :
    Outcome (fun e s' => ReadAt a names isLocal e ∧ s'.Under T (Reading a names isLocal)) anyError
      (expr power s) := by
  refine (judges_expr power hs).and_eq.mono fun e s' h => ⟨?_, h.1.2⟩
  obtain ⟨⟨hjudges, -⟩, hrun⟩ := h
  obtain ⟨u, htokens, hlocals⟩ := hs.holds.locals
  refine ⟨u, s, power, s', htokens, hrun, hjudges.imp fun d hd => ?_⟩
  rw [← hs.holds.domMembers]
  exact Scope.domExactly_of_judges hlocals hd

/-! ### Members -/

/-- A constructor has no type of its own. -/
theorem typed?_constructor (m : Modifiers) (start : Position) (s : State) :
    Outcome (fun k _ => k.typed? = none) anyError (constructor m start s) := by
  simp only [constructor, outcome_bind]
  exact outcome_any fun _ _ => outcome_any fun _ _ => outcome_any fun _ _ => outcome_any fun _ _ =>
    outcome_any fun _ _ => rfl

theorem typed?_method (m : Modifiers) (type : TypeRef) (name : String) (start : Position)
    (s : State) : Outcome (fun k _ => k.typed? = none) anyError (method m type name start s) := by
  simp only [method, outcome_bind]
  exact outcome_any fun _ _ => outcome_any fun _ _ => outcome_any fun _ _ => rfl

/-- The value of a field or property is read where no local is declared. -/
theorem returns_typedMember {P : Expr → Prop} {R : State → Prop} [State.Kept R] [State.Kept S]
    (hexpr : ∀ (p : Power) (s : State), s.Under T S →
      Outcome (fun e s' => P e ∧ s'.Under T S) anyError (expr p s))
    (hbegin : ∀ s, R s → S { s with scope := s.scope.beginMember }) (className : String)
    {s : State} (hs : s.Under T R) :
    Outcome (fun k _ => k.typed? ≠ none → ∀ e ∈ k.expressions, P e) anyError
      (classMember className s) := by
  unfold classMember
  rw [outcome_bind, outcome_position, outcome_bind]
  refine (returns_modifiers hs).mono fun m s₁ h₁ => ?_
  rw [outcome_bind, outcome_modifyScope, outcome_bind, outcome_get, outcome_ite]
  have hs₂ : ({ s₁ with scope := s₁.scope.beginMember } : State).Under T S :=
    ⟨h₁.tokens, hbegin s₁ h₁.holds⟩
  constructor
  · exact fun _ => (typed?_constructor m _ _).mono fun k _ hk htyped => absurd hk htyped
  · intro _
    rw [outcome_bind]
    refine (returns_typeRef .default hs₂).mono fun type s₃ h₃ => ?_
    rw [outcome_bind, outcome_expectDescribed]
    refine ⟨fun hk => ?_, fun _ => trivial⟩
    have hname := Dotted.single (h₃.2.named hk)
    rw [outcome_bind, outcome_kind]
    generalize s₃.next.kind = c
    split
    · exact (typed?_method m type _ _ _).mono fun k _ hk htyped => absurd hk htyped
    · exact (returns_property hexpr m type _ hname h₃.2.next).mono fun k _ hk _ => hk.1.expressions
    · exact (returns_field hexpr m type _ hname h₃.2.next).mono fun k _ hk _ => hk.1.expressions
    · exact (returns_field hexpr m type _ hname h₃.2.next).mono fun k _ hk _ => hk.1.expressions
    · exact trivial

end

/-- A member that was read, with the tokens that it was read from. -/
structure MemberRun (className : String) where
  before : State
  after : State
  member : Member
  tokens : List Token
  run : classMember className before = .ok member after
  reads : before.tokens = tokens ++ after.tokens

namespace MemberRun

variable {className : String} {names : List String} (r : MemberRun className)

/-- In a method or constructor, the tokens before an expression can declare a local. -/
def IsLocal (u : List Token) (n : String) : Prop := r.member.typed? = none ∧ DeclaresLocal u n

variable {r}

/-- A member is read in the class whose members `names` hold elements. -/
structure InClass (names : List String) (s : State) : Prop where
  ended : s.Ended
  tokens : s.Over Token.IsLexeme
  domMembers : s.scope.domMembers = names

theorem InClass.reading {s : State} (h : InClass names s) :
    s.Under Token.IsLexeme (Reading s names anyLocal) :=
  ⟨h.tokens, h.ended, h.domMembers, [], rfl, fun _ _ => trivial⟩

/-- At the start of a member the locals of the one before are gone. -/
theorem reading_begin {a s : State} {isLocal : List Token → String → Prop}
    (h : Reading a names anyLocal s) :
    Reading a names isLocal { s with scope := s.scope.beginMember } := by
  obtain ⟨u, hu, -⟩ := h.locals
  exact ⟨h.ended, h.domMembers, u, hu, by simp [Scope.IsLocal, Scope.beginMember]⟩

/-- All expressions of a member are read with the members of the class in scope. -/
theorem made (h : InClass names r.before) :
    Made Token.IsLexeme (ReadAt r.before names DeclaresLocal) r.member.expressions r.member.names ∧
      r.after.Under Token.IsLexeme (Reading r.before names DeclaresLocal) :=
  (returns_classMember readAt_expr (fun _ => reading_begin) className r.before
    h.reading).of_eq_ok r.run

/-- After a member the next one is read in the same class. -/
theorem inClass_after (h : InClass names r.before) : InClass names r.after :=
  have hafter := (made h).2
  ⟨hafter.holds.ended, hafter.tokens, hafter.holds.domMembers⟩

/-- Every expression of the member treats the members of the class as `names` says. -/
theorem readAt (h : InClass names r.before) {e : Expr} (he : e ∈ r.member.expressions) :
    ReadAt r.before names r.IsLocal e := by
  by_cases htyped : r.member.typed? = none
  · exact ((made h).1.expressions e he).mono fun _ _ hn => ⟨htyped, hn⟩
  · have hvalue : ReadAt r.before names noLocal e :=
      (returns_typedMember readAt_expr (fun _ => reading_begin) className h.reading).of_eq_ok
        r.run htyped e he
    exact hvalue.mono fun _ _ hn => hn.elim

/-- The scan finds the member by its type, and only a property can leave parentheses open. -/
theorem spec (h : InClass names r.before) :
    (r.member.kind ≠ .property → ∀ n, parensAfterAll n r.tokens = n) ∧
      Shows (r.member.nameIf TypeRef.endsWithElement).toList r.tokens := by
  have htakes := takes_classMember (K := fun _ => True) className r.before h.ended trivial
  obtain ⟨w, hw, hlevel, hshows⟩ := htakes.of_eq_ok r.run
  obtain rfl : w = r.tokens := (List.append_left_inj r.after.tokens).1 (hw.symm.trans r.reads)
  exact ⟨hlevel, hshows fun t ht => h.tokens t (by rw [hw]; exact List.mem_append_left _ ht)⟩

end MemberRun

/-! ### Class bodies -/

section

variable {className : String} {names : List String}

/-- Members that are read one after the other, between two states. -/
def Consecutive : State → List (MemberRun className) → State → Prop
  | s, [], t => s = t
  | s, r :: runs, t => r.before = s ∧ Consecutive r.after runs t

/-- What the scan finds along the members if `n` parentheses are open before them. -/
def scannedNames (n : Nat) : List (MemberRun className) → List String
  | [] => []
  | r :: runs =>
    (if n = 0 then (r.member.nameIf TypeRef.endsWithElement).toList else []) ++
      scannedNames (parensAfterAll n r.tokens) runs

/-- The members of a body are read one after another. -/
theorem consecutive_many (s : State) :
    Outcome (fun ms t => ∃ runs : List (MemberRun className), Consecutive s runs t ∧
      ms = runs.map MemberRun.member) anyError
      (many beforeCloseCurly (classMember className) s) := by
  have hrun {s t : State} {m : Member} (h : classMember className s = .ok m t) :
      ∃ r : MemberRun className, r.before = s ∧ r.after = t ∧ r.member = m := by
    obtain ⟨w, hw⟩ := ((runs_classMember className s).of_eq_ok h).tokens_suffix
    exact ⟨⟨s, t, m, w, h, hw.symm⟩, rfl, rfl, rfl⟩
  fun_induction many beforeCloseCurly (classMember className) s with
  | case1 | case2 => trivial
  | case3 s hmore m t hitem hlt ms u hmany ih =>
    obtain ⟨r, rfl, rfl, rfl⟩ := hrun hitem
    obtain ⟨runs, hruns, rfl⟩ := ih.of_eq_ok hmany
    exact ⟨r :: runs, ⟨rfl, hruns⟩, rfl⟩
  | case4 s hmore m t hitem hlt =>
    obtain ⟨r, rfl, rfl, rfl⟩ := hrun hitem
    exact ⟨[r], ⟨rfl, rfl⟩, rfl⟩
  | case5 s hmore => exact ⟨[], rfl, rfl⟩

namespace Consecutive

variable {s t : State} {runs : List (MemberRun className)}

/-- All members are read in the class. -/
theorem inClass (h : Consecutive s runs t) (hs : MemberRun.InClass names s) :
    ∀ r ∈ runs, MemberRun.InClass names r.before := by
  induction runs generalizing s with
  | nil => simp
  | cons r runs ih =>
    obtain ⟨rfl, hrest⟩ := h
    exact List.forall_mem_cons.2 ⟨hs, ih hrest (MemberRun.inClass_after hs)⟩

/-- The scan follows the members up to the brace that closes the body. -/
theorem domMembersIn_eq (h : Consecutive s runs t) (hs : MemberRun.InClass names s)
    (hstop : t.kind = .closeCurly) (n : Nat) :
    domMembersIn 0 n s.tokens = scannedNames n runs := by
  induction runs generalizing s n with
  | nil =>
    obtain rfl : s = t := h
    simp only [State.tokens, domMembersIn, show s.current.kind = .closeCurly from hstop]
    rfl
  | cons r runs ih =>
    obtain ⟨rfl, hrest⟩ := h
    rw [r.reads, (MemberRun.spec hs).2, ih hrest (MemberRun.inClass_after hs)]
    rfl

end Consecutive

/-- If no member leaves a parenthesis open, the scan finds all members whose type ends with an
element. -/
theorem scannedNames_eq {runs : List (MemberRun className)}
    (hlevel : ∀ r ∈ runs, parensAfterAll 0 r.tokens = 0) :
    scannedNames 0 runs =
      (runs.map MemberRun.member).filterMap (Member.nameIf TypeRef.endsWithElement) := by
  induction runs with
  | nil => rfl
  | cons r runs ih =>
    obtain ⟨hr, hruns⟩ := List.forall_mem_cons.1 hlevel
    rw [scannedNames, hr, ih hruns, if_pos rfl, List.map_cons, List.filterMap_cons]
    cases r.member.nameIf TypeRef.endsWithElement <;> rfl

end

/-- Where the body of a class stands that is read from the state `s`, and how its members are
read one after the other. -/
structure ClassBody (s : State) (c : ClassDecl) where
  front : List Token
  brace : Token
  start : State
  stop : State
  runs : List (MemberRun c.name)
  opens : s.tokens = front ++ brace :: start.tokens
  brace_kind : brace.kind = .openCurly
  scope_eq : start.scope = .beginClass c.name (domMembersIn 0 0 start.tokens)
  consecutive : Consecutive start runs stop
  members_eq : c.members = runs.map MemberRun.member
  stop_kind : stop.kind = .closeCurly

namespace ClassBody

variable {s : State} {c : ClassDecl} (body : ClassBody s c)

/-- Of all members it is the scan that says whether they hold elements. -/
theorem inClass (hs : s.Ended) (hover : s.Over Token.IsLexeme) :
    MemberRun.InClass body.start.scope.domMembers body.start := by
  refine ⟨hs.of_append (w := body.front ++ [body.brace]) ?_, fun t ht => hover t ?_, rfl⟩
  · rw [body.opens]
    simp
  · rw [body.opens]
    simp [ht]

/-- What is in scope in a body is what the scan finds along its members. -/
theorem domMembers_eq (h : MemberRun.InClass body.start.scope.domMembers body.start) :
    body.start.scope.domMembers = scannedNames 0 body.runs := by
  rw [← body.consecutive.domMembersIn_eq h body.stop_kind, body.scope_eq]
  rfl

/-- The parentheses in members other than properties match anyway. -/
theorem domMembers_eq_filterMap (h : MemberRun.InClass body.start.scope.domMembers body.start)
    (hlevel : ∀ r ∈ body.runs, r.member.kind = .property → parensAfterAll 0 r.tokens = 0) :
    body.start.scope.domMembers = c.members.filterMap (Member.nameIf TypeRef.endsWithElement) := by
  rw [body.domMembers_eq h, body.members_eq]
  refine scannedNames_eq fun r hr => ?_
  by_cases hproperty : r.member.kind = .property
  · exact hlevel r hr hproperty
  · exact (MemberRun.spec (body.consecutive.inClass h r hr)).1 hproperty 0

end ClassBody

/-- A class that was read has a body whose members were. -/
theorem classBody_classDecl {s : State} (hs : s.Ended) :
    Outcome (fun c _ => Nonempty (ClassBody s c)) anyError (classDecl s) := by
  unfold classDecl
  rw [outcome_bind, outcome_position, outcome_bind]
  refine (runs_modifiers.returns .refl).mono fun m s₁ h₁ => ?_
  rw [outcome_bind, outcome_expect]
  refine ⟨fun _ => ?_, fun _ => trivial⟩
  rw [outcome_bind, outcome_expectDescribed]
  refine ⟨fun _ => ?_, fun _ => trivial⟩
  have h₂ : Steps s s₁.next.next := (h₁.tail (.read _)).tail (.read _)
  rw [outcome_bind]
  refine ((Runs.of_rule fun hP => hP.baseNames).returns h₂).mono fun bases s₃ h₃ => ?_
  rw [outcome_bind, outcome_expect]
  refine ⟨fun hopen => ?_, fun _ => trivial⟩
  obtain ⟨front, hfront⟩ := h₃.tokens_suffix
  obtain ⟨_, hbrace, rfl, -⟩ :=
    Takes.advance (K := (· = .openCurly)) (by simp) s₃ (h₃.ended hs) hopen
  rw [outcome_bind, outcome_beginClass, outcome_bind]
  refine (consecutive_many _).mono fun members s₄ h₄ => ?_
  obtain ⟨runs, hruns, rfl⟩ := h₄
  rw [outcome_bind, outcome_expect]
  refine ⟨fun hclose => ?_, fun _ => trivial⟩
  rw [outcome_bind, outcome_endClass]
  rcases bases with _ | ⟨base, _ | ⟨second, others⟩⟩
  iterate 3
    exact ⟨front, s₃.current, _, s₄, runs, by rw [← hfront, hbrace]; rfl, hopen, rfl, hruns, rfl,
      hclose⟩

/-! ### The classes of a unit -/

/-- The class was read on the way from the state `s₀`. -/
def ReadFrom (s₀ : State) (c : ClassDecl) : Prop :=
  ∃ s t, Steps s₀ s ∧ classDecl s = .ok c t

theorem readFrom_concat {s₀ : State} {parts : List Contribution}
    (h : ∀ part ∈ parts, ∀ c ∈ part.classes, ReadFrom s₀ c) :
    ∀ c ∈ (Contribution.concat parts).classes, ReadFrom s₀ c := by
  induction parts with
  | nil => simp [Contribution.concat, Contribution.empty]
  | cons part parts ih =>
    obtain ⟨hpart, hparts⟩ := List.forall_mem_cons.1 h
    exact List.forall_mem_append.2 ⟨hpart, ih hparts⟩

section

variable {s₀ : State}

/-- The classes of a namespace are read further on in the same input. -/
theorem readFrom_topLevelOf {body : Parse (List Contribution)}
    (hbody : ∀ s, Steps s₀ s →
      Outcome (fun parts _ => ∀ part ∈ parts, ∀ c ∈ part.classes, ReadFrom s₀ c) anyError (body s))
    {s : State} (hs : Steps s₀ s) :
    Outcome (fun part _ => ∀ c ∈ part.classes, ReadFrom s₀ c) anyError (topLevelOf body s) := by
  unfold topLevelOf
  rw [outcome_bind, outcome_kind]
  generalize s.kind = k
  split
  · rw [outcome_bind]
    exact outcome_any fun _ _ => by simp
  · unfold namespaceOf
    rw [outcome_bind, outcome_expect]
    refine ⟨fun _ => ?_, fun _ => trivial⟩
    rw [outcome_bind]
    refine ((Runs.of_rule fun hP => hP.dottedName _).returns (hs.tail (.read s))).mono
      fun name s₁ h₁ => ?_
    rw [outcome_bind, outcome_accept]
    refine ⟨fun _ => by simp, fun _ => ?_⟩
    simp only [Bool.false_eq_true, if_false]
    rw [outcome_bind, outcome_expectDescribed]
    refine ⟨fun _ => ?_, fun _ => trivial⟩
    rw [outcome_bind]
    refine (hbody _ (h₁.tail (.read s₁))).mono fun parts s₂ h₂ => ?_
    rw [outcome_bind, outcome_expect]
    exact ⟨fun _ => readFrom_concat h₂, fun _ => trivial⟩
  · rw [outcome_bind]
    have hread : Outcome (fun c t => True ∧ classDecl s = .ok c t) anyError (classDecl s) :=
      (outcome_any fun _ _ => trivial).and_eq
    exact hread.mono fun c t hc => by simpa using ⟨s, t, hs, hc.2⟩

/-- By induction on the depth that is left. -/
theorem readFrom_topLevelWithin (budget : Nat) {s : State} (hs : Steps s₀ s) :
    Outcome (fun part t => (∀ c ∈ part.classes, ReadFrom s₀ c) ∧ Steps s₀ t) anyError
      (topLevelWithin budget s) := by
  induction budget generalizing s with
  | zero =>
    refine Outcome.and (readFrom_topLevelOf (fun _ _ => ?_) hs) ((runs_topLevelWithin 0).after hs)
    exact trivial
  | succ budget ih =>
    refine Outcome.and (readFrom_topLevelOf (fun t ht => ?_) hs)
      ((runs_topLevelWithin (budget + 1)).after hs)
    rw [outcome_bind, outcome_deepen]
    refine ⟨fun _ => ?_, fun _ => trivial⟩
    rw [outcome_bind]
    exact (outcome_many (fun _ hu _ => ih hu) _ (ht.tail (.level t _))).mono fun _ _ h => h.1

/-- Every class of a unit was read from its input. -/
theorem readFrom_compilationUnit (s₀ : State) :
    Outcome (fun unit _ => ∀ c ∈ unit.classes, ReadFrom s₀ c) anyError (compilationUnit s₀) := by
  unfold compilationUnit
  rw [outcome_bind, outcome_position, outcome_bind]
  refine (outcome_many (fun s hs _ => readFrom_topLevelWithin s.budget hs) s₀ .refl).mono
    fun parts s₁ h₁ => ?_
  exact readFrom_concat h₁.1

end

end Parse

open Parse

/-- What the scan at the start of a class body finds, and what follows from it.

It finds the names of the fields and properties whose type ends with the name of an element
type, as long as no parenthesis is left open. These are the members whose type is an element
type if the two agree about the type of every member, and if no accessor leaves a parenthesis
open. By what it has found, and by nothing else, it is judged in all expressions of the class
which of its members are elements. -/
theorem dom_member_lookahead {source : String} {unit : CompilationUnit}
    (h : compile source = .ok unit) {c : ClassDecl} (hc : c ∈ unit.classes) :
    ∃ tokens s t, ∃ body : ClassBody s c,
      tokenize source = .ok tokens ∧ Steps (.ofTokens tokens) s ∧ classDecl s = .ok c t ∧
      body.start.scope.domMembers = scannedNames 0 body.runs ∧
      ((∀ r ∈ body.runs, r.member.kind = .property → parensAfterAll 0 r.tokens = 0) →
        (∀ m ∈ c.members, ∀ type name, m.typed? = some (type, name) →
          type.endsWithElement = Dom.isElement type.name) →
        body.start.scope.domMembers = c.elementNames) ∧
      ∀ r ∈ body.runs, ∀ e ∈ r.member.expressions,
        ReadAt r.before body.start.scope.domMembers r.IsLocal e := by
  obtain ⟨tokens, u, htokens, hunit⟩ := compile_eq_ok_iff.1 h
  obtain ⟨s, t, hsteps, hread⟩ := (readFrom_compilationUnit _).of_eq_ok hunit c hc
  have hs : s.Ended := hsteps.ended (ended_ofTokens tokens)
  obtain ⟨body⟩ := (classBody_classDecl hs).of_eq_ok hread
  have hover : s.Over Token.IsLexeme := fun x hx =>
    over_ofTokens htokens x (hsteps.tokens_suffix.mem hx)
  have hstart := body.inClass hs hover
  refine ⟨tokens, s, t, body, htokens, hsteps, hread, body.domMembers_eq hstart, ?_, ?_⟩
  · intro hlevel htypes
    rw [body.domMembers_eq_filterMap hstart hlevel]
    refine List.filterMap_congr fun m hm => ?_
    unfold Member.nameIf
    cases htyped : m.typed? with
    | none => rfl
    | some typed => simp [Option.filter, htypes m hm typed.1 typed.2 htyped]
  · intro r hr e he
    exact MemberRun.readAt (body.consecutive.inClass hstart r hr) he

/-- A field of an element type and one of another type. -/
theorem dom_member_lookahead_fields :
    ∃ unit c,
      compile "class T { string s; HTMLElement e; T() { e.Value = s.Length; } }" =
        .ok unit ∧ c ∈ unit.classes ∧
      ∃ s, ∃ body : ClassBody s c, body.start.scope.domMembers = ["e"] ∧
        ∀ r ∈ body.runs, ∀ e ∈ r.member.expressions, ReadAt r.before ["e"] r.IsLocal e := by
  have hfound : ∃ unit,
      compile "class T { string s; HTMLElement e; T() { e.Value = s.Length; } }" =
        .ok unit ∧ unit.classes.length = 1 ∧ ∀ c ∈ unit.classes,
          (∀ m ∈ c.members, m.kind ≠ .property ∧
            m.typed?.all (fun p => p.1.endsWithElement == Dom.isElement p.1.name) = true) ∧
          c.elementNames = ["e"] :=
    exists_eq_ok (by decide +kernel)
  obtain ⟨unit, hunit, hlength, hclasses⟩ := hfound
  obtain ⟨c, hc⟩ : ∃ c, c ∈ unit.classes := List.exists_mem_of_length_pos (by omega)
  obtain ⟨hmembers, hnames⟩ := hclasses c hc
  obtain ⟨tokens, s, t, body, -, -, -, -, hagree, hread⟩ := dom_member_lookahead hunit hc
  have hscan : body.start.scope.domMembers = ["e"] := by
    rw [hagree ?_ ?_, hnames]
    · intro r hr hproperty
      have hmember : r.member ∈ c.members := body.members_eq ▸ List.mem_map_of_mem hr
      exact absurd hproperty (hmembers _ hmember).1
    · intro m hm type name htyped
      have hall := (hmembers m hm).2
      rw [htyped] at hall
      exact eq_of_beq hall
  exact ⟨unit, c, hunit, hc, s, body, hscan, hscan ▸ hread⟩

/-- What is done to an element has nodes of its own. -/
def Expr.isDomNode : Expr → Bool
  | .domProperty .. | .domCall .. => true
  | _ => false

/-- The scan misses a nullable element and one after an accessor that leaves a parenthesis
open, and it takes a type of another namespace for an element type. -/
theorem nullable_element_not_scanned :
    (∃ unit, compile "class T { HTMLElement? e; T() { e.Value = 1; } }" = .ok unit ∧
      unit.classes.map ClassDecl.elementNames = [["e"]] ∧
      ∀ e ∈ unit.expressions, e.All (Expr.isDomNode · = false)) ∧
    (∃ unit, compile
      "class T { int P { get {(} } HTMLElement e; T() { e.Value = 1; } }" =
        .ok unit ∧
      unit.classes.map ClassDecl.elementNames = [["e"]] ∧
      ∀ e ∈ unit.expressions, e.All (Expr.isDomNode · = false)) ∧
    (∃ unit, compile "class T { X.HTMLElement e; T() { e.Value = 1; } }" = .ok unit ∧
      unit.classes.map ClassDecl.elementNames = [[]] ∧
      ¬ ∀ e ∈ unit.expressions, e.All (Expr.isDomNode · = false)) :=
  ⟨exists_eq_ok (by decide +kernel), exists_eq_ok (by decide +kernel),
    exists_eq_ok (by decide +kernel)⟩

end ClassScript

import ClassScript.Proofs.Parse.Rules

/-!
# The depth of nesting is balanced

The steps of the rules are steps of a routine, so every parser of the grammar is a routine
(`compositional_built`). A call that returns leaves the depth as it found it, the depth stays
in range all the while, and at no moment are more calls active than there were levels left.
-/

namespace ClassScript.Parse

variable {α β : Type} {n : Nat}

/-! ### Building routines -/

/-- The parser is built as a routine, with `n` levels left. -/
def Built (n : Nat) (p : Parse α) : Prop :=
  Nonempty (Routine n p)

namespace Built

theorem primitive {p : Parse α} (h : Primitive p) : Built n p :=
  ⟨.primitive h⟩

theorem bind {p : Parse α} {k : α → Parse β} (hp : Built n p) (hk : ∀ a, Built n (k a)) :
    Built n (p >>= k) :=
  hp.elim fun first => ⟨.bind first fun a => Classical.choice (hk a)⟩

end Built

/-- No error of a rule is that the nesting goes too deep: only the levels complain of that. -/
theorem Complaint.not_isTooDeep {e : CompileError} (h : Complaint e) : ¬ IsTooDeep e := by
  cases h with
  | reported _ hdeep => exact hdeep
  | broken => exact nofun

/-- Each step of a rule is a primitive step of a routine, and the levels of a routine are
those of the grammar. -/
theorem compositional_built : Compositional fun n _ p => Built n p where
  mono h _ := h
  pure a := .primitive (.pure a)
  throw h := .primitive (.throw h.not_isTooDeep)
  look h := .bind (.primitive .get) h
  advance := .primitive .advance
  skipBraced := .primitive .skipBraced
  beginClass name := .primitive (.beginClass name)
  endClass := .primitive (.modifyScope _)
  beginMember := .primitive (.modifyScope _)
  declareLocal _ _ := .primitive (.modifyScope _)
  bind hp hk := .bind hp hk
  after hp hk := .bind hp hk
  many h := h.elim fun item => ⟨.many _ item⟩
  commaList h := h.elim fun item => ⟨.commaList _ item⟩
  within h := ⟨.within fun b => Classical.choice (h b)⟩
  tooDeep := ⟨.tooDeep⟩
  call hcall h := h.elim fun body => ⟨.call hcall body⟩
  operator h := h.elim fun body => ⟨.operator body⟩

/-! ### Whole calls -/

/-- The calls by which the grammar is entered. -/
inductive Entry : {α : Type} → Parse α → Prop
  | expr (power : Power) : Entry (expr power)
  | type (power : Power) : Entry (typeRef power)
  | stmt : Entry stmt
  | block : Entry block
  | arguments : Entry (arguments expr)
  | classMember (className : String) : Entry (classMember className)
  | classDecl : Entry classDecl
  | topLevel : Entry topLevel

/-- What is compositional holds of the calls. -/
theorem Entry.holds {P : {α : Type} → Nat → (Kind → Prop) → Parse α → Prop}
    (hP : Compositional P) {p : Parse α} (h : Entry p) : P n anyKind p := by
  cases h with
  | expr power => exact hP.expr power
  | type power => exact hP.typeRef power
  | stmt => exact hP.stmt
  | block => exact hP.block
  | arguments => exact hP.arguments fun power => hP.expr power
  | classMember className => exact hP.classMember className
  | classDecl => exact hP.classDecl
  | topLevel => exact hP.topLevel

/-- The depth of nesting is balanced. A call that begins within the limit and returns is
back at the depth it began at. However it is built, no moment of it has a smaller depth,
not even after the levels that are left next, and none has a greater one than the first
beyond the limit, which it reaches exactly if the call fails because of the nesting. No
more calls are active at a time than levels were left. So if calls follow each other, every
one begins at the depth of the first, and a loop fails only if one of them does. -/
theorem depth_balanced {p : Parse α} (hp : Entry p) (s : State) (hs : s.depth ≤ nestingLimit) :
    (∀ a t, p s = .ok a t → t.depth = s.depth) ∧
    Nonempty (Routine s.budget p) ∧
    (∀ r : Routine s.budget p,
      (∀ m ∈ r.moments 0 s, s.depth + m.leaving ≤ m.state.depth ∧
        m.state.depth ≤ nestingLimit + 1 ∧ m.calls ≤ nestingLimit - s.depth) ∧
      ((∃ m ∈ r.moments 0 s, m.state.depth = nestingLimit + 1) ↔
        ∃ e t, p s = .error e t ∧ e.cause = .nestingTooDeep nestingLimit)) ∧
    ∀ more, Outcome (fun _ t => t.depth = s.depth)
      (fun e t => ∃ u : State, u.depth = s.depth ∧ p u = .error e t) (many more p s) := by
  have hbudget : s.depth + s.budget = nestingLimit := Nat.add_sub_of_le hs
  obtain ⟨routine⟩ : Built s.budget p := hp.holds compositional_built
  have hkeeps := routine.keepsDepth
  refine ⟨fun a t hr => (hkeeps.outcome s hbudget).of_eq_ok hr, ⟨routine⟩, ?_,
    fun more => hkeeps.outcome_many more hbudget⟩
  intro r
  have hrange := r.keepsDepth.inRange 0 s hbudget
  refine ⟨fun m hm => ?_, ?_, ?_⟩
  · have hcalls := (hrange m hm).calls_le
    rw [Nat.zero_add] at hcalls
    exact ⟨(hrange m hm).lower, (hrange m hm).upper, hcalls⟩
  · intro ⟨m, hm, hdepth⟩
    exact (hrange m hm).tooDeep hdepth
  · intro ⟨e, t, hr, hcause⟩
    have hleft := r.keepsDepth.outcome s hbudget
    obtain ⟨m, hm, hstate⟩ := r.keepsDepth.leaves 0 s
    rw [hr] at hleft hstate
    exact ⟨m, hm, (congrArg State.depth hstate).trans (hleft hcause)⟩

/-- With one level left a name is read, and a name in parentheses goes too deep. -/
theorem depth_balanced_parentheses :
    let s : State := { State.ofTokens [⟨.openParen, "(", .none⟩, ⟨.identifier, "x", .none⟩,
      ⟨.closeParen, ")", .none⟩] with depth := 255 }
    s.depth ≤ nestingLimit ∧
      (∀ r : Routine s.budget (expr .default),
        ∃ m ∈ r.moments 0 s, m.state.depth = nestingLimit + 1) ∧
      s.next.depth ≤ nestingLimit ∧ ∃ e t, expr .default s.next = .ok e t ∧ t.depth = 255 := by
  intro s
  have hs : s.depth ≤ nestingLimit := by decide
  have hnext : s.next.depth ≤ nestingLimit := by decide
  have hname : ∃ e t, exprWithin 1 .default s.next = .ok e t :=
    ⟨_, _, by unfold exprWithin climb; rfl⟩
  obtain ⟨e, t, hread⟩ : ∃ e t, expr .default s.next = .ok e t := hname
  obtain ⟨-, -, hmoments, -⟩ := depth_balanced (.expr .default) s hs
  obtain ⟨hreturns, -⟩ := depth_balanced (.expr .default) s.next hnext
  exact ⟨hs, fun r => (hmoments r).2.2 ⟨_, _, rfl, rfl⟩, hnext, e, t, hread, hreturns e t hread⟩

end ClassScript.Parse

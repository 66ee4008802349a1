import ClassScript.Parse.Lookahead
import ClassScript.Parse.Stmt

/-!
# What a parser does from a state

`Outcome ok fails r` says of the result `r` of a run that a returned value and
the state it leaves satisfy `ok`, and that an error and the state it leaves
satisfy `fails`. Each primitive of the parser has one lemma that says exactly
what it takes for an outcome, so a parser is followed by rewriting with these
lemmas and never by unfolding the monad.

The two loops have a rule each: what one round keeps, the loop keeps.
-/

namespace ClassScript.Parse

variable {α β : Type}

/-- A returned value satisfies `ok`, an error satisfies `fails`, each together
with the state that is left. -/
def Outcome (ok : α → State → Prop) (fails : CompileError → State → Prop) :
    EStateM.Result CompileError State α → Prop
  | .ok a s => ok a s
  | .error e s => fails e s

/-! ### The next state -/

namespace State

/-- Reading a token neither enters nor leaves a level. -/
@[simp] theorem next_depth (s : State) : s.next.depth = s.depth := by
  unfold next
  split
  · rfl
  · split <;> rfl

@[simp] theorem next_scope (s : State) : s.next.scope = s.scope := by
  unfold next
  split
  · rfl
  · split <;> rfl

end State

/-! ### Outcomes -/

section

variable {ok : α → State → Prop} {fails : CompileError → State → Prop} {s : State}

@[simp] theorem outcome_ok (a : α) : Outcome ok fails (.ok a s) ↔ ok a s := Iff.rfl

@[simp] theorem outcome_error (e : CompileError) :
    Outcome ok fails (.error e s) ↔ fails e s := Iff.rfl

/-- What is known of a returned value may be weakened. -/
theorem Outcome.mono {ok' : α → State → Prop} {r : EStateM.Result CompileError State α}
    (h : Outcome ok fails r) (hok : ∀ a s, ok a s → ok' a s) : Outcome ok' fails r := by
  cases r with
  | ok a s => exact hok a s h
  | error e s => exact h

/-- What is known of a returned value in two ways. -/
theorem Outcome.and {ok' : α → State → Prop} {fails' : CompileError → State → Prop}
    {r : EStateM.Result CompileError State α} (h : Outcome ok fails r)
    (h' : Outcome ok' fails' r) : Outcome (fun a s => ok a s ∧ ok' a s) fails r := by
  cases r with
  | ok a s => exact ⟨h, h'⟩
  | error e s => exact h

/-- What is known of a returned value. -/
theorem Outcome.of_eq_ok {r : EStateM.Result CompileError State α} {a : α}
    (h : Outcome ok fails r) (hr : r = .ok a s) : ok a s := by
  rw [hr] at h
  exact h

/-- What is known of a returned value, together with the run that has returned it. -/
theorem Outcome.and_eq {r : EStateM.Result CompileError State α} (h : Outcome ok fails r) :
    Outcome (fun a s => ok a s ∧ r = .ok a s) fails r := by
  cases r with
  | ok a s => exact ⟨h, rfl⟩
  | error e s => exact h

/-- A run that cannot fail returns. -/
theorem Outcome.exists_ok {r : EStateM.Result CompileError State α}
    (h : Outcome ok (fun _ _ => False) r) : ∃ a s, r = .ok a s ∧ ok a s := by
  cases r with
  | ok a s => exact ⟨a, s, rfl, h⟩
  | error e s => exact h.elim

/-! ### Composition and the primitives of the monad -/

@[simp] theorem outcome_pure (a : α) : Outcome ok fails ((pure a : Parse α) s) ↔ ok a s := Iff.rfl

/-- A sequence: the outcome of its first part is that its second part has the
outcome asked for. -/
@[simp] theorem outcome_bind (m : Parse β) (f : β → Parse α) :
    Outcome ok fails ((m >>= f) s) ↔
      Outcome (fun b s' => Outcome ok fails (f b s')) fails (m s) := by
  show Outcome ok fails (EStateM.bind m f s) ↔ _
  unfold EStateM.bind
  cases m s <;> rfl

/-- A value that is changed afterwards. -/
@[simp] theorem outcome_map (m : Parse β) (f : β → α) :
    Outcome ok fails ((f <$> m) s) ↔ Outcome (fun b s' => ok (f b) s') fails (m s) := by
  show Outcome ok fails (EStateM.map f m s) ↔ _
  unfold EStateM.map
  cases m s <;> rfl

@[simp] theorem outcome_get {ok : State → State → Prop} :
    Outcome ok fails ((get : Parse State) s) ↔ ok s s := Iff.rfl

@[simp] theorem outcome_set {ok : PUnit → State → Prop} (s' : State) :
    Outcome ok fails ((set s' : Parse PUnit) s) ↔ ok ⟨⟩ s' := Iff.rfl

@[simp] theorem outcome_modify {ok : PUnit → State → Prop} (f : State → State) :
    Outcome ok fails ((modify f : Parse PUnit) s) ↔ ok ⟨⟩ (f s) := Iff.rfl

@[simp] theorem outcome_throw (e : CompileError) :
    Outcome ok fails ((throw e : Parse α) s) ↔ fails e s := Iff.rfl

/-- A choice has an outcome if the branch taken has it. -/
theorem outcome_ite (c : Prop) [Decidable c] (m m' : Parse α) :
    Outcome ok fails ((if c then m else m') s) ↔
      (c → Outcome ok fails (m s)) ∧ (¬ c → Outcome ok fails (m' s)) := by
  by_cases h : c <;> simp [h]

/-! ### The primitives of the parser -/

@[simp] theorem outcome_fail (error : State → CompileError) :
    Outcome ok fails (fail (α := α) error s) ↔ fails (error s) s := Iff.rfl

@[simp] theorem outcome_kind {ok : Kind → State → Prop} :
    Outcome ok fails (kind s) ↔ ok s.kind s := Iff.rfl

@[simp] theorem outcome_position {ok : Position → State → Prop} :
    Outcome ok fails (position s) ↔ ok s.current.span.start s := Iff.rfl

/-- A span ends where the last token has ended. -/
@[simp] theorem outcome_spanFrom {ok : Span → State → Prop} (start : Position) :
    Outcome ok fails (spanFrom start s) ↔ ok (s.spanFrom start) s := Iff.rfl

@[simp] theorem outcome_advance {ok : Token → State → Prop} :
    Outcome ok fails (advance s) ↔ ok s.current s.next := Iff.rfl

/-- The token is read, or it is named in the error. -/
@[simp] theorem outcome_expectDescribed {ok : Token → State → Prop} (k : Kind) (expected : String) :
    Outcome ok fails (expectDescribed k expected s) ↔
      (s.kind = k → ok s.current s.next) ∧ (s.kind ≠ k → fails (s.unexpected expected) s) := by
  unfold expectDescribed
  rw [outcome_bind, outcome_get, outcome_ite, outcome_advance, outcome_fail]

@[simp] theorem outcome_expect {ok : Token → State → Prop} (k : Kind) :
    Outcome ok fails (expect k s) ↔
      (s.kind = k → ok s.current s.next) ∧ (s.kind ≠ k → fails (s.unexpected k.describe) s) :=
  outcome_expectDescribed k k.describe

/-- The token is read, or nothing happens. -/
@[simp] theorem outcome_accept {ok : Bool → State → Prop} (k : Kind) :
    Outcome ok fails (accept k s) ↔
      (s.kind = k → ok true s.next) ∧ (s.kind ≠ k → ok false s) := by
  unfold accept
  rw [outcome_bind, outcome_get, outcome_ite, outcome_bind, outcome_advance, outcome_pure,
    outcome_pure]

/-- The level that is one too many is entered before the error. -/
@[simp] theorem outcome_tooDeep :
    Outcome ok fails (tooDeep (α := α) s) ↔ fails s.tooDeep { s with depth := s.depth + 1 } :=
  Iff.rfl

@[simp] theorem outcome_deepen {ok : PUnit → State → Prop} :
    Outcome ok fails (deepen s) ↔
      (s.depth < nestingLimit → ok ⟨⟩ { s with depth := s.depth + 1 }) ∧
        (¬ s.depth < nestingLimit → fails s.tooDeep { s with depth := s.depth + 1 }) := by
  unfold deepen
  rw [outcome_bind, outcome_get, outcome_ite, outcome_modify, outcome_tooDeep]

/-- Levels are left together. -/
@[simp] theorem outcome_surface {ok : PUnit → State → Prop} (levels : Nat) :
    Outcome ok fails (surface levels s) ↔ ok ⟨⟩ { s with depth := s.depth - levels } := Iff.rfl

@[simp] theorem outcome_modifyScope {ok : PUnit → State → Prop} (f : Scope → Scope) :
    Outcome ok fails (modifyScope f s) ↔ ok ⟨⟩ { s with scope := f s.scope } := Iff.rfl

/-- A class begins with a look at all of its body. -/
@[simp] theorem outcome_beginClass {ok : PUnit → State → Prop} (name : String) :
    Outcome ok fails (beginClass name s) ↔
      ok ⟨⟩ { s with scope := .beginClass name (domMembersIn 0 0 s.tokens) } := Iff.rfl

@[simp] theorem outcome_endClass {ok : PUnit → State → Prop} :
    Outcome ok fails (endClass s) ↔ ok ⟨⟩ { s with scope := .empty } := Iff.rfl

end

/-! ### The loops -/

section

variable {fails : CompileError → State → Prop} {inv : State → Prop} {each : α → Prop}

/-- If every round keeps `inv` and returns an item with `each`, so does the loop. -/
theorem outcome_many {more : State → Bool} {item : Parse α}
    (round : ∀ s, inv s → more s = true → Outcome (fun a s' => each a ∧ inv s') fails (item s))
    (s : State) (hs : inv s) :
    Outcome (fun as s' => (∀ a ∈ as, each a) ∧ inv s') fails (many more item s) := by
  fun_induction many more item s with
  | case1 s hmore e s' hitem =>
    have h := round s hs hmore
    rw [hitem] at h
    exact h
  | case2 s hmore a s' hitem hlt e s'' hmany ih =>
    have h := round s hs hmore
    rw [hitem] at h
    have hrest := ih h.2
    rw [hmany] at hrest
    exact hrest
  | case3 s hmore a s' hitem hlt as s'' hmany ih =>
    have h := round s hs hmore
    rw [hitem] at h
    have hrest := ih h.2
    rw [hmany] at hrest
    exact ⟨List.forall_mem_cons.2 ⟨h.1, hrest.1⟩, hrest.2⟩
  | case4 s hmore a s' hitem hlt =>
    -- A round that leaves as many tokens as it found is the last one.
    have h := round s hs hmore
    rw [hitem] at h
    exact ⟨List.forall_mem_cons.2 ⟨h.1, by simp⟩, h.2⟩
  | case5 s hmore => exact ⟨by simp, hs⟩

/-- If every item keeps `inv` and has `each`, and reading a comma keeps `inv`, so
does the list. -/
theorem outcome_commaList {stop : Kind} {item : Parse α} (next : ∀ s, inv s → inv s.next)
    (round : ∀ s, inv s → Outcome (fun a s' => each a ∧ inv s') fails (item s))
    (s : State) (hs : inv s) :
    Outcome (fun as s' => (∀ a ∈ as, each a) ∧ inv s') fails (commaList stop item s) := by
  fun_induction commaList stop item s with
  | case1 s hstop => exact ⟨by simp, hs⟩
  | case2 s hstop e s' hitem =>
    have h := round s hs
    rw [hitem] at h
    exact h
  | case3 s hstop a s' hitem hcomma hlt e s'' hrest ih =>
    have h := round s hs
    rw [hitem] at h
    have hlist := ih (next s' h.2)
    rw [hrest] at hlist
    exact hlist
  | case4 s hstop a s' hitem hcomma hlt as s'' hrest ih =>
    have h := round s hs
    rw [hitem] at h
    have hlist := ih (next s' h.2)
    rw [hrest] at hlist
    exact ⟨List.forall_mem_cons.2 ⟨h.1, hlist.1⟩, hlist.2⟩
  | case5 s hstop a s' hitem hcomma hlt =>
    have h := round s hs
    rw [hitem] at h
    exact ⟨List.forall_mem_cons.2 ⟨h.1, by simp⟩, next s' h.2⟩
  | case6 s hstop a s' hitem hcomma =>
    have h := round s hs
    rw [hitem] at h
    exact ⟨List.forall_mem_cons.2 ⟨h.1, by simp⟩, h.2⟩

/-- Items with commas between them, if there is at least one. -/
theorem outcome_commaSeparated {item : Parse α} (next : ∀ s, inv s → inv s.next)
    (round : ∀ s, inv s → Outcome (fun a s' => each a ∧ inv s') fails (item s))
    (s : State) (hs : inv s) :
    Outcome (fun as s' => (∀ a ∈ as, each a) ∧ inv s') fails (commaSeparated item s) := by
  have more : ∀ t, inv t → (decide (t.kind = .comma)) = true →
      Outcome (fun a s' => each a ∧ inv s') fails ((advance >>= fun _ => item) t) := by
    intro t ht _
    rw [outcome_bind, outcome_advance]
    exact round t.next (next t ht)
  unfold commaSeparated
  rw [outcome_bind]
  refine (round s hs).mono fun a s' ha => ?_
  rw [outcome_bind]
  refine (outcome_many more s' ha.2).mono fun as s'' has => ?_
  exact ⟨List.forall_mem_cons.2 ⟨ha.1, has.1⟩, has.2⟩

end

end ClassScript.Parse

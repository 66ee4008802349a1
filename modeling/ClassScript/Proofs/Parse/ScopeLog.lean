import ClassScript.Proofs.Parse.Rules

/-!
# The calls that change the scope

What is known about the names in scope changes by four calls: a class begins or ends, a
member begins, a local is declared. A log lists the calls that were made, the latest first.

Two functions read a log and know nothing of scopes. `ScopeCall.latest?` is the latest
declaration of a name since a member or a class began or a class ended, and
`ScopeCall.recorded` are the members that the class at hand has recorded. `knows_replay`
says that a scope holds no more and no less than these two.

A parser is a function from states to results, which does not show the calls it makes.
`Trace p s log t r` is a run of `p` with its log, up to any moment of it: the state is then
`t`, and `r` is the outcome, if the run has ended. Its log tells the scope (`Trace.scope_eq`),
and where it has ended, the parser has (`Trace.ended`). `Traced p` says that every run of `p`
can be followed to its end in this way, whether it returns or fails.
-/

namespace ClassScript.Parse

variable {α β : Type}

/-! ### Calls and logs -/

/-- A call that changes what is known about the names in scope. A class that begins records
its members of an element type. -/
inductive ScopeCall where
  | beginClass (name : String) (domMembers : List String)
  | endClass
  | beginMember
  | declareLocal (name : String) (isDom : Bool)
deriving DecidableEq

namespace ScopeCall

/-- The scope after a call. -/
def apply (s : Scope) : ScopeCall → Scope
  | .beginClass name domMembers => .beginClass name domMembers
  | .endClass => .empty
  | .beginMember => s.beginMember
  | .declareLocal name isDom => s.declareLocal name isDom

/-- The scope after all calls of a log, the latest of which comes first. -/
def replay (s : Scope) (log : List ScopeCall) : Scope :=
  log.foldr (fun call scope => call.apply scope) s

/-- What the latest declaration of `name` says, of those since a member or a class began or
a class ended. -/
def latest? (name : String) : List ScopeCall → Option Bool
  | .declareLocal other isDom :: log => if other = name then some isDom else latest? name log
  | _ => none

/-- The members that were recorded by the last class that began, unless it has ended. -/
def recorded : List ScopeCall → List String
  | [] => []
  | .beginClass _ domMembers :: _ => domMembers
  | .endClass :: _ => []
  | .beginMember :: log => recorded log
  | .declareLocal .. :: log => recorded log

theorem replay_append (s : Scope) (later earlier : List ScopeCall) :
    replay s (later ++ earlier) = replay (replay s earlier) later :=
  List.foldr_append

/-- The scope holds what the log tells. -/
structure Knows (log : List ScopeCall) (s : Scope) : Prop where
  domLocals : ∀ name, name ∈ s.domLocals ↔ latest? name log = some true
  plainLocals : ∀ name, name ∈ s.plainLocals ↔ latest? name log = some false
  domMembers : s.domMembers = recorded log

/-- Where the locals are forgotten, no declaration counts any more. -/
theorem Knows.of_forgotten {log : List ScopeCall} {s : Scope}
    (hlatest : ∀ name, latest? name log = none) (hdom : s.domLocals = [])
    (hplain : s.plainLocals = []) (hmembers : s.domMembers = recorded log) : Knows log s :=
  ⟨fun name => by simp [hlatest, hdom], fun name => by simp [hlatest, hplain], hmembers⟩

/-- A declaration moves the name to the list it belongs to, and leaves the other names. -/
theorem Knows.declareLocal {log : List ScopeCall} {s : Scope} (h : Knows log s) (name : String)
    (isDom : Bool) : Knows (.declareLocal name isDom :: log) (s.declareLocal name isDom) := by
  refine ⟨fun n => ?_, fun n => ?_, ?_⟩
  · have hn := h.domLocals n
    cases isDom <;> by_cases hname : name = n <;> grind [Scope.declareLocal, latest?]
  · have hn := h.plainLocals n
    cases isDom <;> by_cases hname : name = n <;> grind [Scope.declareLocal, latest?]
  · cases isDom <;> exact h.domMembers

/-- One more call, by cases on what it is. -/
theorem Knows.apply {log : List ScopeCall} {s : Scope} (h : Knows log s) (call : ScopeCall) :
    Knows (call :: log) (call.apply s) := by
  cases call with
  | beginClass name domMembers => exact .of_forgotten (fun _ => rfl) rfl rfl rfl
  | endClass => exact .of_forgotten (fun _ => rfl) rfl rfl rfl
  | beginMember => exact .of_forgotten (fun _ => rfl) rfl rfl h.domMembers
  | declareLocal name isDom => exact h.declareLocal name isDom

/-- The scope after all calls of a log holds what the log tells. -/
theorem knows_replay (log : List ScopeCall) : Knows log (replay .empty log) := by
  induction log with
  | nil => exact .of_forgotten (fun _ => rfl) rfl rfl rfl
  | cons call log ih => exact ih.apply call

/-- A name has one latest declaration at most, so the two lists of locals are disjoint. -/
theorem Knows.disjoint {log : List ScopeCall} {s : Scope} (h : Knows log s) {name : String}
    (hdom : name ∈ s.domLocals) : name ∉ s.plainLocals := by
  intro hplain
  have hlatest := (h.domLocals name).1 hdom
  rw [(h.plainLocals name).1 hplain] at hlatest
  cases hlatest

/-- A name is one of an element by its latest declaration, or by the class if there is none. -/
theorem Knows.isDomName_iff {log : List ScopeCall} {s : Scope} (h : Knows log s) (name : String) :
    s.isDomName name = true ↔
      latest? name log = some true ∨ latest? name log = none ∧ name ∈ recorded log := by
  have hlocal := h.domLocals name
  have hplain := h.plainLocals name
  simp only [Scope.isDomName, Bool.or_eq_true, Bool.and_eq_true, Bool.not_eq_true',
    List.contains_iff_mem, ← Bool.not_eq_true, hlocal, hplain, h.domMembers]
  cases latest? name log with
  | none => simp
  | some isDom => cases isDom <;> simp

end ScopeCall

/-! ### Runs with their logs -/

/-- The steps that leave the scope alone. -/
inductive Silent : {α : Type} → Parse α → Prop
  | pure {α : Type} (a : α) : Silent (pure a)
  | get : Silent get
  | throw {α : Type} (e : CompileError) : Silent (throw (α := α) e)
  | modify (f : State → State) : (∀ s, (f s).scope = s.scope) → Silent (modify f)

/-- The steps that call: the parser, the state it begins in and the call it makes. -/
inductive Makes : Parse Unit → State → ScopeCall → Prop
  | beginClass (name : String) (s : State) :
      Makes (beginClass name) s (.beginClass name (domMembersIn 0 0 s.tokens))
  | endClass (s : State) : Makes endClass s .endClass
  | beginMember (s : State) : Makes (modifyScope (·.beginMember)) s .beginMember
  | declareLocal (name : String) (isDom : Bool) (s : State) :
      Makes (modifyScope (·.declareLocal name isDom)) s (.declareLocal name isDom)

/-- The value that a run returns, or its error. -/
def outcomeOf : EStateM.Result CompileError State α → Except CompileError α
  | .ok a _ => .ok a
  | .error e _ => .error e

/-- A run of a parser up to some moment: the state it begins in, the calls it has made, the
state it is in, and its outcome if that is its end. -/
inductive Trace : {α : Type} → Parse α → State → List ScopeCall → State →
    Option (Except CompileError α) → Prop
  | begun {α : Type} (p : Parse α) (s : State) : Trace p s [] s none
  | silent {α : Type} {p : Parse α} (s : State) :
      Silent p → Trace p s [] (finalState (p s)) (some (outcomeOf (p s)))
  | call {p : Parse Unit} {s : State} {call : ScopeCall} :
      Makes p s call → Trace p s [call] { s with scope := call.apply s.scope } (some (.ok ()))
  | first {α β : Type} {p : Parse α} {k : α → Parse β} {s t : State} {log : List ScopeCall} :
      Trace p s log t none → Trace (p >>= k) s log t none
  | failed {α β : Type} {p : Parse α} {k : α → Parse β} {s t : State} {log : List ScopeCall}
      {e : CompileError} :
      Trace p s log t (some (.error e)) → Trace (p >>= k) s log t (some (.error e))
  | second {α β : Type} {p : Parse α} {k : α → Parse β} {s t u : State}
      {earlier later : List ScopeCall} {a : α} {r : Option (Except CompileError β)} :
      Trace p s earlier t (some (.ok a)) → Trace (k a) t later u r →
      Trace (p >>= k) s (later ++ earlier) u r

/-- Such a step may move on or fail, but the names in scope stay. -/
theorem Silent.scope_eq {p : Parse α} (h : Silent p) (s : State) :
    (finalState (p s)).scope = s.scope := by
  cases h with
  | pure | get | throw => rfl
  | modify f hf => exact hf s

/-- Such a step does its call and nothing else. -/
theorem Makes.run {p : Parse Unit} {s : State} {call : ScopeCall} (h : Makes p s call) :
    p s = .ok () { s with scope := call.apply s.scope } := by
  cases h <;> rfl

theorem run_eq_ok_iff {p : Parse α} {s t : State} {a : α} :
    finalState (p s) = t ∧ outcomeOf (p s) = .ok a ↔ p s = .ok a t := by
  cases p s with
  | ok b u => simp [finalState, outcomeOf, and_comm]
  | error e u => simp [outcomeOf]

theorem run_eq_error_iff {p : Parse α} {s t : State} {e : CompileError} :
    finalState (p s) = t ∧ outcomeOf (p s) = .error e ↔ p s = .error e t := by
  cases p s with
  | ok b u => simp [outcomeOf]
  | error e u => simp [finalState, outcomeOf, and_comm]

namespace Trace

variable {p : Parse α} {s t : State} {log : List ScopeCall}
  {r : Option (Except CompileError α)}

/-- The calls of the log, and nothing else, have changed the scope. -/
theorem scope_eq (h : Trace p s log t r) : t.scope = ScopeCall.replay s.scope log := by
  induction h with
  | begun => rfl
  | silent s hp => exact hp.scope_eq s
  | call => rfl
  | first _ ih => exact ih
  | failed _ ih => exact ih
  | second _ _ ih ih' => rw [ScopeCall.replay_append, ← ih, ih']

/-- A trace that has ended is the run of the parser. -/
theorem ended (h : Trace p s log t r) :
    ∀ x, r = some x → finalState (p s) = t ∧ outcomeOf (p s) = x := by
  induction h with
  | begun =>
    intro x hx
    cases hx
  | silent s _ =>
    intro x hx
    exact ⟨rfl, Option.some.inj hx⟩
  | call hmakes =>
    intro x hx
    rw [hmakes.run]
    exact ⟨rfl, Option.some.inj hx⟩
  | first =>
    intro x hx
    cases hx
  | failed _ ih =>
    intro x hx
    cases hx
    rw [run_bind_of_error (run_eq_error_iff.1 (ih _ rfl))]
    exact ⟨rfl, rfl⟩
  | second _ _ ih ih' =>
    intro x hx
    rw [run_bind_of_ok (run_eq_ok_iff.1 (ih _ rfl))]
    exact ih' x hx

end Trace

/-! ### Runs that can be followed to their end -/

/-- The run of the parser from `s` has a trace to its end. -/
def TracedFrom (s : State) (p : Parse α) : Prop :=
  ∃ log, Trace p s log (finalState (p s)) (some (outcomeOf (p s)))

/-- Every run of the parser has a trace to its end. -/
def Traced (p : Parse α) : Prop :=
  ∀ s, TracedFrom s p

/-- The second part has a log of its own, which is put before the first one's. -/
theorem TracedFrom.bind {s : State} {p : Parse α} {k : α → Parse β} (hp : TracedFrom s p)
    (hk : ∀ a t, p s = .ok a t → TracedFrom t (k a)) : TracedFrom s (p >>= k) := by
  obtain ⟨earlier, htrace⟩ := hp
  cases hr : p s with
  | error e t =>
    rw [hr] at htrace
    refine ⟨earlier, ?_⟩
    rw [run_bind_of_error hr]
    exact .failed htrace
  | ok a t =>
    rw [hr] at htrace
    obtain ⟨later, hrest⟩ := hk a t hr
    refine ⟨later ++ earlier, ?_⟩
    rw [run_bind_of_ok hr]
    exact .second htrace hrest

theorem TracedFrom.look {s : State} {k : State → Parse α} (hk : TracedFrom s (k s)) :
    TracedFrom s (get >>= k) :=
  TracedFrom.bind ⟨[], .silent s .get⟩ fun t u h => by
    cases h
    exact hk

/-- The loop, written as a sequence. -/
theorem many_eq (more : State → Bool) (item : Parse α) :
    many more item = (do
      let s ← get
      if more s then
        let a ← item
        if (← get).remaining < s.remaining then
          let as ← many more item
          return a :: as
        else return [a]
      else return []) := by
  funext s
  rw [many]
  show _ = (if more s then _ else _ : Parse (List α)) s
  by_cases hmore : more s = true
  · rw [if_pos hmore, if_pos hmore]
    cases h : item s with
    | error e t => rw [run_bind_of_error h]
    | ok a t =>
      rw [run_bind_of_ok h]
      show _ = (if t.remaining < s.remaining then _ else _ : Parse (List α)) t
      dsimp only
      by_cases hlt : t.remaining < s.remaining
      · rw [if_pos hlt, if_pos hlt]
        cases h : many more item t with
        | error e u => rw [run_bind_of_error h]
        | ok as u =>
          rw [run_bind_of_ok h]
          rfl
      · rw [if_neg hlt, if_neg hlt]
        rfl
  · rw [if_neg hmore, if_neg hmore]
    rfl

/-- The list, written as a sequence. -/
theorem commaList_eq (stop : Kind) (item : Parse α) :
    commaList stop item = (do
      let s ← get
      if s.kind = stop then return []
      else
        let a ← item
        if ← accept .comma then
          if (← get).remaining < s.remaining then
            let as ← commaList stop item
            return a :: as
          else return [a]
        else return [a]) := by
  funext s
  rw [commaList]
  show _ = (if s.kind = stop then _ else _ : Parse (List α)) s
  by_cases hstop : s.kind = stop
  · rw [if_pos hstop, if_pos hstop]
    rfl
  rw [if_neg hstop, if_neg hstop]
  cases h : item s with
  | error e t => rw [run_bind_of_error h]
  | ok a t =>
    rw [run_bind_of_ok h]
    dsimp only
    by_cases hcomma : t.kind = .comma
    · have haccept : accept .comma t = .ok true t.next := by rw [run_accept, if_pos hcomma]
      rw [if_pos hcomma, run_bind_of_ok haccept]
      show _ = (if t.next.remaining < s.remaining then _ else _ : Parse (List α)) t.next
      by_cases hlt : t.next.remaining < s.remaining
      · rw [if_pos hlt, if_pos hlt]
        cases h : commaList stop item t.next with
        | error e u => rw [run_bind_of_error h]
        | ok as u =>
          rw [run_bind_of_ok h]
          rfl
      · rw [if_neg hlt, if_neg hlt]
        rfl
    · have haccept : accept .comma t = .ok false t := by rw [run_accept, if_neg hcomma]
      rw [if_neg hcomma, run_bind_of_ok haccept]
      rfl

/-- No name is declared in what is skipped. -/
theorem closeBraces_scope (depth : Nat) (s : State) : (closeBraces depth s).1.scope = s.scope := by
  fun_induction closeBraces depth s with
  | case1 depth s _ _ ih => exact ih.trans s.next_scope
  | case2 s => exact s.next_scope
  | case3 depth s _ _ _ ih => exact ih.trans s.next_scope
  | case4 depth s _ _ _ ih => exact ih.trans s.next_scope
  | case5 => rfl

namespace Traced

theorem silent {p : Parse α} (h : Silent p) : Traced p :=
  fun s => ⟨[], .silent s h⟩

/-- A step that makes its call in any state. -/
theorem calls {p : Parse Unit} {call : State → ScopeCall} (h : ∀ s, Makes p s (call s)) :
    Traced p := by
  intro s
  refine ⟨[call s], ?_⟩
  rw [(h s).run]
  exact .call (h s)

/-- The rule for sequences, from any state. -/
theorem bind {p : Parse α} {k : α → Parse β} (hp : Traced p) (hk : ∀ a, Traced (k a)) :
    Traced (p >>= k) :=
  fun s => (hp s).bind fun a t _ => hk a t

theorem pure (a : α) : Traced (pure a) :=
  silent (.pure a)

theorem throw (e : CompileError) : Traced (throw (α := α) e) :=
  silent (.throw e)

theorem change (f : State → State) (h : ∀ s, (f s).scope = s.scope) : Traced (modify f) :=
  silent (.modify f h)

/-- The parser looks at the state. -/
theorem look {k : State → Parse α} (hk : ∀ s, Traced (k s)) : Traced (get >>= k) :=
  (silent .get).bind hk

/-! ### Single steps -/

theorem fail (error : State → CompileError) : Traced (fail (α := α) error) :=
  look fun _ => throw _

theorem advance : Traced advance := by
  have heq : Parse.advance = (do let s ← get; modify State.next; return s.current) := rfl
  rw [heq]
  exact look fun _ => (change _ State.next_scope).bind fun _ => pure _

theorem described (k : Kind) (expected : String) : Traced (expectDescribed k expected) := by
  refine look fun s => ?_
  split
  · exact advance
  · exact fail _

theorem expect (k : Kind) : Traced (expect k) :=
  described k k.describe

theorem accept (k : Kind) : Traced (accept k) := by
  refine look fun s => ?_
  split
  · exact advance.bind fun _ => pure _
  · exact pure _

theorem deeper : Traced (modify fun s : State => { s with depth := s.depth + 1 }) :=
  change _ fun _ => rfl

theorem tooDeep : Traced (tooDeep (α := α)) :=
  deeper.bind fun _ => fail _

theorem deepen : Traced deepen := by
  refine look fun s => ?_
  split
  · exact deeper
  · exact tooDeep

theorem surface (levels : Nat) : Traced (surface levels) :=
  change _ fun _ => rfl

/-- A level is entered and left without a call. -/
theorem nested {body : Parse α} (h : Traced body) : Traced (nested body) :=
  deepen.bind fun _ => h.bind fun _ => (surface 1).bind fun _ => pure _

theorem skipBraced : Traced skipBraced := by
  have heq : Parse.skipBraced = (do
      let _ ← Parse.expect .openCurly
      let s ← get
      modify fun s => (closeBraces 1 s).1
      if !(closeBraces 1 s).2 then Parse.fail (·.unexpected "`\x7d`")) := rfl
  rw [heq]
  refine (expect _).bind fun _ => look fun s => ?_
  refine (change _ (closeBraces_scope 1)).bind fun _ => ?_
  split
  · exact fail _
  · exact pure _

/-! ### Loops -/

/-- Both loops go round again where something has been read, so the induction is on the
tokens that remain. -/
theorem many {more : State → Bool} {p : Parse α} (hp : Traced p) : Traced (many more p) := by
  intro s
  induction hn : s.remaining using Nat.strongRecOn generalizing s with
  | ind n ih =>
    subst hn
    rw [many_eq]
    refine TracedFrom.look ?_
    split
    · refine (hp s).bind fun a t _ => TracedFrom.look ?_
      split
      · rename_i hlt
        exact (ih _ hlt t rfl).bind fun as u _ => pure (a :: as) u
      · exact pure [a] t
    · exact pure [] s

/-- By induction on the tokens that are left, as for a repetition. -/
theorem commaList {stop : Kind} {p : Parse α} (hp : Traced p) : Traced (commaList stop p) := by
  intro s
  induction hn : s.remaining using Nat.strongRecOn generalizing s with
  | ind n ih =>
    subst hn
    rw [commaList_eq]
    refine TracedFrom.look ?_
    split
    · exact pure [] s
    · refine (hp s).bind fun a t _ => (accept .comma t).bind fun comma u _ => ?_
      split
      · refine TracedFrom.look ?_
        split
        · rename_i hlt
          exact (ih _ hlt u rfl).bind fun as v _ => pure (a :: as) v
        · exact pure [a] u
      · exact pure [a] u

end Traced

end ClassScript.Parse

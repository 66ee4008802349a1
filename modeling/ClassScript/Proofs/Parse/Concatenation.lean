import ClassScript.Proofs.Parse.Frame

/-!
# Declarations one after another

A top-level declaration ends with a semicolon or with the brace that closes it, and what
is read for it does not depend on what follows (`Closes`). It leaves the depth and the
scope as it found them, and where the token before it ended has no effect on it
(`ReadsFirst`). So a parser that has read some declarations goes on as one that begins
with the next, and a list of tokens that is made of two parts gives what the parts give,
one after the other (`parseTokens_append`).
-/

namespace ClassScript.Parse

/-! ### Declarations that end with their last token -/

/-- A run that returns has just read a token `stop` that ends a declaration and closes the
`n` open braces, and on any input with the same tokens up to there it does the same. -/
def Closes {α : Type} (n : Nat) (p : Parse α) : Prop :=
  ∀ s a t, s.Ended → p s = .ok a t → ∃ w stop, s.tokens = w ++ stop :: t.tokens ∧
    bracesAfterAll n (w ++ [stop]) = some 0 ∧ stop.kind.isEnd = true ∧
    ∀ s' r, s'.tokens = w ++ stop :: r → r ≠ [] → SameContext s s' →
      ∃ t', p s' = .ok a t' ∧ t'.tokens = r ∧ SameContext t t'

/-- No token is read, and none is looked at. -/
def Quiet {α : Type} (p : Parse α) : Prop :=
  ∀ s a t, p s = .ok a t → t.tokens = s.tokens ∧
    ∀ s', SameContext s s' → ∃ t', p s' = .ok a t' ∧ t'.tokens = s'.tokens ∧ SameContext t t'

section

variable {α β : Type} {n : Nat} {p : Parse α} {k : α → Parse β}

theorem Quiet.pure (a : α) : Quiet (pure a) := by
  intro s b t h
  cases h
  exact ⟨rfl, fun s' hs => ⟨s', rfl, rfl, hs⟩⟩

theorem Quiet.bind (hp : Quiet p) (hk : ∀ a, Quiet (k a)) : Quiet (p >>= k) := by
  intro s b t h
  obtain ⟨a, u, hfirst, hrest⟩ := bind_eq_ok_iff.1 h
  obtain ⟨hu, hsame⟩ := hp s a u hfirst
  obtain ⟨ht, hsame'⟩ := hk a u b t hrest
  refine ⟨ht.trans hu, fun s' hs => ?_⟩
  obtain ⟨u', hfirst', hu', hcontext⟩ := hsame s' hs
  obtain ⟨t', hrest', ht', hcontext'⟩ := hsame' u' hcontext
  exact ⟨t', bind_eq_ok_iff.2 ⟨a, u', hfirst', hrest'⟩, ht'.trans hu', hcontext'⟩

theorem Quiet.spanFrom (start : Position) : Quiet (spanFrom start) := by
  intro s a t h
  cases h
  exact ⟨rfl, fun s' hs => ⟨s', by rw [State.spanFrom, ← hs.lastStop]; rfl, rfl, hs⟩⟩

theorem Quiet.modifyScope (f : Scope → Scope) : Quiet (modifyScope f) := by
  intro s a t h
  cases h
  exact ⟨rfl, fun s' hs => ⟨_, rfl, rfl, hs.lastStop, hs.depth, congrArg f hs.scope⟩⟩

/-- A declaration may end with the token that is expected. -/
theorem Closes.expectDescribed {x : Kind} (expected : String) (hx : x.isEnd = true)
    (hn : bracesAfter n x = some 0) : Closes n (expectDescribed x expected) := by
  intro s a t hs h
  rw [run_expectDescribed] at h
  split at h
  · rename_i hkind
    cases h
    have heof : s.kind ≠ .eof := by
      intro heof
      rw [← hkind, heof] at hx
      cases hx
    have hnext := State.next_of_more heof (hs.following_ne_nil heof)
    refine ⟨[], s.current, by rw [hnext.1]; rfl, ?_, (congrArg Kind.isEnd hkind).trans hx, ?_⟩
    · rw [List.nil_append, bracesAfterAll_cons]
      exact (congrArg (Option.bind · _) (hkind ▸ hn)).trans rfl
    · intro s' r hs' hr hcontext
      obtain ⟨hcurrent, hfollowing⟩ := List.cons.inj hs'
      have hkind' : s'.kind = s.kind := congrArg Token.kind hcurrent
      have hnext' := State.next_of_more (hkind' ▸ heof) (hfollowing ▸ hr)
      refine ⟨s'.next, ?_, hnext'.1.trans hfollowing, ?_, ?_, ?_⟩
      · rw [run_expectDescribed, if_pos (hkind'.trans hkind), hcurrent]
      · rw [hnext.2, hnext'.2, hcurrent]
      · simp [hcontext.depth]
      · simp [hcontext.scope]
  · cases h

/-- Something that is part of the declaration comes first. -/
theorem Closes.bind {γ : Type} {l l' : Level} {view : α → γ} {q : Parse α}
    (hp : Parallel Eq (fun _ => True) l l' view p q) (hk : ∀ a, Closes l'.braces (k a)) :
    Closes l.braces (p >>= k) := by
  intro s b t hs h
  obtain ⟨a, u, hfirst, hrest⟩ := bind_eq_ok_iff.1 h
  have hread := hp.reads s a u hs trivial hfirst
  obtain ⟨v, hv, hbraces⟩ := hread.tokens
  obtain ⟨w, stop, hw, hclosed, hend, hsame⟩ := hk a u b t (hread.ended hs) hrest
  have hall : bracesAfterAll l.braces (v ++ w ++ [stop]) = some 0 := by
    rw [List.append_assoc, bracesAfterAll_append, hbraces]
    exact hclosed
  have htokens : s.tokens = v ++ w ++ stop :: t.tokens := by
    rw [hv, hw, List.append_assoc]
  refine ⟨v ++ w, stop, htokens, hall, hend, fun s' r hs' hr hcontext => ?_⟩
  have hbeside : Beside stop t.tokens r l.braces s s' := ⟨hcontext, v ++ w, htokens, hs', hall⟩
  have hlt : t.tokens.length < u.tokens.length := by
    rw [hw, List.length_append, List.length_cons]
    omega
  obtain ⟨u', hfirst', hu⟩ := hp.beside hend (List.cons_ne_nil _ _) s s' a u hbeside hs trivial
    hfirst hlt
  obtain ⟨w', hw', hu', -⟩ := hu.tokens
  obtain rfl : w = w' := List.append_cancel_right (hw.symm.trans hw')
  obtain ⟨t', hrest', ht', hcontext'⟩ := hsame u' r hu' hr hu.toSameContext
  exact ⟨t', bind_eq_ok_iff.2 ⟨a, u', hfirst', hrest'⟩, ht', hcontext'⟩

/-- What is done after the last token does not matter. -/
theorem Closes.quiet (hp : Closes n p) (hk : ∀ a, Quiet (k a)) : Closes n (p >>= k) := by
  intro s b t hs h
  obtain ⟨a, u, hfirst, hrest⟩ := bind_eq_ok_iff.1 h
  obtain ⟨w, stop, hw, hclosed, hend, hsame⟩ := hp s a u hs hfirst
  obtain ⟨ht, hsame'⟩ := hk a u b t hrest
  refine ⟨w, stop, by rw [hw, ht], hclosed, hend, fun s' r hs' hr hcontext => ?_⟩
  obtain ⟨u', hfirst', hu', hcontext₁⟩ := hsame s' r hs' hr hcontext
  obtain ⟨t', hrest', ht', hcontext₂⟩ := hsame' u' hcontext₁
  exact ⟨t', bind_eq_ok_iff.2 ⟨a, u', hfirst', hrest'⟩, ht'.trans hu', hcontext₂⟩

/-- A question is answered by the tokens of the declaration. -/
theorem Closes.ask {γ : Type} {o : State → γ} {k : γ → Parse β} (ho : Question o)
    (hk : ∀ c, Closes n (k c)) : Closes n (get >>= fun s => k (o s)) := by
  intro s b t hs h
  obtain ⟨w, stop, hw, hclosed, hend, hsame⟩ := hk (o s) s b t hs h
  refine ⟨w, stop, hw, hclosed, hend, fun s' r hs' hr hcontext => ?_⟩
  have hbeside : Beside stop t.tokens r n s s' := ⟨hcontext, w, hw, hs', hclosed⟩
  show ∃ t', k (o s') s' = _ ∧ _
  rw [ho.beside hend hbeside]
  exact hsame s' r hs' hr hcontext

theorem Closes.kind {k : Kind → Parse β} (hk : ∀ c, Closes n (k c)) :
    Closes n (Parse.kind >>= k) :=
  .ask (k := k) .kind hk

/-- A semicolon may stand in place of the rest. -/
theorem Closes.accept {q : Parse β} {b : β} (hq : Closes 0 q) :
    Closes 0 (accept .semicolon >>= fun yes => if yes then Pure.pure b else q) := by
  have hrun : (Parse.accept .semicolon >>= fun yes => if yes then Pure.pure b else q) =
      Parse.kind >>= fun c =>
        if c = .semicolon then expect .semicolon >>= fun _ => Pure.pure b else q := by
    funext s
    show EStateM.bind _ _ s = (if s.kind = .semicolon then EStateM.bind _ _ else q) s
    by_cases hkind : s.kind = .semicolon
    · rw [if_pos hkind]
      simp [EStateM.bind, expect, run_accept, run_expectDescribed, hkind]
    · rw [if_neg hkind]
      simp [EStateM.bind, run_accept, hkind]
  rw [hrun]
  refine .kind fun c => ?_
  split
  · exact Closes.quiet (.expectDescribed _ rfl rfl) fun _ => .pure b
  · exact hq

end

/-! ### The declarations of the language -/

/-- An import ends with its semicolon. -/
theorem closes_usingDirective : Closes 0 usingDirective := by
  refine .bind (l := ⟨0, 0⟩) (.expect rfl) fun _ => ?_
  refine .bind (l := ⟨0, 0⟩) (parallel_dottedName _) fun name => ?_
  exact .quiet (.expectDescribed _ rfl rfl) fun _ => .pure name

/-- A class ends with the brace that closes it. -/
theorem closes_classDecl : Closes 0 classDecl := by
  refine .bind (l := ⟨0, 0⟩) (.position ()) fun start => ?_
  refine .bind (l := ⟨0, 0⟩) parallel_modifiers fun m => ?_
  refine .bind (l := ⟨0, 0⟩) (.expect rfl) fun _ => ?_
  refine .bind (l := ⟨0, 0⟩) (.described _ rfl) fun name => ?_
  refine .bind (l := ⟨0, 0⟩) parallel_baseNames fun bases => ?_
  refine .bind (l := ⟨0, 0⟩) (.openCurly _) fun _ => ?_
  refine .bind (.beginClass _) fun _ => ?_
  refine .bind (.many (m := fun x => x ≠ .eof && x ≠ .closeCurly) (fun _ => rfl)
    (parallel_classMember _)) fun members => ?_
  refine .quiet (.expectDescribed _ rfl rfl) fun _ => ?_
  exact .bind (.modifyScope _) fun _ => .bind (.spanFrom start) fun _ => .pure _

section

variable {p : Parse (List Contribution)} (hp : ∀ {l : Level},
  Parallel Eq (fun _ => True) l l (List.map Contribution.unlocated) p p)

include hp

/-- A namespace ends with a semicolon or with its brace, whatever it holds. -/
theorem closes_namespaceOf : Closes 0 (namespaceOf p) := by
  refine .bind (l := ⟨0, 0⟩) (.expect rfl) fun _ => ?_
  refine .bind (l := ⟨0, 0⟩) (parallel_dottedName _) fun name => .accept ?_
  refine .bind (l := ⟨0, 0⟩) (.openCurly _) fun _ => .bind hp fun parts => ?_
  exact .quiet (.expectDescribed _ rfl rfl) fun _ => .pure _

theorem closes_topLevelOf : Closes 0 (topLevelOf p) := by
  unfold topLevelOf
  refine .kind fun c => ?_
  split
  · exact .quiet closes_usingDirective fun _ => .pure _
  · exact closes_namespaceOf hp
  · exact .quiet closes_classDecl fun _ => .pure _

end

/-- Whatever depth is left for the namespaces inside. -/
theorem closes_topLevel : Closes 0 topLevel := by
  refine .ask (k := topLevelWithin) .budget fun budget => ?_
  obtain ⟨body, hbudget, hbody⟩ := topLevelWithin_eq_topLevelOf budget
  rw [hbudget]
  exact closes_topLevelOf hbody

/-! ### The scope around declarations -/

/-- What holds after the second part of a sequence from any state on, holds after the
sequence. -/
theorem outcome_bind_of_forall {α β : Type} {ok : β → State → Prop} {p : Parse α}
    {k : α → Parse β} (h : ∀ a s, Outcome ok anyError (k a s)) (s : State) :
    Outcome ok anyError ((p >>= k) s) := by
  rw [outcome_bind]
  cases p s with
  | ok a t => exact h a t
  | error e t => trivial

/-- What every round keeps, the loop keeps. -/
theorem outcome_many_of_inv {α : Type} {inv : State → Prop} {more : State → Bool} {item : Parse α}
    (hround : ∀ s, inv s → Outcome (fun _ t => inv t) anyError (item s)) {s : State} (hs : inv s) :
    Outcome (fun _ t => inv t) anyError (many more item s) := by
  have hitem (s : State) (hs : inv s) (_ : more s = true) :
      Outcome (fun _ t => True ∧ inv t) anyError (item s) :=
    (hround s hs).mono fun _ _ ht => ⟨trivial, ht⟩
  exact (outcome_many hitem s hs).mono fun _ _ ht => ht.2

/-- A class leaves no name in scope, whatever was in scope before. -/
theorem outcome_classDecl (s : State) :
    Outcome (fun _ t => t.scope = .empty) anyError (classDecl s) := by
  refine outcome_bind_of_forall (fun start => outcome_bind_of_forall fun m => ?_) s
  refine outcome_bind_of_forall fun _ => outcome_bind_of_forall fun name => ?_
  refine outcome_bind_of_forall fun bases => outcome_bind_of_forall fun _ => ?_
  refine outcome_bind_of_forall fun _ => outcome_bind_of_forall fun members => ?_
  refine outcome_bind_of_forall fun _ s => ?_
  simp

/-- A name leaves the scope as it is. -/
theorem outcome_dottedName (expected : String) {s : State} (hs : s.scope = .empty) :
    Outcome (fun _ t => t.scope = .empty) anyError (dottedName expected s) := by
  have hmore (s : State) (hs : s.scope = .empty) : Outcome (fun _ t => t.scope = .empty) anyError
      ((advance >>= fun _ => expect .identifier) s) := by
    simp [hs, anyError]
  unfold dottedName
  rw [outcome_bind, outcome_expectDescribed]
  refine ⟨fun _ => ?_, fun _ => trivial⟩
  rw [outcome_bind]
  exact outcome_many_of_inv hmore (by simp [hs])

/-- The scope is empty again after each declaration of the body. -/
theorem outcome_topLevelOf {body : Parse (List Contribution)} (hbody : ∀ s : State,
      s.scope = .empty → Outcome (fun _ t => t.scope = .empty) anyError (body s))
    {s : State} (hs : s.scope = .empty) :
    Outcome (fun _ t => t.scope = .empty) anyError (topLevelOf body s) := by
  have hnext : s.next.scope = .empty := by simp [hs]
  unfold topLevelOf
  rw [outcome_bind, outcome_kind]
  generalize s.kind = c
  split
  · unfold usingDirective
    simp only [outcome_bind, outcome_expect]
    refine ⟨fun _ => (outcome_dottedName _ hnext).mono fun name t ht => ?_, fun _ => trivial⟩
    exact ⟨fun _ => by simp [ht], fun _ => trivial⟩
  · unfold namespaceOf
    rw [outcome_bind, outcome_expect]
    refine ⟨fun _ => ?_, fun _ => trivial⟩
    rw [outcome_bind]
    refine (outcome_dottedName _ hnext).mono fun name t ht => ?_
    rw [outcome_bind, outcome_accept]
    refine ⟨fun _ => by simp [ht], fun _ => ?_⟩
    simp only [Bool.false_eq_true, if_false, outcome_bind, outcome_expectDescribed, outcome_expect]
    refine ⟨fun _ => (hbody _ (by simp [ht])).mono fun parts u hu => ?_, fun _ => trivial⟩
    exact ⟨fun _ => by simp [hu], fun _ => trivial⟩
  · rw [outcome_bind]
    exact outcome_classDecl s

/-- A declaration outside of classes leaves no name in scope. -/
theorem outcome_topLevelWithin (budget : Nat) {s : State} (hs : s.scope = .empty) :
    Outcome (fun _ t => t.scope = .empty) anyError (topLevelWithin budget s) := by
  induction budget generalizing s with
  | zero =>
    refine outcome_topLevelOf (fun s _ => ?_) hs
    exact trivial
  | succ budget ih =>
    refine outcome_topLevelOf (fun s hs => ?_) hs
    rw [outcome_bind, outcome_deepen]
    refine ⟨fun _ => ?_, fun _ => trivial⟩
    rw [outcome_bind]
    exact outcome_many_of_inv (fun s hs => ih hs) hs

/-! ### Where the token before a declaration ended -/

/-- The runs have the same result and leave the same state, or fail with the same error. -/
inductive SameResult {α : Type} : EStateM.Result CompileError State α →
    EStateM.Result CompileError State α → Prop
  | ok (a : α) (s : State) : SameResult (.ok a s) (.ok a s)
  | error (e : CompileError) (s s' : State) : SameResult (.error e s) (.error e s')

theorem SameResult.refl {α : Type} (r : EStateM.Result CompileError State α) : SameResult r r := by
  cases r with
  | ok a s => exact .ok a s
  | error e s => exact .error e s s

/-- The parser reads a token before it asks where the token before has ended. -/
def ReadsFirst {α : Type} (p : Parse α) : Prop :=
  ∀ (s : State) (x : Option Position), s.kind ≠ .eof → s.following ≠ [] →
    SameResult (p s) (p { s with lastStop := x })

/-- The step to the next token forgets where the one before has ended. -/
theorem State.next_withLastStop {s : State} (x : Option Position) (heof : s.kind ≠ .eof)
    (hmore : s.following ≠ []) : State.next { s with lastStop := x } = s.next := by
  obtain ⟨current, following, remaining, hremaining, lastStop, depth, scope⟩ := s
  cases following with
  | nil => exact absurd rfl hmore
  | cons t ts =>
    replace heof : current.kind ≠ .eof := heof
    simp [next, State.kind, heof]

section

variable {α β : Type} {p : Parse α} {k : α → Parse β}

/-- It is the first part of a sequence that has to read. -/
theorem ReadsFirst.bind (hp : ReadsFirst p) : ReadsFirst (p >>= k) := by
  intro s x heof hmore
  have hfirst := hp s x heof hmore
  show SameResult (EStateM.bind p k s) (EStateM.bind p k _)
  unfold EStateM.bind
  generalize p s = r, p { s with lastStop := x } = r' at hfirst ⊢
  cases hfirst with
  | ok a t => exact .refl _
  | error e t t' => exact .error e t t'

/-- A token that is not the expected one is an error at that token. -/
theorem ReadsFirst.expectDescribed (c : Kind) (expected : String) :
    ReadsFirst (expectDescribed c expected) := by
  intro s x heof hmore
  rw [run_expectDescribed, run_expectDescribed, State.next_withLastStop x heof hmore]
  by_cases hkind : s.kind = c
  · rw [if_pos hkind, if_pos (show State.kind { s with lastStop := x } = c from hkind)]
    exact .ok _ _
  · rw [if_neg hkind, if_neg (show State.kind { s with lastStop := x } ≠ c from hkind)]
    exact .error _ _ _

theorem ReadsFirst.kind {k : Kind → Parse β} (hk : ∀ c, ReadsFirst (k c)) :
    ReadsFirst (Parse.kind >>= k) :=
  fun s x heof hmore => hk s.kind s x heof hmore

/-- If there is no modifier, what follows is read first. -/
theorem ReadsFirst.modifiers_bind {k : Modifiers → Parse β} (hk : ∀ m, ReadsFirst (k m)) :
    ReadsFirst (modifiers >>= k) := by
  intro s x heof hmore
  show SameResult (EStateM.bind modifiers k s) (EStateM.bind modifiers k _)
  unfold EStateM.bind
  by_cases hmark : s.kind.isModifier = true
  · have hadvance : advance { s with lastStop := x } = advance s :=
      congrArg (EStateM.Result.ok s.current) (State.next_withLastStop x heof hmore)
    have hmarks : many (·.kind.isModifier) advance { s with lastStop := x } =
        many (·.kind.isModifier) advance s := by
      rw [many, many, hadvance]
      exact (if_pos hmark).trans (if_pos hmark).symm
    have hsame : modifiers { s with lastStop := x } = modifiers s := by
      show EStateM.bind (many _ _) _ _ = EStateM.bind (many _ _) _ _
      unfold EStateM.bind
      rw [hmarks]
    rw [hsame]
    exact .refl _
  · have hnone {s : State} (h : ¬ s.kind.isModifier = true) : modifiers s = .ok .empty s := by
      show EStateM.bind (many _ _) _ _ = _
      unfold EStateM.bind
      rw [many, if_neg h]
      rfl
    rw [hnone hmark, hnone (s := { s with lastStop := x }) hmark]
    exact hk .empty s x heof hmore

end

/-- Every declaration begins with a certain word, behind modifiers if it is a class. -/
theorem readsFirst_topLevelOf (body : Parse (List Contribution)) :
    ReadsFirst (topLevelOf body) := by
  unfold topLevelOf
  refine .kind fun c => ?_
  split
  · exact .bind (.bind (.expectDescribed _ _))
  · exact .bind (.expectDescribed _ _)
  · have hclass : ReadsFirst classDecl := fun s =>
      ReadsFirst.modifiers_bind (fun m => .bind (.expectDescribed _ _)) s
    exact .bind hclass

theorem readsFirst_topLevel : ReadsFirst topLevel := by
  intro s x heof hmore
  obtain ⟨body, hbudget, -⟩ := topLevelWithin_eq_topLevelOf (T := Eq) s.budget
  show SameResult (topLevelWithin s.budget s) (topLevelWithin s.budget _)
  rw [hbudget]
  exact readsFirst_topLevelOf body s x heof hmore

/-! ### Declarations in a row -/

/-- The value that a run returns, or its error. -/
def result {α : Type} (p : Parse α) (s : State) : Except CompileError α :=
  match p s with
  | .ok a _ => .ok a
  | .error e _ => .error e

/-- All declarations up to the end of the input. -/
def declarations : Parse (List Contribution) := many State.hasTokens topLevel

theorem State.hasTokens_iff {s : State} : s.hasTokens = true ↔ s.kind ≠ .eof := by
  simp [hasTokens]

/-- Where the input before has ended has no effect on the declarations. -/
theorem result_declarations_withLastStop {s : State} (x : Option Position) (hs : s.Ended) :
    result declarations { s with lastStop := x } = result declarations s := by
  have hmore : State.hasTokens { s with lastStop := x } = s.hasTokens := rfl
  unfold result declarations
  rw [many, many, hmore]
  by_cases htokens : s.hasTokens = true
  · have heof := State.hasTokens_iff.1 htokens
    have hfirst := readsFirst_topLevel s x heof (hs.following_ne_nil heof)
    rw [if_pos htokens, if_pos htokens]
    generalize topLevel s = r, topLevel { s with lastStop := x } = r' at hfirst ⊢
    cases hfirst with
    | ok a t => rfl
    | error e t t' => rfl
  · rw [if_neg htokens, if_neg htokens]

/-- Progress in tokens is what the repetition asks for. -/
theorem remaining_lt_of_length {s t : State} (h : t.tokens.length < s.tokens.length) :
    t.remaining < s.remaining := by
  rw [s.remaining_eq, t.remaining_eq]
  exact Nat.lt_of_succ_lt_succ h

/-- One declaration is read, and then the others. -/
theorem declarations_of_topLevel {s t : State} {a : Contribution} (hs : s.kind ≠ .eof)
    (hfirst : topLevel s = .ok a t) (hlt : t.tokens.length < s.tokens.length) :
    declarations s =
      match declarations t with
      | .ok as u => .ok (a :: as) u
      | .error e u => .error e u := by
  rw [declarations, many, if_pos (State.hasTokens_iff.2 hs), hfirst]
  simp only [if_pos (remaining_lt_of_length hlt)]
  split <;> simp [*]

/-- A declaration takes some of the tokens before the end of the input, and takes the same
ones if the input goes on. -/
theorem topLevel_append {ts : List Token} {stop : Token} {s t : State} {a : Contribution}
    (hstop : stop.kind = .eof) (hs : s.tokens = ts ++ [stop]) (hrun : topLevel s = .ok a t) :
    ∃ us vs, us ≠ [] ∧ ts = us ++ vs ∧ t.tokens = vs ++ [stop] ∧
      ∀ s' r, s'.tokens = ts ++ r → r ≠ [] → SameContext s s' →
        ∃ t', topLevel s' = .ok a t' ∧ t'.tokens = vs ++ r ∧ SameContext t t' := by
  have hended : s.Ended := by simp [State.Ended, hs, hstop]
  obtain ⟨w, last, hw, -, -, hsame⟩ := closes_topLevel s a t hended hrun
  obtain ⟨vs, stop', ht⟩ : ∃ vs stop', t.tokens = vs ++ [stop'] :=
    ⟨_, _, (List.dropLast_concat_getLast (List.cons_ne_nil _ _)).symm⟩
  have hall : ts ++ [stop] = (w ++ [last]) ++ vs ++ [stop'] := by
    rw [← hs, hw, ht]
    simp
  obtain ⟨rfl, hlast⟩ := List.append_inj' hall rfl
  obtain rfl : stop = stop' := List.head_eq_of_cons_eq hlast
  refine ⟨w ++ [last], vs, by simp, rfl, ht, fun s' r hs' hr hcontext => ?_⟩
  exact hsame s' (vs ++ r) (by simp [hs']) (by simp [hr]) hcontext

/-- After the declarations of the first part, the parser goes on as if it began with the
second part. -/
theorem declarations_append {ts : List Token} {stop : Token} (hts : ∀ t ∈ ts, t.kind ≠ .eof)
    (hstop : stop.kind = .eof) {s t s' : State} {parts : List Contribution} {r : List Token}
    (hs : s.tokens = ts ++ [stop]) (hrun : declarations s = .ok parts t)
    (hs' : s'.tokens = ts ++ r) (hr : r ≠ []) (hcontext : SameContext s s') :
    ∃ u, u.tokens = r ∧ SameContext t u ∧
      result declarations s' = (result declarations u).map (parts ++ ·) := by
  induction hn : ts.length using Nat.strongRecOn generalizing s s' ts parts with
  | ind n ih =>
    cases ts with
    | nil =>
      have heof : s.kind = .eof := (congrArg Token.kind (List.cons.inj hs).1).trans hstop
      rw [declarations, many, if_neg (by simp [State.hasTokens, heof])] at hrun
      cases hrun
      refine ⟨s', hs', hcontext, ?_⟩
      cases result declarations s' <;> rfl
    | cons first rest =>
      have hkind {s : State} {us : List Token} (hs : s.tokens = first :: us) : s.kind ≠ .eof := by
        rw [State.kind, (List.cons.inj hs).1]
        exact hts first List.mem_cons_self
      cases hfirst : topLevel s with
      | error e s₁ =>
        rw [declarations, many, if_pos (State.hasTokens_iff.2 (hkind hs)), hfirst] at hrun
        cases hrun
      | ok a s₁ =>
        obtain ⟨us, vs, hne, hsplit, hs₁, hsame⟩ := topLevel_append hstop hs hfirst
        obtain ⟨s₁', hfirst', hs₁', hcontext₁⟩ := hsame s' r hs' hr hcontext
        have hlt : vs.length < (first :: rest).length := by
          rw [hsplit, List.length_append]
          exact Nat.lt_add_of_pos_left (List.length_pos_iff.2 hne)
        have hless : s₁.tokens.length < s.tokens.length := by
          rw [hs, hs₁, List.length_append, List.length_append]
          exact Nat.add_lt_add_right hlt _
        have hless' : s₁'.tokens.length < s'.tokens.length := by
          rw [hs', hs₁', List.length_append, List.length_append]
          exact Nat.add_lt_add_right hlt _
        rw [declarations_of_topLevel (hkind hs) hfirst hless] at hrun
        cases hothers : declarations s₁ with
        | error e u =>
          rw [hothers] at hrun
          cases hrun
        | ok as u =>
          rw [hothers] at hrun
          cases hrun
          have hvs : ∀ t ∈ vs, t.kind ≠ .eof := fun t ht => hts t (by simp [hsplit, ht])
          obtain ⟨u, hu, hcontext₂, hresult⟩ :=
            ih vs.length (hn ▸ hlt) hvs hs₁ hothers hs₁' hcontext₁ rfl
          refine ⟨u, hu, hcontext₂, ?_⟩
          have hcons : result declarations s' = (result declarations s₁').map (a :: ·) := by
            rw [result, declarations_of_topLevel (hkind hs') hfirst' hless', result]
            cases declarations s₁' <;> rfl
          rw [hcons, hresult]
          cases result declarations u <;> rfl

/-- The end of the input is added to the second part. -/
theorem ofTokens_append (ts : List Token) {us : List Token} (hus : us ≠ []) :
    (State.ofTokens (ts ++ us)).tokens = ts ++ (State.ofTokens us).tokens := by
  have hterminate (p : Position) :
      (State.terminate p (ts ++ us)).1 :: (State.terminate p (ts ++ us)).2 =
        ts ++ (State.terminate .none us).1 :: (State.terminate .none us).2 := by
    induction ts generalizing p with
    | nil =>
      cases us with
      | nil => exact absurd rfl hus
      | cons u us => rfl
    | cons t ts ih =>
      rw [List.cons_append, State.terminate, if_neg (by simp [hus])]
      exact congrArg (t :: ·) (ih t.span.stop)
  exact hterminate .none

/-- An end is added behind tokens without one. -/
theorem ofTokens_of_forall {ts : List Token} (hts : ∀ t ∈ ts, t.kind ≠ .eof) :
    ∃ stop : Token, stop.kind = .eof ∧ (State.ofTokens ts).tokens = ts ++ [stop] := by
  have hterminate (p : Position) : ∃ stop : Token, stop.kind = .eof ∧
      (State.terminate p ts).1 :: (State.terminate p ts).2 = ts ++ [stop] := by
    induction ts generalizing p with
    | nil => exact ⟨.endOfInput p, rfl, rfl⟩
    | cons t ts ih =>
      obtain ⟨ht, hts⟩ := List.forall_mem_cons.1 hts
      obtain ⟨stop, hstop, hall⟩ := ih hts t.span.stop
      rw [State.terminate, if_neg (by simp [ht])]
      exact ⟨stop, hstop, congrArg (t :: ·) hall⟩
  exact hterminate .none

theorem ended_ofTokens (ts : List Token) : (State.ofTokens ts).Ended := by
  have hterminate (p : Position) :
      (((State.terminate p ts).1 :: (State.terminate p ts).2).getLast?).map Token.kind =
        some .eof := by
    induction ts generalizing p with
    | nil => rfl
    | cons t ts ih =>
      rw [State.terminate]
      split
      · rename_i hlast
        simp only [Bool.and_eq_true, decide_eq_true_eq] at hlast
        simp [hlast.2]
      · rw [List.getLast?_cons_cons]
        exact ih t.span.stop
  exact hterminate .none

/-- A state is known by its tokens and all that is not a token. -/
theorem SameContext.eq {s s' : State} (h : SameContext s s') (htokens : s'.tokens = s.tokens) :
    s' = s := by
  obtain ⟨current, following, remaining, rfl, lastStop, depth, scope⟩ := s
  obtain ⟨current', following', remaining', rfl, lastStop', depth', scope'⟩ := s'
  obtain ⟨rfl, rfl⟩ := List.cons.inj htokens
  obtain ⟨rfl, rfl, rfl⟩ := h
  rfl

/-- The depth and the scope are those before the first declaration. -/
theorem context_of_declarations {s t : State} {parts : List Contribution} (hs : s.Ended)
    (hscope : s.scope = .empty) (hrun : declarations s = .ok parts t) :
    t.depth = s.depth ∧ t.scope = .empty := by
  have hparallel : Parallel Eq (fun _ => True) ⟨0, s.depth⟩ ⟨0, s.depth⟩
      (List.map Contribution.unlocated) declarations declarations :=
    .many (m := fun x => x ≠ .eof) (fun _ => rfl)
      (.ask topLevelWithin topLevelWithin .budget fun budget => parallel_topLevelWithin budget)
  have hround (s : State) (hs : s.scope = .empty) :
      Outcome (fun _ t => t.scope = .empty) anyError (topLevel s) :=
    outcome_topLevelWithin s.budget hs
  refine ⟨(hparallel.reads s parts t hs trivial hrun).depth rfl, ?_⟩
  exact (outcome_many_of_inv hround hscope).of_eq_ok hrun

namespace Contribution

/-- What a unit holds. -/
def ofUnit (u : CompilationUnit) : Contribution := ⟨u.imports, u.namespaceName, u.classes⟩

theorem append_assoc (a b c : Contribution) : (a.append b).append c = a.append (b.append c) := by
  simp [append, Option.or_assoc]

/-- What declarations hold is put together from the left or in two parts. -/
theorem concat_append (parts others : List Contribution) :
    concat (parts ++ others) = (concat parts).append (concat others) := by
  induction parts with
  | nil => simp [concat, append, empty]
  | cons part parts ih =>
    show part.append (concat (parts ++ others)) = _
    rw [ih, ← append_assoc]
    rfl

end Contribution

/-- A unit is made of what its declarations hold, and fails if they do. -/
theorem compilationUnit_eq (s : State) :
    compilationUnit s =
      match declarations s with
      | .ok parts t =>
        .ok ⟨(Contribution.concat parts).imports, (Contribution.concat parts).namespaceName,
          (Contribution.concat parts).classes, t.spanFrom s.current.span.start⟩ t
      | .error e t => .error e t := by
  show EStateM.bind declarations _ s = _
  unfold EStateM.bind
  cases declarations s <;> rfl

/-- The same of a list of tokens, up to the span of the unit. -/
theorem parseTokens_ofUnit (ts : List Token) : (parseTokens ts).map Contribution.ofUnit =
    (result declarations (.ofTokens ts)).map Contribution.concat := by
  rw [parseTokens, compilationUnit_eq, result]
  cases declarations (.ofTokens ts) <;> rfl

/-- The unit of two parts is the sum of what they contribute, or the error is the one in
the second part. -/
theorem parseTokens_append_ofUnit {ts : List Token} (hts : ∀ t ∈ ts, t.kind ≠ .eof)
    {parts : List Contribution} {t : State} (hrun : declarations (.ofTokens ts) = .ok parts t)
    (us : List Token) : (parseTokens (ts ++ us)).map Contribution.ofUnit =
      ((parseTokens us).map Contribution.ofUnit).map (Contribution.concat parts).append := by
  have hsecond : result declarations (.ofTokens (ts ++ us)) =
      (result declarations (.ofTokens us)).map (parts ++ ·) := by
    cases us with
    | nil =>
      have hnone : declarations (.ofTokens []) = .ok [] (.ofTokens []) := by
        rw [declarations, many, if_neg (by decide)]
      rw [List.append_nil, result, hrun, result, hnone]
      exact congrArg Except.ok (List.append_nil parts).symm
    | cons u us =>
      obtain ⟨stop, hstop, htokens⟩ := ofTokens_of_forall hts
      have hnonempty : u :: us ≠ [] := List.cons_ne_nil u us
      obtain ⟨s, hs, hcontext, hresult⟩ := declarations_append hts hstop htokens hrun
        (ofTokens_append ts hnonempty) (List.cons_ne_nil _ _) ⟨rfl, rfl, rfl⟩
      obtain ⟨hdepth, hscope⟩ := context_of_declarations (ended_ofTokens ts) rfl hrun
      have hstate : s = { State.ofTokens (u :: us) with lastStop := s.lastStop } :=
        SameContext.eq ⟨rfl, hcontext.depth.trans hdepth, hcontext.scope.trans hscope⟩ hs
      rw [hresult, hstate, result_declarations_withLastStop _ (ended_ofTokens _)]
  rw [parseTokens_ofUnit, parseTokens_ofUnit, hsecond]
  cases result declarations (.ofTokens us) with
  | error e => rfl
  | ok others => exact congrArg Except.ok (Contribution.concat_append parts others)

end ClassScript.Parse

namespace ClassScript

open Parse

/-- Parsing is compositional. Let the first part of a token list, without the end of the
input, give a unit `u`. If the second part gives a unit, the whole gives the imports and
classes of both in order, and the first namespace. If the second part gives an error, the
whole gives the same one. After the first part, the parser is at depth 0 and has no names
in scope, as before it. -/
theorem parseTokens_append {ts : List Token} (hts : ∀ t ∈ ts, t.kind ≠ .eof)
    {u : CompilationUnit} (hu : parseTokens ts = .ok u) (us : List Token) :
    (∀ v, parseTokens us = .ok v → ∃ w, parseTokens (ts ++ us) = .ok w ∧
      w.imports = u.imports ++ v.imports ∧ w.classes = u.classes ++ v.classes ∧
      w.namespaceName = (u.namespaceName <|> v.namespaceName)) ∧
    (∀ e, parseTokens us = .error e → parseTokens (ts ++ us) = .error e) ∧
    ∃ s, compilationUnit (.ofTokens ts) = .ok u s ∧ s.depth = 0 ∧ s.scope = .empty := by
  have hunit := compilationUnit_eq (.ofTokens ts)
  cases hrun : declarations (.ofTokens ts) with
  | error e t =>
    rw [parseTokens, hunit, hrun] at hu
    cases hu
  | ok parts t =>
    rw [hrun] at hunit
    have happend := parseTokens_append_ofUnit hts hrun us
    rw [parseTokens, hunit] at hu
    cases hu
    have hcontext := context_of_declarations (ended_ofTokens ts) rfl hrun
    refine ⟨fun v hv => ?_, fun e he => ?_, t, hunit, hcontext⟩
    · rw [hv] at happend
      cases hwhole : parseTokens (ts ++ us) with
      | error e =>
        rw [hwhole] at happend
        cases happend
      | ok w =>
        rw [hwhole] at happend
        obtain ⟨himports, hname, hclasses⟩ := Contribution.mk.inj (Except.ok.inj happend)
        exact ⟨w, rfl, himports, hclasses, hname⟩
    · rw [he] at happend
      cases hwhole : parseTokens (ts ++ us) with
      | error e' =>
        rw [hwhole] at happend
        exact congrArg Except.error (Except.error.inj happend)
      | ok w =>
        rw [hwhole] at happend
        cases happend

/-- The element that a class holds is no element to the class after it. -/
theorem parseTokens_append_classes :
    ∃ ts us u v w, tokenize "class A{Element e;}" = .ok ts ∧
      tokenize "class B{int x=e.value;}" = .ok us ∧ (∀ t ∈ ts.dropLast, t.kind ≠ .eof) ∧
      parseTokens ts.dropLast = .ok u ∧ parseTokens us = .ok v ∧
      parseTokens (ts.dropLast ++ us) = .ok w ∧ w.classes = u.classes ++ v.classes ∧
      u.classes.length = 1 ∧ v.classes.length = 1 := by
  have hfirst : ∃ ts, tokenize "class A{Element e;}" = .ok ts ∧
      (∀ t ∈ ts.dropLast, t.kind ≠ .eof) ∧
      (parseTokens ts.dropLast).toOption.any (fun u => decide (u.classes.length = 1)) = true :=
    exists_eq_ok (by decide +kernel)
  have hsecond : ∃ us, tokenize "class B{int x=e.value;}" = .ok us ∧
      (parseTokens us).toOption.any (fun v => decide (v.classes.length = 1)) = true :=
    exists_eq_ok (by decide +kernel)
  obtain ⟨ts, hts, heof, hu⟩ := hfirst
  obtain ⟨us, hus, hv⟩ := hsecond
  obtain ⟨u, hu, hone⟩ := exists_eq_ok hu
  obtain ⟨v, hv, hone'⟩ := exists_eq_ok hv
  obtain ⟨w, hw, -, hclasses, -⟩ := (parseTokens_append heof hu us).1 v hv
  exact ⟨ts, us, u, v, w, hts, hus, heof, hu, hv, hw, hclasses, hone, hone'⟩

end ClassScript

import ClassScript.Proofs.Parse.Declarations
import ClassScript.Proofs.Parse.Parallel.Basic

/-!
# The moments of a parse

A parser is a function from states to results, which does not show the states that are
passed on the way. A `Routine` is a parser together with the way it is built: from steps
that leave the depth of nesting alone, one after another and in loops, and from levels
that are entered and left again. `Routine.moments` lists what a run passes through.

A level belongs to a call (of an expression, a type, a statement or the body of a
namespace) or to an operator of a chain. The calls that are past their check are counted.

A parser may be built in several ways, and the number of levels that are left is part of
each. The main result, `Routine.keepsDepth`, is about all of them: if a run begins with
that number of levels left and returns, it is back at the depth it began at, and no moment
of it has a depth or a number of calls out of range.
-/

namespace ClassScript.Parse

variable {α β : Type}

/-! ### Steps that leave the depth alone -/

/-- The error is that the nesting goes too deep. -/
def IsTooDeep (e : CompileError) : Prop :=
  e.cause = .nestingTooDeep nestingLimit

/-- The steps that neither enter nor leave a level, nor complain about the nesting. -/
inductive Primitive : {α : Type} → Parse α → Prop
  | pure {α : Type} (a : α) : Primitive (pure a)
  | get : Primitive get
  | kind : Primitive kind
  | position : Primitive position
  | spanFrom (start : Position) : Primitive (spanFrom start)
  | advance : Primitive advance
  | expectDescribed (k : Kind) (expected : String) : Primitive (expectDescribed k expected)
  | accept (k : Kind) : Primitive (accept k)
  | modifyScope (f : Scope → Scope) : Primitive (modifyScope f)
  | beginClass (name : String) : Primitive (beginClass name)
  | skipBraced : Primitive skipBraced
  | unexpected {α : Type} (expected : String) : Primitive (fail (α := α) (·.unexpected expected))
  | unexpectedDetailed {α : Type} (reason : String) :
      Primitive (fail (α := α) (·.unexpectedDetailed reason))
  | throw {α : Type} {e : CompileError} : ¬ IsTooDeep e → Primitive (throw (α := α) e)

/-! ### Levels -/

/-- A level is entered, `body` runs on it, and the level is left. -/
def nested (body : Parse α) : Parse α := do
  deepen
  let a ← body
  surface 1
  return a

/-- What is read on the level of a call of `typeWithin`, with `n` levels left. -/
def typeBody (n : Nat) (power : Power) : Parse TypeRef := do
  if (← kind) ≠ .identifier then fail (·.unexpected "type")
  let named ← namedTypeOf (typeWithin n .default)
  let suffixes ← many (fun s => startsSuffix s && power < .call) typeSuffix
  return suffixes.foldl withSuffix named

/-- The operator `own` at hand continues `left`, and `climb` goes on with `n` levels left. -/
def operatorBody (n : Nat) (power own : Power) (left : Expr) : Parse Expr := do
  let longer ← continuation (exprWithin n) left own
  climb n power longer

/-- The calls that count: the first parser enters a level, with `n` more left after it, and
runs the second one on it. -/
inductive Call : {α : Type} → Nat → Parse α → Parse α → Prop
  | expr (n : Nat) (power : Power) :
      Call n (exprWithin (n + 1) power) (beginning (exprWithin n) >>= climb n power)
  | type (n : Nat) (power : Power) : Call n (typeWithin (n + 1) power) (typeBody n power)
  | stmt (n : Nat) : Call n (stmtWithin (n + 1)) (stmtOf (stmtWithin n))
  | namespaceBody (n : Nat) :
      Call n (nested (many beforeCloseCurly (topLevelWithin n)))
        (many beforeCloseCurly (topLevelWithin n))

/-- What a call does between entering its level and leaving it. -/
theorem Call.eq_nested {n : Nat} {p body : Parse α} (h : Call n p body) : p = nested body := by
  cases h with
  | expr => simp only [exprWithin, nested, bind_assoc]
  | type =>
    -- Past the check that a name is at hand, the monad laws are enough.
    simp only [typeWithin, nested, typeBody, bind_assoc]
    refine congrArg (deepen >>= ·) (funext fun _ => congrArg (kind >>= ·) (funext fun k => ?_))
    split <;> simp [bind_assoc, Parallel.fail_bind]
  | stmt => rfl
  | namespaceBody => rfl

/-- A parser as it is built, with `n` levels left to be entered. -/
inductive Routine : {α : Type} → Nat → Parse α → Type 1
  | primitive {α : Type} {n : Nat} {p : Parse α} : Primitive p → Routine n p
  | bind {α β : Type} {n : Nat} {p : Parse α} {k : α → Parse β} : Routine n p →
      (∀ a, Routine n (k a)) → Routine n (p >>= k)
  | many {α : Type} {n : Nat} (more : State → Bool) {p : Parse α} : Routine n p →
      Routine n (many more p)
  | commaList {α : Type} {n : Nat} (stop : Kind) {p : Parse α} : Routine n p →
      Routine n (commaList stop p)
  /-- The parser asks how many levels are left. -/
  | within {α : Type} {n : Nat} {p : Nat → Parse α} : (∀ b, Routine b (p b)) →
      Routine n (get >>= fun s => p s.budget)
  | tooDeep {α : Type} : Routine 0 (tooDeep (α := α))
  | call {α : Type} {n : Nat} {p b : Parse α} : Call n p b → Routine n b → Routine (n + 1) p
  | operator {n : Nat} {power own : Power} {left : Expr} :
      Routine n (operatorBody n power own left) →
      Routine (n + 1) (nested (operatorBody n power own left))

/-! ### Moments -/

/-- A moment of a run. -/
structure Moment where
  state : State
  /-- How many calls are past their check and have not returned. -/
  calls : Nat
  /-- How many levels the next step leaves. -/
  leaving : Nat

/-- The state that a run leaves. -/
def finalState : EStateM.Result CompileError State α → State
  | .ok _ s => s
  | .error _ s => s

/-- The moments of `p >>= k`, where `first` lists those of `p` and `rest` those of `k`. -/
def bindMoments (p : Parse α) (first : State → List Moment) (rest : α → State → List Moment)
    (s : State) : List Moment :=
  first s ++
    match p s with
    | .error _ _ => []
    | .ok a t => rest a t

/-- The moments of the loop `many more item`, where `round` lists those of one item. -/
def manyMoments (more : State → Bool) (item : Parse α) (calls : Nat)
    (round : State → List Moment) (s : State) : List Moment :=
  ⟨s, calls, 0⟩ ::
    if more s then
      round s ++
        match item s with
        | .error _ _ => []
        | .ok _ t =>
          if t.remaining < s.remaining then manyMoments more item calls round t else []
    else []
termination_by s.remaining

/-- The moments of the list `commaList stop item`, where `round` lists those of one item. -/
def commaMoments (stop : Kind) (item : Parse α) (calls : Nat)
    (round : State → List Moment) (s : State) : List Moment :=
  ⟨s, calls, 0⟩ ::
    if s.kind = stop then []
    else
      round s ++
        match item s with
        | .error _ _ => []
        | .ok _ t =>
          if t.kind = .comma then
            if t.next.remaining < s.remaining then commaMoments stop item calls round t.next
            else [⟨t.next, calls, 0⟩]
          else []
termination_by s.remaining

/-- The moments of `nested body`, where `inside` lists those of `body`. On the level
`inner` calls are active, around it `calls`. -/
def nestedMoments (body : Parse α) (calls inner : Nat) (inside : State → List Moment)
    (s : State) : List Moment :=
  let entered := { s with depth := s.depth + 1 }
  if s.depth < nestingLimit then
    ⟨entered, inner, 0⟩ ::
      (inside entered ++
        match body entered with
        | .error _ _ => []
        | .ok _ t => [⟨t, inner, 1⟩, ⟨{ t with depth := t.depth - 1 }, calls, 0⟩])
  else [⟨entered, calls, 0⟩]

/-- What a run of the routine passes through, begun while `calls` calls are active. -/
def Routine.moments : {α : Type} → {n : Nat} → {p : Parse α} → Routine n p → Nat → State →
    List Moment
  | _, _, p, .primitive _, calls, s => [⟨finalState (p s), calls, 0⟩]
  | _, _, _, .bind (p := p) first rest, calls, s =>
    bindMoments p (first.moments calls) (fun a => (rest a).moments calls) s
  | _, _, _, .many (p := p) more item, calls, s => manyMoments more p calls (item.moments calls) s
  | _, _, _, .commaList (p := p) stop item, calls, s =>
    commaMoments stop p calls (item.moments calls) s
  | _, _, _, .within parser, calls, s => (parser s.budget).moments calls s
  | _, _, _, .tooDeep, calls, s => [⟨{ s with depth := s.depth + 1 }, calls, 0⟩]
  | _, _, _, .call (b := b) _ body, calls, s =>
    nestedMoments b calls (calls + 1) (body.moments (calls + 1)) s
  | _, _, _, @operator n power own left body, calls, s =>
    nestedMoments (operatorBody n power own left) calls calls (body.moments calls) s

/-! ### What a run keeps -/

/-- The run fails because the nesting goes too deep. -/
def FailsTooDeep (r : EStateM.Result CompileError State α) : Prop :=
  ∃ e t, r = .error e t ∧ IsTooDeep e

/-- The moment is in the range of a run of `p` from `s`, with `n` levels left and begun
while `calls` calls are active. -/
structure InRange (n : Nat) (p : Parse α) (calls : Nat) (s : State) (m : Moment) : Prop where
  /-- The levels that are left next were entered by the run itself. -/
  lower : s.depth + m.leaving ≤ m.state.depth
  upper : m.state.depth ≤ nestingLimit + 1
  calls_le : m.calls ≤ calls + n
  tooDeep : m.state.depth = nestingLimit + 1 → FailsTooDeep (p s)

/-- With `n` levels left `p` keeps the depth, where `moments` lists what its runs pass
through. -/
structure KeepsDepth (n : Nat) (p : Parse α) (moments : Nat → State → List Moment) : Prop where
  outcome : ∀ s, s.depth + n = nestingLimit →
    Outcome (fun _ t => t.depth = s.depth)
      (fun e t => IsTooDeep e → t.depth = nestingLimit + 1) (p s)
  inRange : ∀ calls s, s.depth + n = nestingLimit → ∀ m ∈ moments calls s, InRange n p calls s m
  /-- The state that the run leaves is among those that it passes. -/
  leaves : ∀ calls s, ∃ m ∈ moments calls s, m.state = finalState (p s)

section

variable {n calls : Nat} {p : Parse α} {s : State} {m : Moment}

/-- Within the limit nothing has failed yet. -/
theorem InRange.of_le (hlower : s.depth + m.leaving ≤ m.state.depth)
    (hlimit : m.state.depth ≤ nestingLimit) (hcalls : m.calls ≤ calls + n) :
    InRange n p calls s m :=
  ⟨hlower, Nat.le_succ_of_le hlimit, hcalls, fun h => by omega⟩

/-- The run is back at its depth. -/
theorem InRange.of_eq {t : State} (hs : s.depth + n = nestingLimit) (ht : t.depth = s.depth) :
    InRange n p calls s ⟨t, calls, 0⟩ :=
  .of_le (Nat.le_of_eq ht.symm) (by dsimp only; omega) (Nat.le_add_right calls n)

/-- What happens in a part of a run happens in the run, if the run fails with the part. -/
theorem InRange.of_part {n' calls' : Nat} {q : Parse β} {t : State} (h : InRange n' q calls' t m)
    (hdepth : s.depth ≤ t.depth) (hcalls : calls' + n' ≤ calls + n)
    (hfails : ∀ e u, q t = .error e u → p s = .error e u) : InRange n p calls s m where
  lower := Nat.le_trans (Nat.add_le_add_right hdepth _) h.lower
  upper := h.upper
  calls_le := Nat.le_trans h.calls_le hcalls
  tooDeep := by
    intro hm
    obtain ⟨e, u, hq, he⟩ := h.tooDeep hm
    exact ⟨e, u, hfails e u hq, he⟩

end

/-! ### Primitive steps -/

/-- What is skipped is not nested for the parser. -/
theorem closeBraces_depth (depth : Nat) (s : State) : (closeBraces depth s).1.depth = s.depth := by
  fun_induction closeBraces depth s with
  | case1 depth s _ _ ih => exact ih.trans s.next_depth
  | case2 s => exact s.next_depth
  | case3 depth s _ _ _ ih => exact ih.trans s.next_depth
  | case4 depth s _ _ _ ih => exact ih.trans s.next_depth
  | case5 => rfl

/-- A primitive step leaves the depth as it is, and fails for other reasons. -/
theorem Primitive.outcome {p : Parse α} (h : Primitive p) (s : State) :
    Outcome (fun _ t => t.depth = s.depth) (fun e t => t.depth = s.depth ∧ ¬ IsTooDeep e)
      (p s) := by
  cases h with
  | pure | get | kind | position | spanFrom | modifyScope | beginClass => rfl
  | advance => exact s.next_depth
  | expectDescribed k expected =>
    rw [outcome_expectDescribed]
    exact ⟨fun _ => s.next_depth, fun _ => ⟨rfl, nofun⟩⟩
  | accept k =>
    rw [outcome_accept]
    exact ⟨fun _ => s.next_depth, fun _ => rfl⟩
  | skipBraced =>
    have hclose : (closeBraces 1 s.next).1.depth = s.depth :=
      (closeBraces_depth 1 s.next).trans s.next_depth
    rw [run_skipBraced]
    split
    · split
      · exact hclose
      · exact ⟨hclose, nofun⟩
    · exact ⟨rfl, nofun⟩
  | unexpected | unexpectedDetailed => exact ⟨rfl, nofun⟩
  | throw he => exact ⟨rfl, he⟩

/-- A step has one moment, its end. -/
theorem keepsDepth_primitive {n : Nat} {p : Parse α} (h : Primitive p) :
    KeepsDepth n p fun calls s => [⟨finalState (p s), calls, 0⟩] where
  outcome := by
    intro s hs
    have hp := h.outcome s
    cases hr : p s with
    | ok a t => exact hp.of_eq_ok hr
    | error e t =>
      rw [hr] at hp
      exact fun he => absurd he hp.2
  inRange := by
    intro calls s hs m hm
    obtain rfl := List.mem_singleton.1 hm
    have hp := h.outcome s
    cases hr : p s with
    | ok a t => exact .of_eq hs (hp.of_eq_ok hr)
    | error e t =>
      rw [hr] at hp
      exact .of_eq hs hp.1
  leaves := fun calls s => ⟨_, List.mem_singleton_self _, rfl⟩

/-! ### Sequences -/

theorem run_bind_of_ok {p : Parse α} {k : α → Parse β} {s t : State} {a : α} (h : p s = .ok a t) :
    (p >>= k) s = k a t := by
  show EStateM.bind p k s = _
  rw [EStateM.bind, h]

theorem run_bind_of_error {p : Parse α} {k : α → Parse β} {s t : State} {e : CompileError}
    (h : p s = .error e t) : (p >>= k) s = .error e t := by
  show EStateM.bind p k s = _
  rw [EStateM.bind, h]

/-- The moments of the second part are passed only if the first one has returned. -/
theorem keepsDepth_bind {n : Nat} {p : Parse α} {k : α → Parse β}
    {first : Nat → State → List Moment} {rest : α → Nat → State → List Moment}
    (hp : KeepsDepth n p first) (hk : ∀ a, KeepsDepth n (k a) (rest a)) :
    KeepsDepth n (p >>= k) fun calls s =>
      bindMoments p (first calls) (fun a => rest a calls) s where
  outcome := by
    intro s hs
    rw [outcome_bind]
    refine (hp.outcome s hs).mono fun a t ht => ?_
    exact ((hk a).outcome t (by omega)).mono fun b u hu => hu.trans ht
  inRange := by
    intro calls s hs m hm
    rcases List.mem_append.1 hm with hm | hm
    · exact (hp.inRange calls s hs m hm).of_part (Nat.le_refl _) (Nat.le_refl _)
        fun e t hr => run_bind_of_error hr
    · cases hr : p s with
      | error e t => simp [hr] at hm
      | ok a t =>
        have ht : t.depth = s.depth := (hp.outcome s hs).of_eq_ok hr
        rw [hr] at hm
        refine ((hk a).inRange calls t (by omega) m hm).of_part (Nat.le_of_eq ht.symm)
          (Nat.le_refl _) fun e u hrest => ?_
        rw [run_bind_of_ok hr]
        exact hrest
  leaves := by
    intro calls s
    rw [bindMoments]
    cases hr : p s with
    | error e t =>
      obtain ⟨m, hm, hleft⟩ := hp.leaves calls s
      rw [hr] at hleft
      exact ⟨m, List.mem_append_left _ hm, by rw [run_bind_of_error hr]; exact hleft⟩
    | ok a t =>
      obtain ⟨m, hm, hleft⟩ := (hk a).leaves calls t
      exact ⟨m, List.mem_append_right _ hm, by rw [run_bind_of_ok hr]; exact hleft⟩

/-! ### Loops -/

/-- The moments of a repetition are the start of each round and those in it. -/
theorem mem_manyMoments {more : State → Bool} {item : Parse α} {calls : Nat}
    {round : State → List Moment} {s : State} {m : Moment} :
    m ∈ manyMoments more item calls round s ↔ m = ⟨s, calls, 0⟩ ∨ more s = true ∧
      (m ∈ round s ∨ ∃ a t, item s = .ok a t ∧ t.remaining < s.remaining ∧
        m ∈ manyMoments more item calls round t) := by
  rw [manyMoments]
  by_cases hmore : more s = true
  · cases item s with
    | error e t => simp [hmore]
    | ok a t => by_cases hlt : t.remaining < s.remaining <;> grind
  · simp [hmore]

/-- The same of a list, whose round goes on after a comma. -/
theorem mem_commaMoments {stop : Kind} {item : Parse α} {calls : Nat}
    {round : State → List Moment} {s : State} {m : Moment} :
    m ∈ commaMoments stop item calls round s ↔ m = ⟨s, calls, 0⟩ ∨ s.kind ≠ stop ∧
      (m ∈ round s ∨ ∃ a t, item s = .ok a t ∧ t.kind = .comma ∧
        if t.next.remaining < s.remaining then m ∈ commaMoments stop item calls round t.next
        else m = ⟨t.next, calls, 0⟩) := by
  rw [commaMoments]
  by_cases hstop : s.kind = stop
  · simp [hstop]
  · cases item s with
    | error e t => simp [hstop]
    | ok a t =>
      by_cases hcomma : t.kind = .comma
      · by_cases hlt : t.next.remaining < s.remaining <;> grind
      · grind

section

variable {n : Nat} {item : Parse α} {moments : Nat → State → List Moment}
  (hitem : KeepsDepth n item moments) {s : State}

include hitem

/-- A round that begins at the depth of `s` ends there, or the loop fails with it. -/
theorem KeepsDepth.round (hs : s.depth + n = nestingLimit) {t : State} (ht : t.depth = s.depth) :
    Outcome (fun _ u => True ∧ u.depth = s.depth)
      (fun e v => ∃ u : State, u.depth = s.depth ∧ item u = .error e v) (item t) := by
  have hround := hitem.outcome t (by omega)
  cases hr : item t with
  | ok a u => exact ⟨trivial, (hround.of_eq_ok hr).trans ht⟩
  | error e v => exact ⟨t, ht, hr⟩

/-- All rounds of a loop begin at the depth of the first, and it fails where a round does. -/
theorem KeepsDepth.outcome_many (more : State → Bool) (hs : s.depth + n = nestingLimit) :
    Outcome (fun _ t => t.depth = s.depth)
      (fun e t => ∃ u : State, u.depth = s.depth ∧ item u = .error e t) (many more item s) :=
  (Parse.outcome_many (fun t (ht : t.depth = s.depth) _ => hitem.round hs ht) s rfl).mono
    fun _ _ h => h.2

theorem KeepsDepth.outcome_commaList (stop : Kind) (hs : s.depth + n = nestingLimit) :
    Outcome (fun _ t => t.depth = s.depth)
      (fun e t => ∃ u : State, u.depth = s.depth ∧ item u = .error e t) (commaList stop item s) :=
  (Parse.outcome_commaList (fun t (ht : t.depth = s.depth) => t.next_depth.trans ht)
    (fun _ ht => hitem.round hs ht) s rfl).mono fun _ _ h => h.2

/-- If it goes too deep in a round, it does so in the loop. -/
theorem KeepsDepth.outcome_of_rounds {r : EStateM.Result CompileError State β}
    (hs : s.depth + n = nestingLimit)
    (h : Outcome (fun _ t => t.depth = s.depth)
      (fun e t => ∃ u : State, u.depth = s.depth ∧ item u = .error e t) r) :
    Outcome (fun _ t => t.depth = s.depth)
      (fun e t => IsTooDeep e → t.depth = nestingLimit + 1) r := by
  cases r with
  | ok b t => exact h
  | error e t =>
    obtain ⟨u, hu, hround⟩ := h
    have hdepth := hitem.outcome u (by omega)
    rw [hround] at hdepth
    exact hdepth

/-- Each round is back at the depth it began at. -/
theorem keepsDepth_many (more : State → Bool) :
    KeepsDepth n (many more item) fun calls s => manyMoments more item calls (moments calls) s where
  outcome := fun s hs => hitem.outcome_of_rounds hs (hitem.outcome_many more hs)
  inRange := by
    -- By induction on the tokens left. A round that returns is back at the depth of `s`, so
    -- the rounds after it have as many levels left.
    intro calls s hs m hm
    induction s using manyMoments.induct with
    | case1 s ih =>
      rcases mem_manyMoments.1 hm with rfl | ⟨hmore, hm | ⟨a, t, hr, hlt, hm⟩⟩
      · exact .of_eq hs rfl
      · refine (hitem.inRange calls s hs m hm).of_part (Nat.le_refl _) (Nat.le_refl _) ?_
        intro e t hr
        rw [many, if_pos hmore, hr]
      · have ht : t.depth = s.depth := (hitem.outcome s hs).of_eq_ok hr
        refine (ih t hlt (by omega) hm).of_part (Nat.le_of_eq ht.symm) (Nat.le_refl _) ?_
        intro e u hrest
        rw [many, if_pos hmore, hr]
        simp only [if_pos hlt, hrest]
  leaves := by
    intro calls s
    fun_induction many more item s with
    | case1 s hmore e t hr | case4 s hmore a t hr hlt =>
      obtain ⟨m, hm, hleft⟩ := hitem.leaves calls s
      rw [hr] at hleft
      exact ⟨m, mem_manyMoments.2 (.inr ⟨hmore, .inl hm⟩), hleft⟩
    | case2 s hmore a t hr hlt e u hrest ih | case3 s hmore a t hr hlt as u hrest ih =>
      obtain ⟨m, hm, hleft⟩ := ih
      rw [hrest] at hleft
      exact ⟨m, mem_manyMoments.2 (.inr ⟨hmore, .inr ⟨a, t, hr, hlt, hm⟩⟩), hleft⟩
    | case5 s hmore => exact ⟨_, mem_manyMoments.2 (.inl rfl), rfl⟩

theorem keepsDepth_commaList (stop : Kind) :
    KeepsDepth n (commaList stop item) fun calls s =>
      commaMoments stop item calls (moments calls) s where
  outcome := fun s hs => hitem.outcome_of_rounds hs (hitem.outcome_commaList stop hs)
  inRange := by
    intro calls s hs m hm
    induction s using commaMoments.induct with
    | case1 s ih =>
      rcases mem_commaMoments.1 hm with rfl | ⟨hstop, hm | ⟨a, t, hr, hcomma, hm⟩⟩
      · exact .of_eq hs rfl
      · refine (hitem.inRange calls s hs m hm).of_part (Nat.le_refl _) (Nat.le_refl _) ?_
        intro e t hr
        rw [commaList, if_neg hstop, hr]
      · have ht : t.next.depth = s.depth :=
          t.next_depth.trans ((hitem.outcome s hs).of_eq_ok hr)
        by_cases hlt : t.next.remaining < s.remaining
        · rw [if_pos hlt] at hm
          refine (ih t hlt (by omega) hm).of_part (Nat.le_of_eq ht.symm) (Nat.le_refl _) ?_
          intro e u hrest
          rw [commaList, if_neg hstop, hr]
          simp only [if_pos hcomma, if_pos hlt, hrest]
        · rw [if_neg hlt] at hm
          subst hm
          exact .of_eq hs ht
  leaves := by
    intro calls s
    fun_induction commaList stop item s with
    | case1 s hstop => exact ⟨_, mem_commaMoments.2 (.inl rfl), rfl⟩
    | case2 s hstop e t hr | case6 s hstop a t hr hcomma =>
      obtain ⟨m, hm, hleft⟩ := hitem.leaves calls s
      rw [hr] at hleft
      exact ⟨m, mem_commaMoments.2 (.inr ⟨hstop, .inl hm⟩), hleft⟩
    | case3 s hstop a t hr hcomma hlt e u hrest ih
    | case4 s hstop a t hr hcomma hlt as u hrest ih =>
      obtain ⟨m, hm, hleft⟩ := ih
      rw [hrest] at hleft
      refine ⟨m, mem_commaMoments.2 (.inr ⟨hstop, .inr ⟨a, t, hr, hcomma, ?_⟩⟩), hleft⟩
      rwa [if_pos hlt]
    | case5 s hstop a t hr hcomma hlt =>
      refine ⟨⟨t.next, calls, 0⟩, mem_commaMoments.2 (.inr ⟨hstop, .inr ⟨a, t, hr, ?_⟩⟩), rfl⟩
      exact ⟨hcomma, by rw [if_neg hlt]⟩

end

/-! ### Levels -/

/-- The levels that are left are counted from the depth at hand. -/
theorem keepsDepth_within {n : Nat} {p : Nat → Parse α}
    {moments : Nat → Nat → State → List Moment} (hp : ∀ b, KeepsDepth b (p b) (moments b)) :
    KeepsDepth n (get >>= fun s => p s.budget) fun calls s => moments s.budget calls s := by
  have hbudget {s : State} (hs : s.depth + n = nestingLimit) : s.budget = n := by
    unfold State.budget
    omega
  constructor
  · intro s hs
    rw [outcome_bind, outcome_get, hbudget hs]
    exact (hp n).outcome s hs
  · intro calls s hs m hm
    rw [hbudget hs] at hm
    refine ((hp n).inRange calls s hs m hm).of_part (Nat.le_refl _) (Nat.le_refl _) ?_
    intro e t hr
    show p s.budget s = _
    rw [hbudget hs]
    exact hr
  · intro calls s
    exact (hp s.budget).leaves calls s

/-- Without a level left, the depth goes one above the limit and the run fails. -/
theorem keepsDepth_tooDeep : KeepsDepth 0 (tooDeep (α := α)) fun calls s =>
    [⟨{ s with depth := s.depth + 1 }, calls, 0⟩] where
  outcome := by
    intro s hs _
    exact congrArg (· + 1) hs
  inRange := by
    intro calls s hs m hm
    obtain rfl := List.mem_singleton.1 hm
    exact ⟨Nat.le_succ _, Nat.succ_le_succ (Nat.le_of_eq hs), Nat.le_refl _,
      fun _ => ⟨_, _, rfl, rfl⟩⟩
  leaves := fun calls s => ⟨_, List.mem_singleton_self _, rfl⟩

/-- A level is entered if there is one, and left if its body returns. -/
theorem run_nested (body : Parse α) (s : State) :
    nested body s =
      if s.depth < nestingLimit then
        match body { s with depth := s.depth + 1 } with
        | .error e t => .error e t
        | .ok a t => .ok a { t with depth := t.depth - 1 }
      else .error s.tooDeep { s with depth := s.depth + 1 } := by
  by_cases hlimit : s.depth < nestingLimit
  · have hdeepen : deepen s = .ok ⟨⟩ { s with depth := s.depth + 1 } := by
      rw [run_deepen, if_pos hlimit]
    rw [nested, run_bind_of_ok hdeepen, if_pos hlimit]
    cases hr : body { s with depth := s.depth + 1 } with
    | error e t => exact run_bind_of_error hr
    | ok a t => exact run_bind_of_ok hr
  · have hdeepen : deepen s = .error s.tooDeep { s with depth := s.depth + 1 } := by
      rw [run_deepen, if_neg hlimit]
    rw [nested, run_bind_of_error hdeepen, if_neg hlimit]

/-- A level keeps the depth if what is read on it does. At most one call more is active on
the level than around it. -/
theorem keepsDepth_nested {n : Nat} {body : Parse α} {inside : Nat → State → List Moment}
    (hbody : KeepsDepth n body inside) {inner : Nat → Nat}
    (hinner : ∀ calls, inner calls ≤ calls + 1) :
    KeepsDepth (n + 1) (nested body) fun calls s =>
      nestedMoments body calls (inner calls) (inside (inner calls)) s where
  outcome := by
    intro s hs
    have hbodyOutcome := hbody.outcome { s with depth := s.depth + 1 } (by dsimp only; omega)
    rw [run_nested, if_pos (by omega)]
    cases hr : body { s with depth := s.depth + 1 } with
    | ok a t =>
      have ht : t.depth = s.depth + 1 := hbodyOutcome.of_eq_ok hr
      exact congrArg (· - 1) ht
    | error e t =>
      rw [hr] at hbodyOutcome
      exact hbodyOutcome
  inRange := by
    intro calls s hs m hm
    have hlimit : s.depth < nestingLimit := by omega
    have hentered : s.depth + 1 + n = nestingLimit := by omega
    have hcalls := hinner calls
    simp only [nestedMoments, if_pos hlimit, List.mem_cons, List.mem_append] at hm
    -- The level is entered, `body` runs on it, or it is about to be left or has been left.
    rcases hm with rfl | hm | hm
    · exact .of_le (Nat.le_succ _) hlimit (by dsimp only; omega)
    · refine (hbody.inRange _ _ hentered m hm).of_part (Nat.le_succ _) (by omega) ?_
      intro e t hr
      rw [run_nested, if_pos hlimit, hr]
    · cases hr : body { s with depth := s.depth + 1 } with
      | error e t => simp [hr] at hm
      | ok a t =>
        have ht : t.depth = s.depth + 1 := (hbody.outcome _ hentered).of_eq_ok hr
        simp only [hr, List.mem_cons, List.not_mem_nil, or_false] at hm
        rcases hm with rfl | rfl
        · exact .of_le (Nat.le_of_eq ht.symm) (by dsimp only; omega) (by dsimp only; omega)
        · exact .of_eq hs (congrArg (· - 1) ht)
  leaves := by
    intro calls s
    rw [run_nested, nestedMoments]
    by_cases hlimit : s.depth < nestingLimit
    · rw [if_pos hlimit, if_pos hlimit]
      cases hr : body { s with depth := s.depth + 1 } with
      | error e t =>
        obtain ⟨m, hm, hleft⟩ := hbody.leaves (inner calls) { s with depth := s.depth + 1 }
        rw [hr] at hleft
        exact ⟨m, List.mem_cons_of_mem _ (List.mem_append_left _ hm), hleft⟩
      | ok a t => exact ⟨⟨{ t with depth := t.depth - 1 }, calls, 0⟩, by simp, rfl⟩
    · rw [if_neg hlimit, if_neg hlimit]
      exact ⟨_, List.mem_singleton_self _, rfl⟩

/-! ### Routines -/

/-- Every routine keeps the depth. -/
theorem Routine.keepsDepth {n : Nat} {p : Parse α} (r : Routine n p) :
    KeepsDepth n p r.moments := by
  induction r with
  | primitive h => exact keepsDepth_primitive h
  | bind _ _ hfirst hrest => exact keepsDepth_bind hfirst hrest
  | many more _ ih => exact keepsDepth_many ih more
  | commaList stop _ ih => exact keepsDepth_commaList ih stop
  | within _ ih => exact keepsDepth_within ih
  | tooDeep => exact keepsDepth_tooDeep
  | call h body ih =>
    have hnested := keepsDepth_nested ih fun calls => Nat.le_refl (calls + 1)
    rw [← h.eq_nested] at hnested
    exact hnested
  | operator _ ih => exact keepsDepth_nested ih fun calls => Nat.le_succ calls

end ClassScript.Parse

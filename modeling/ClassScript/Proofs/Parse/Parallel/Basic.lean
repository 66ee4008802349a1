import ClassScript.Parse.Decl
import ClassScript.Proofs.Parse.Lexemes
import ClassScript.Proofs.Tree.Unlocated

/-!
# How the parser is built

All parsers are built from the same few steps: they read a token, ask a question about
the tokens to come, enter or leave a level of nesting, and so on. `Parallel` says of two
parsers that they are built alike, and that the values they pass on differ in places
only. For the parsers of this grammar that is proved here, one lemma each, so that a
property of all of them takes one lemma for each kind of step and no more.

The judgment keeps count of the braces that are open and of the depth of nesting, and
knows the kind of the token at hand where the parser has asked for it.
-/

namespace ClassScript

/-- Is it a curly brace? -/
def Kind.isCurly : Kind → Bool
  | .openCurly | .closeCurly => true
  | _ => false

/-- Does a token of this kind end a declaration? -/
def Kind.isEnd : Kind → Bool
  | .semicolon | .closeCurly => true
  | _ => false

/-- Does a token of this kind end a declaration or the input? No type goes on past it. -/
def Kind.endsType : Kind → Bool
  | .semicolon | .closeCurly | .eof => true
  | _ => false

/-- What ends a declaration ends a type in it. -/
theorem Kind.endsType_of_isEnd {k : Kind} (h : k.isEnd = true) : k.endsType = true := by
  cases k <;> first | rfl | cases h

namespace Parse

/-! ### Levels -/

/-- The number of open braces after a token, unless it closes one too many. -/
def bracesAfter : Nat → Kind → Option Nat
  | n, .openCurly => some (n + 1)
  | n + 1, .closeCurly => some n
  | 0, .closeCurly => none
  | n, _ => some n

/-- Only braces change how many of them are open. -/
theorem bracesAfter_eq_self (n : Nat) {k : Kind} (h : k.isCurly = false) :
    bracesAfter n k = some n := by
  cases k <;> first | rfl | cases h

/-- The number of open braces and the depth of nesting. -/
structure Level where
  braces : Nat
  depth : Nat

namespace Level

/-- The level after a token of the given kind. -/
def after (l : Level) (k : Kind) : Option Level :=
  (bracesAfter l.braces k).map fun n => ⟨n, l.depth⟩

/-- One more brace is open. -/
def opened (l : Level) : Level := ⟨l.braces + 1, l.depth⟩

/-- The nesting is deeper by one. -/
def deeper (l : Level) : Level := ⟨l.braces, l.depth + 1⟩

theorem after_eq_self (l : Level) {k : Kind} (h : k.isCurly = false) : l.after k = some l := by
  rw [after, bracesAfter_eq_self _ h]
  rfl

end Level

/-! ### Reading a token -/

/-- At the end of the input nothing is read. -/
theorem State.next_of_end {s : State} (h : s.kind = .eof ∨ s.following = []) : s.next = s := by
  unfold next
  rcases h with h | h
  · rw [if_pos h]
  · split
    · rfl
    · split
      · rfl
      · simp_all

/-- Elsewhere the token at hand is read. -/
theorem State.next_of_more {s : State} (h : s.kind ≠ .eof) (hmore : s.following ≠ []) :
    s.next.tokens = s.following ∧ s.next.lastStop = some s.current.span.stop := by
  unfold next
  rw [if_neg h]
  split
  · contradiction
  · rename_i hfollowing
    exact ⟨hfollowing.symm, rfl⟩

/-! ### What the steps do -/

theorem run_expectDescribed (x : Kind) (expected : String) (s : State) :
    expectDescribed x expected s =
      if s.kind = x then .ok s.current s.next else .error (s.unexpected expected) s := by
  show (if s.kind = x then advance else fail (·.unexpected expected)) s = _
  split <;> rfl

theorem run_accept (x : Kind) (s : State) :
    accept x s = if s.kind = x then .ok true s.next else .ok false s := by
  show (if s.kind = x then advance >>= fun _ => pure true else pure false : Parse Bool) s = _
  split <;> rfl

/-- The level is entered as long as the limit is not reached, and the error enters it too. -/
theorem run_deepen (s : State) :
    deepen s = if s.depth < nestingLimit then .ok ⟨⟩ { s with depth := s.depth + 1 }
      else .error s.tooDeep { s with depth := s.depth + 1 } := by
  show (if s.depth < nestingLimit then modify fun s => { s with depth := s.depth + 1 }
    else tooDeep : Parse Unit) s = _
  split <;> rfl

/-- The tokens between the braces are passed over, and the error is at the place where they run
out. -/
theorem run_skipBraced (s : State) :
    skipBraced s =
      if s.kind = .openCurly then
        if (closeBraces 1 s.next).2 then .ok ⟨⟩ (closeBraces 1 s.next).1
        else .error ((closeBraces 1 s.next).1.unexpected "`\x7d`") (closeBraces 1 s.next).1
      else .error (s.unexpected Kind.openCurly.describe) s := by
  show EStateM.bind (expectDescribed .openCurly _) _ s = _
  unfold EStateM.bind
  rw [run_expectDescribed]
  by_cases h : s.kind = .openCurly
  · rw [if_pos h, if_pos h]
    show (if !(closeBraces 1 s.next).2 then fail (·.unexpected "`\x7d`") else pure ⟨⟩ : Parse Unit)
      (closeBraces 1 s.next).1 = _
    cases (closeBraces 1 s.next).2 <;> rfl
  · rw [if_neg h, if_neg h]

/-! ### The judgment -/

/-- What a parser may ask about its state. -/
inductive Question : {γ : Type} → (State → γ) → Prop
  | kind : Question State.kind
  | budget : Question State.budget
  | scope : Question State.scope
  | declaration : Question fun s => looksLikeDeclaration s.tokens
  | constructor (name : String) : Question (startsConstructor name)
  | accessor : Question fun s => accessorOf? s.current

/-- The two parsers are built alike. They begin where the kind of the token at hand
satisfies `K`, lead from the first level to the second, and the values that they return
have the same `view`. Tokens that they read are related by `T`. -/
inductive Parallel (T : Token → Token → Prop) : {α β : Type} → (Kind → Prop) → Level → Level →
    (α → β) → Parse α → Parse α → Prop
  | pure {α β : Type} {K : Kind → Prop} {l : Level} {view : α → β} {a a' : α} :
      view a = view a' → Parallel T K l l view (pure a) (pure a')
  | bind {α β γ δ : Type} {K : Kind → Prop} {l l₁ l₂ : Level} {view : α → β} {view' : γ → δ}
      {p q : Parse α} {k k' : α → Parse γ} : Parallel T K l l₁ view p q →
      (∀ a a', view a = view a' → Parallel T (fun _ => True) l₁ l₂ view' (k a) (k' a')) →
      Parallel T K l l₂ view' (p >>= k) (q >>= k')
  /-- Less may be known about the token at hand, and more about the values. -/
  | weaken {α β γ : Type} {K K' : Kind → Prop} {l l' : Level} {view : α → β} {view' : α → γ}
      {p q : Parse α} : (∀ x, K' x → K x) → (∀ a a', view a = view a' → view' a = view' a') →
      Parallel T K l l' view p q → Parallel T K' l l' view' p q
  /-- The error names the token at hand. -/
  | fail {α β : Type} {K : Kind → Prop} {l l' : Level} {view : α → β}
      (cause : String → CompileError.Cause) : Parallel T K l l' view
        (fail fun s => .atToken (cause s.current.display) s.current)
        (fail fun s => .atToken (cause s.current.display) s.current)
  /-- The error names a token that was read before. -/
  | throw {α β : Type} {K : Kind → Prop} {l l' : Level} {view : α → β} {t t' : Token}
      (cause : CompileError.Cause) : T t t' →
      Parallel T K l l' view (throw (.atToken cause t)) (throw (.atToken cause t'))
  | tooDeep {α β : Type} {K : Kind → Prop} {l l' : Level} {view : α → β} :
      Parallel T K l l' view tooDeep tooDeep
  | ask {α β γ : Type} {K : Kind → Prop} {l l' : Level} {view : α → β} {o : State → γ}
      (k k' : γ → Parse α) : Question o →
      (∀ c, Parallel T (fun x => K x ∧ ∃ s, o s = c ∧ s.kind = x) l l' view (k c) (k' c)) →
      Parallel T K l l' view (get >>= fun s => k (o s)) (get >>= fun s => k' (o s))
  /-- The token at hand and the next one are remembered for a message. -/
  | hold {α β : Type} {K : Kind → Prop} {l l' : Level} {view : α → β}
      (k k' : Token → Token → Parse α) : (∀ x, K x → x.isEnd = false) →
      (∀ t t' u u', T t t' → T u u' → u.lexeme = u'.lexeme →
        Parallel T K l l' view (k t u) (k' t' u')) →
      Parallel T K l l' view (get >>= fun s => k s.current (s.peek 1))
        (get >>= fun s => k' s.current (s.peek 1))
  | position {β : Type} {K : Kind → Prop} {l : Level} (b : β) :
      Parallel T K l l (fun _ => b) position position
  | spanFrom {β : Type} {K : Kind → Prop} {l : Level} (b : β) (start start' : Position) :
      Parallel T K l l (fun _ => b) (spanFrom start) (spanFrom start')
  | advance {α β : Type} {K : Kind → Prop} {l l' : Level} {view : α → β}
      {k k' : Token → Parse α} : (∀ x, K x → x.isCurly = false) →
      (∀ t t', T t t' → t.lexeme = t'.lexeme →
        Parallel T (fun _ => True) l l' view (k t) (k' t')) →
      Parallel T K l l' view (advance >>= k) (advance >>= k')
  | expectDescribed {K : Kind → Prop} {l l' : Level} {x : Kind} (expected : String) :
      l.after x = some l' →
      Parallel T K l l' Token.lexeme (expectDescribed x expected) (expectDescribed x expected)
  | accept {K : Kind → Prop} {l : Level} {x : Kind} : x.isCurly = false →
      Parallel T K l l id (accept x) (accept x)
  | deepen {K : Kind → Prop} {l : Level} : Parallel T K l l.deeper id deepen deepen
  | surface {K : Kind → Prop} {l : Level} : Parallel T K l.deeper l id (surface 1) (surface 1)
  | modifyScope {K : Kind → Prop} {l : Level} (f : Scope → Scope) :
      Parallel T K l l id (modifyScope f) (modifyScope f)
  | beginClass {K : Kind → Prop} {l : Level} (name : String) :
      Parallel T K l.opened l.opened id (beginClass name) (beginClass name)
  | skipBraced {K : Kind → Prop} {l : Level} : Parallel T K l l id skipBraced skipBraced
  | many {α β : Type} {K : Kind → Prop} {l : Level} {view : α → β} {more : State → Bool}
      {m : Kind → Bool} {p q : Parse α} : (∀ s, more s = m s.kind) →
      Parallel T (fun x => m x = true) l l view p q →
      Parallel T K l l (List.map view) (many more p) (many more q)
  | commaList {α β : Type} {K : Kind → Prop} {l : Level} {view : α → β} (stop : Kind)
      {p q : Parse α} : Parallel T (fun _ => True) l l view p q →
      Parallel T K l l (List.map view) (commaList stop p) (commaList stop q)

namespace Parallel

variable {T : Token → Token → Prop} {α β : Type} {K : Kind → Prop} {l l' : Level} {view : α → β}

/-- What holds at every kind of token holds at those in question. -/
theorem any {p q : Parse α} (h : Parallel T (fun _ => True) l l' view p q) :
    Parallel T K l l' view p q :=
  .weaken (fun _ _ => trivial) (fun _ _ h => h) h

/-- The two runs see one kind, so it is enough to follow them for each kind. -/
theorem kind {k k' : Kind → Parse α} (h : ∀ c, Parallel T (fun x => x = c) l l' view (k c) (k' c)) :
    Parallel T K l l' view (Parse.kind >>= k) (Parse.kind >>= k') := by
  refine .ask k k' .kind fun c => (h c).weaken ?_ fun _ _ h => h
  rintro x ⟨-, s, hc, hx⟩
  exact hx.symm.trans hc

/-- One of two parsers goes on, as the answer says. -/
theorem choice {o : State → Bool} {p p' q q' : Parse α} (ho : Question o)
    (hp : Parallel T (fun _ => True) l l' view p p')
    (hq : Parallel T (fun _ => True) l l' view q q') :
    Parallel T K l l' view (get >>= fun s => if o s then p else q)
      (get >>= fun s => if o s then p' else q') := by
  refine .ask (fun yes => if yes then p else q) (fun yes => if yes then p' else q') ho fun yes => ?_
  cases yes with
  | true => exact .any hp
  | false => exact .any hq

theorem described {x : Kind} (expected : String) (h : x.isCurly = false) :
    Parallel T K l l Token.lexeme (Parse.expectDescribed x expected)
      (Parse.expectDescribed x expected) :=
  .expectDescribed expected (l.after_eq_self h)

theorem expect {x : Kind} (h : x.isCurly = false) :
    Parallel T K l l Token.lexeme (Parse.expect x) (Parse.expect x) :=
  described x.describe h

/-- An opening brace is the one token after which one more brace is open. -/
theorem openCurly (expected : String) : Parallel T K l l.opened Token.lexeme
    (Parse.expectDescribed .openCurly expected) (Parse.expectDescribed .openCurly expected) :=
  .expectDescribed expected rfl

/-- A closing brace leads back to where the matching one was opened. -/
theorem closeCurly : Parallel T K l.opened l Token.lexeme (Parse.expect .closeCurly)
    (Parse.expect .closeCurly) :=
  .expectDescribed _ rfl

theorem unexpected (expected : String) : Parallel T K l l' view
    (Parse.fail (·.unexpected expected)) (Parse.fail (·.unexpected expected)) :=
  .fail fun found => .unexpectedToken found expected

/-- Nothing is read after a failure. -/
theorem fail_bind {γ : Type} (error : State → CompileError) (k : γ → Parse α) :
    (Parse.fail error >>= k) = Parse.fail error :=
  rfl

/-- Something may stand before what follows in any case. -/
theorem optional {γ δ : Type} {c : Prop} [Decidable c] {p q : Parse γ} {k k' : Parse α}
    {v : γ → δ} (hp : Parallel T (fun _ => True) l l v p q)
    (hk : Parallel T (fun _ => True) l l' view k k') :
    Parallel T (fun _ => True) l l' view (if c then p >>= fun _ => k else k)
      (if c then q >>= fun _ => k' else k') := by
  split
  · exact .bind hp fun _ _ _ => hk
  · exact hk

end Parallel

end Parse

end ClassScript

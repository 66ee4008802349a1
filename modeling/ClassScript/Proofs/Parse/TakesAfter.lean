import ClassScript.Proofs.Parse.TypeGrammar

/-!
# Where a parser has come to

A span ends where the token ends that was read last, so what a parser returns depends on
what was read before. `TakesAfter front` is about the rest of a parser that has read the
tokens `front` so far, and relates its value to all that it has read in the end. It is
entered with nothing read (`Takes.of_after`), grows by what each part takes
(`TakesAfter.bind`), and knows where `front` ends when a span is made of it
(`TakesAfter.spanFrom`).
-/

namespace ClassScript.Parse

variable {α β : Type}

/-! ### The first and the last place of some tokens -/

/-- Where the first of the tokens begins. -/
def startOf? (w : List Token) : Option Position := w.head?.map (·.span.start)

/-- Where the last of the tokens ends. -/
def stopOf? (w : List Token) : Option Position := w.getLast?.map (·.span.stop)

@[simp] theorem startOf?_cons (t : Token) (w : List Token) :
    startOf? (t :: w) = some t.span.start := rfl

/-- The last token is one of the second part, unless that is empty. -/
theorem stopOf?_append (w v : List Token) : stopOf? (w ++ v) = (stopOf? v).or (stopOf? w) := by
  unfold stopOf?
  rw [List.getLast?_append]
  cases v.getLast? <;> rfl

theorem startOf?_append (w v : List Token) :
    startOf? (w ++ v) = (startOf? w).or (startOf? v) := by
  cases w <;> rfl

@[simp] theorem stopOf?_concat (w : List Token) (t : Token) :
    stopOf? (w ++ [t]) = some t.span.stop := by
  rw [stopOf?_append]
  rfl

@[simp] theorem stopOf?_cons_concat (t : Token) (w : List Token) (u : Token) :
    stopOf? (t :: (w ++ [u])) = some u.span.stop :=
  stopOf?_concat (t :: w) u

theorem exists_stopOf? {w : List Token} (h : w ≠ []) : ∃ stop, stopOf? w = some stop :=
  ⟨(w.getLast h).span.stop, by rw [stopOf?, List.getLast?_eq_some_getLast h]; rfl⟩

theorem ne_nil_of_stopOf? {w : List Token} {stop : Position} (h : stopOf? w = some stop) :
    w ≠ [] := by
  rintro rfl
  cases h

/-! ### The end of what was read -/

/-- A step reads one token at most, and remembers where it has ended. -/
theorem Step.lastStop {s t : State} (h : Step s t) :
    ∃ w, s.tokens = w ++ t.tokens ∧ t.lastStop = (stopOf? w).or s.lastStop := by
  cases h with
  | read =>
    by_cases hend : s.kind = .eof ∨ s.following = []
    · exact ⟨[], by rw [State.next_of_end hend]; rfl, by rw [State.next_of_end hend]; rfl⟩
    · rw [not_or] at hend
      obtain ⟨htokens, hlast⟩ := State.next_of_more hend.1 hend.2
      exact ⟨[s.current], by rw [htokens]; rfl, by rw [hlast]; rfl⟩
  | level => exact ⟨[], rfl, rfl⟩
  | names => exact ⟨[], rfl, rfl⟩

/-- What was read says where the last token ends, if it is any. -/
theorem Steps.lastStop {s t : State} (h : Steps s t) :
    ∃ w, s.tokens = w ++ t.tokens ∧ t.lastStop = (stopOf? w).or s.lastStop := by
  induction h with
  | refl => exact ⟨[], rfl, rfl⟩
  | tail _ hstep ih =>
    obtain ⟨w, hw, hlast⟩ := ih
    obtain ⟨v, hv, hlast'⟩ := hstep.lastStop
    refine ⟨w ++ v, by rw [hw, hv, List.append_assoc], ?_⟩
    rw [hlast', hlast, stopOf?_append, Option.or_assoc]

/-! ### The judgment -/

/-- After the tokens `front` and from a token of a kind in `K`, what the parser returns and all
that was read with `front` are related. -/
def TakesAfter (front : List Token) (K : Kind → Prop) (Q : α → List Token → Prop)
    (p : Parse α) : Prop :=
  ∀ s, s.Ended → (front ≠ [] → s.lastStop = stopOf? front) → K s.kind →
    Outcome (fun a t => ∃ w, s.tokens = w ++ t.tokens ∧ Q a (front ++ w)) anyError (p s)

/-- Nothing was read before. -/
theorem Takes.of_after {K : Kind → Prop} {P : α → List Token → Prop} {p : Parse α}
    (h : TakesAfter [] K P p) : Takes K P p :=
  fun s hs hK => h s hs (fun hne => absurd rfl hne) hK

/-- A parser that makes steps reads something, be it nothing. -/
theorem Takes.of_runs {K : Kind → Prop} {p : Parse α} (h : Runs p) :
    Takes K (fun _ _ => True) p := by
  intro s _ _
  refine (h.returns .refl).mono fun a t hsteps => ?_
  obtain ⟨w, hw, -⟩ := hsteps.lastStop
  exact ⟨w, hw, trivial⟩

namespace TakesAfter

variable {front : List Token} {K : Kind → Prop} {P : α → List Token → Prop}
  {Q : β → List Token → Prop} {p : Parse α}

/-- What was read so far is all that is read. -/
theorem pure {b : β} (h : Q b front) : TakesAfter front K Q (pure b) := by
  intro s _ _ _
  exact ⟨[], rfl, by rwa [List.append_nil]⟩

theorem fail (error : State → CompileError) : TakesAfter front K Q (fail error) :=
  fun _ _ _ _ => trivial

theorem throw (e : CompileError) : TakesAfter front K Q (throw e) := fun _ _ _ _ => trivial

/-- What a part takes comes after what was read before it. -/
theorem bind {k : α → Parse β} (hp : Takes K P p) (hruns : Runs p)
    (hk : ∀ a w, P a w → TakesAfter (front ++ w) (fun _ => True) Q (k a)) :
    TakesAfter front K Q (p >>= k) := by
  intro s hs hfront hK
  rw [outcome_bind]
  have hsteps := hruns.returns (s := s) (t := s) .refl
  refine ((hp s hs hK).and hsteps).mono fun a t h => ?_
  obtain ⟨⟨w, hw, ha⟩, hsteps⟩ := h
  obtain ⟨w', hw', hlast⟩ := hsteps.lastStop
  obtain rfl : w = w' := List.append_cancel_right (hw.symm.trans hw')
  have hfront' : front ++ w ≠ [] → t.lastStop = stopOf? (front ++ w) := by
    intro hne
    rw [hlast, stopOf?_append]
    by_cases hnil : front = []
    · -- Then the stop of `w` is known, and the one before does not count.
      obtain ⟨stop, hstop⟩ := exists_stopOf? (w := w) (by simpa [hnil] using hne)
      rw [hstop]
      rfl
    · rw [hfront hnil]
  refine (hk a w ha t (hs.of_append hw) hfront' trivial).mono fun b u h => ?_
  obtain ⟨v, hv, hb⟩ := h
  exact ⟨w ++ v, by rw [hw, hv, List.append_assoc], by rwa [← List.append_assoc]⟩

/-- What comes first takes nothing. -/
theorem after {k : α → Parse β} (hp : Takes K (fun _ w => w = []) p) (hruns : Runs p)
    (hk : ∀ a, TakesAfter front (fun _ => True) Q (k a)) : TakesAfter front K Q (p >>= k) := by
  refine bind hp hruns fun a w hw => ?_
  rw [hw, List.append_nil]
  exact hk a

/-- A token of a kind that is asked for. -/
theorem expectDescribed {c : Kind} {expected : String} {k : Token → Parse β} (hc : c ≠ .eof)
    (hk : ∀ t : Token, t.kind = c → TakesAfter (front ++ [t]) (fun _ => True) Q (k t)) :
    TakesAfter front K Q (Parse.expectDescribed c expected >>= k) := by
  refine bind (.expectDescribed expected hc) (.expectDescribed c expected) fun t w h => ?_
  obtain ⟨rfl, hkind⟩ := h
  exact hk t hkind

/-- The token that is expected is the next one read. -/
theorem expect {c : Kind} {k : Token → Parse β} (hc : c ≠ .eof)
    (hk : ∀ t : Token, t.kind = c → TakesAfter (front ++ [t]) (fun _ => True) Q (k t)) :
    TakesAfter front K Q (Parse.expect c >>= k) :=
  expectDescribed hc hk

/-- Any token but the end of the input. -/
theorem advance {k : Token → Parse β} (h : ∀ c, K c → c ≠ .eof)
    (hk : ∀ t : Token, K t.kind → TakesAfter (front ++ [t]) (fun _ => True) Q (k t)) :
    TakesAfter front K Q (Parse.advance >>= k) := by
  refine bind (.advance h) .advance fun t w ht => ?_
  obtain ⟨rfl, hkind⟩ := ht
  exact hk t hkind

/-- A token may be there or not. -/
theorem accept {c : Kind} {k : Bool → Parse β} (hc : c ≠ .eof)
    (htrue : ∀ t : Token, t.kind = c → TakesAfter (front ++ [t]) (fun _ => True) Q (k true))
    (hfalse : TakesAfter front (fun _ => True) Q (k false)) :
    TakesAfter front K Q (Parse.accept c >>= k) := by
  refine bind (.accept hc) (.accept c) fun yes w h => ?_
  cases yes with
  | true =>
    obtain ⟨t, rfl, ht⟩ := h
    exact htrue t ht
  | false =>
    obtain rfl : w = [] := h
    rw [List.append_nil]
    exact hfalse

/-- A look at the kind of the next token says what it is from then on. -/
theorem kind {k : Kind → Parse β} (hk : ∀ c, TakesAfter front (· = c) Q (k c)) :
    TakesAfter front K Q (Parse.kind >>= k) :=
  fun s hs hfront _ => hk s.kind s hs hfront rfl

theorem get {k : State → Parse β} (hk : ∀ s, TakesAfter front K Q (k s)) :
    TakesAfter front K Q (get >>= k) :=
  fun s => hk s s

theorem ite {c : Prop} [Decidable c] {p q : Parse β} (hp : TakesAfter front K Q p)
    (hq : TakesAfter front K Q q) : TakesAfter front K Q (if c then p else q) := by
  split
  · exact hp
  · exact hq

/-- A change of the scope reads nothing. -/
theorem modifyScope {f : Scope → Scope} {k : Unit → Parse β}
    (hk : TakesAfter front (fun _ => True) Q (k ())) :
    TakesAfter front K Q (Parse.modifyScope f >>= k) :=
  after (.nothing fun _ => rfl) (.modifyScope f) fun _ => hk

/-- If anything is read, it begins at the position. -/
theorem position {k : Position → Parse β}
    (hk : ∀ start, TakesAfter [] K
      (fun b w => (w ≠ [] → startOf? w = some start) → Q b w) (k start)) :
    TakesAfter [] K Q (Parse.position >>= k) := by
  intro s hs hfront hK
  rw [outcome_bind, outcome_position]
  refine (hk s.current.span.start s hs hfront hK).mono fun b t h => ?_
  obtain ⟨w, hw, hb⟩ := h
  refine ⟨w, hw, hb fun hne => ?_⟩
  obtain ⟨x, v, rfl⟩ := List.exists_cons_of_ne_nil hne
  have hx : s.current = x := (List.cons.inj hw).1
  rw [hx, List.nil_append, startOf?_cons]

/-- A span ends where the last token ends. -/
theorem spanFrom {start stop : Position} {k : Span → Parse β} (hstop : stopOf? front = some stop)
    (hk : TakesAfter front K Q (k ⟨start, stop⟩)) :
    TakesAfter front K Q (Parse.spanFrom start >>= k) := by
  intro s hs hfront hK
  rw [outcome_bind, outcome_spanFrom, State.spanFrom, hfront (ne_nil_of_stopOf? hstop), hstop]
  exact hk s hs hfront hK

end TakesAfter

end ClassScript.Parse

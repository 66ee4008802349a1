import ClassScript.Proofs.Parse.Progress

/-!
# The grammar of types

`Takes` says what a parser has read if it returns, as a relation between its value and the
tokens. `Accepts` says what it reads for sure. The two meet in the grammar of types: a type
is read with `n` levels of nesting left exactly from the tokens that `TypeWithin n` allows.
-/

namespace ClassScript.Parse

variable {α β : Type}

/-! ### What a parser has read -/

/-- The end of the input stays behind what was read. -/
theorem State.Ended.of_append {s t : State} (h : s.Ended) {w : List Token}
    (htokens : s.tokens = w ++ t.tokens) : t.Ended := by
  rw [Ended, htokens, List.getLast?_append] at h
  exact h

/-- From a token of a kind in `K`, what the parser returns and what it has read are related. -/
def Takes (K : Kind → Prop) (P : α → List Token → Prop) (p : Parse α) : Prop :=
  ∀ s, s.Ended → K s.kind →
    Outcome (fun a t => ∃ w, s.tokens = w ++ t.tokens ∧ P a w) anyError (p s)

/-- Values and tokens, one after the other. -/
inductive Each (P : α → List Token → Prop) : List α → List Token → Prop
  | nil : Each P [] []
  | cons {a : α} {as : List α} {w ws : List Token} : P a w → Each P as ws →
      Each P (a :: as) (w ++ ws)

namespace Takes

variable {K : Kind → Prop} {P : α → List Token → Prop} {Q : β → List Token → Prop} {p : Parse α}

theorem pure {a : α} (h : P a []) : Takes K P (pure a) := fun _ _ _ => ⟨[], rfl, h⟩

theorem fail (error : State → CompileError) : Takes K P (fail error) := fun _ _ _ => trivial

theorem tooDeep : Takes K P tooDeep := fun _ _ _ => trivial

/-- A relation may be weakened. -/
theorem mono {R : α → List Token → Prop} (hp : Takes K P p) (h : ∀ a w, P a w → R a w) :
    Takes K R p := by
  intro s hs hK
  refine (hp s hs hK).mono fun a t ht => ?_
  obtain ⟨w, hw, ha⟩ := ht
  exact ⟨w, hw, h a w ha⟩

/-- What follows takes what is missing. -/
theorem bind {k : α → Parse β} (hp : Takes K P p)
    (hk : ∀ a w, P a w → Takes (fun _ => True) (fun b v => Q b (w ++ v)) (k a)) :
    Takes K Q (p >>= k) := by
  intro s hs hK
  rw [outcome_bind]
  refine (hp s hs hK).mono fun a t h => ?_
  obtain ⟨w, hw, ha⟩ := h
  refine (hk a w ha t (hs.of_append hw) trivial).mono fun b u h' => ?_
  obtain ⟨v, hv, hb⟩ := h'
  exact ⟨w ++ v, by rw [hw, hv, List.append_assoc], hb⟩

/-- What comes first takes nothing. -/
theorem after {k : α → Parse β} (hp : Takes K (fun _ w => w = []) p)
    (hk : ∀ a, Takes (fun _ => True) Q (k a)) : Takes K Q (p >>= k) := by
  refine hp.bind fun a w hw => ?_
  subst hw
  exact hk a

/-- A look at the kind of the next token says what it is from then on. -/
theorem kind {k : Kind → Parse β} (hk : ∀ c, Takes (· = c) Q (k c)) :
    Takes K Q (Parse.kind >>= k) :=
  fun s hs _ => hk s.kind s hs rfl

/-- A look at the state reads nothing. -/
theorem get {k : State → Parse β} (hk : ∀ s, Takes K Q (k s)) : Takes K Q (get >>= k) :=
  fun s => hk s s

/-- A parser that leaves the tokens alone. -/
theorem nothing (h : ∀ s, Outcome (fun _ t => t.tokens = s.tokens) anyError (p s)) :
    Takes K (fun _ w => w = []) p :=
  fun s _ _ => (h s).mono fun _ _ htokens => ⟨[], htokens.symm, rfl⟩

theorem position : Takes K (fun _ w => w = []) position := nothing fun _ => rfl

theorem spanFrom (start : Position) : Takes K (fun _ w => w = []) (spanFrom start) :=
  nothing fun _ => rfl

/-- To enter a level is no token. -/
theorem deepen : Takes K (fun _ w => w = []) deepen := by
  refine nothing fun s => ?_
  rw [outcome_deepen]
  exact ⟨fun _ => rfl, fun _ => trivial⟩

theorem surface (levels : Nat) : Takes K (fun _ w => w = []) (surface levels) :=
  nothing fun _ => rfl

/-- Any token but the end of the input. -/
theorem advance (h : ∀ c, K c → c ≠ .eof) :
    Takes K (fun t w => w = [t] ∧ K t.kind) advance := by
  intro s hs hK
  have hkind := h _ hK
  refine ⟨[s.current], ?_, rfl, hK⟩
  rw [(State.next_of_more hkind (hs.following_ne_nil hkind)).1]
  rfl

theorem expectDescribed {c : Kind} (expected : String) (hc : c ≠ .eof) :
    Takes K (fun t w => w = [t] ∧ t.kind = c) (expectDescribed c expected) := by
  intro s hs _
  rw [outcome_expectDescribed]
  refine ⟨fun hkind => ?_, fun _ => trivial⟩
  exact advance (K := (· = c)) (by rintro _ rfl; exact hc) s hs hkind

theorem expect {c : Kind} (hc : c ≠ .eof) :
    Takes K (fun t w => w = [t] ∧ t.kind = c) (expect c) :=
  expectDescribed c.describe hc

/-- The token is read or it is not there. -/
theorem accept {c : Kind} (hc : c ≠ .eof) :
    Takes K (fun b w => if b then ∃ t, w = [t] ∧ t.kind = c else w = []) (accept c) := by
  intro s hs _
  rw [outcome_accept]
  refine ⟨fun hkind => ?_, fun _ => ⟨[], rfl, rfl⟩⟩
  obtain ⟨w, hw, hone⟩ := advance (K := (· = c)) (by rintro _ rfl; exact hc) s hs hkind
  exact ⟨w, hw, s.current, hone⟩

/-- By induction on the tokens that are left. Each item is read from a token that starts one. -/
theorem many {more : State → Bool} {m : Kind → Bool} (hm : ∀ s, more s = m s.kind)
    (hp : Takes (m · = true) P p) : Takes K (Each P) (many more p) := by
  intro s hs hK
  clear hK
  have hround {s : State} (hs : s.Ended) (hmore : more s = true) :=
    hp s hs ((hm s).symm.trans hmore)
  fun_induction Parse.many more p s with
  | case1 => trivial
  | case2 => trivial
  | case3 s hmore a t hitem hlt as u hmany ih =>
    obtain ⟨w, hw, ha⟩ := (hround hs hmore).of_eq_ok hitem
    obtain ⟨ws, hws, has⟩ := (ih (hs.of_append hw)).of_eq_ok hmany
    exact ⟨w ++ ws, by rw [hw, hws, List.append_assoc], .cons ha has⟩
  | case4 s hmore a t hitem hlt =>
    obtain ⟨w, hw, ha⟩ := (hround hs hmore).of_eq_ok hitem
    exact ⟨w ++ [], by rw [hw, List.append_nil], .cons ha .nil⟩
  | case5 => exact ⟨[], rfl, .nil⟩

end Takes

/-- An expression of one token is spelled by it. -/
theorem takes_single {K : Kind → Prop} :
    Takes K (fun e w => ∃ t, w = [t] ∧ Single t e) primary := by
  intro s hs _
  unfold primary
  rw [outcome_bind, outcome_advance]
  cases he : primaryOf s.current with
  | error e => trivial
  | ok e =>
    have hsingle := single_of_primaryOf he
    obtain ⟨w, hw, rfl, -⟩ :=
      Takes.advance (K := (· ≠ .eof)) (fun _ h => h) s hs hsingle.kind_ne_eof
    exact ⟨_, hw, s.current, rfl, hsingle⟩

/-! ### The grammar -/

/-- Points and names after the text `start`, and the text that they make with it. -/
inductive Points : String → List Token → String → Prop
  | nil {start : String} : Points start [] start
  | cons {start text : String} {d n : Token} {ts : List Token} : d.kind = .dot →
      n.kind = .identifier → Points (start ++ "." ++ n.text) ts text →
      Points start (d :: n :: ts) text

/-- Names joined by points, and their text. -/
inductive NameTokens : String → List Token → Prop
  | mk {text : String} {n : Token} {ts : List Token} : n.kind = .identifier →
      Points n.text ts text → NameTokens text (n :: ts)

/-- Question marks and pairs of square brackets. -/
inductive Suffixes : List Token → Prop
  | nil : Suffixes []
  | nullable {t : Token} {ts : List Token} : t.kind = .question → Suffixes ts → Suffixes (t :: ts)
  | array {o c : Token} {ts : List Token} : o.kind = .openBracket → c.kind = .closeBracket →
      Suffixes ts → Suffixes (o :: c :: ts)

/-- One phrase, or more with commas between them. -/
inductive Separated (P : List Token → Prop) : List Token → Prop
  | one {w : List Token} : P w → Separated P w
  | more {w ws : List Token} {c : Token} : P w → c.kind = .comma → Separated P ws →
      Separated P (w ++ c :: ws)

/-- A name, arguments and suffixes. -/
def TypeOf (A V : List Token → Prop) (w : List Token) : Prop :=
  ∃ text d a v, w = d ++ a ++ v ∧ NameTokens text d ∧ A a ∧ V v

/-- Nothing, or phrases in angle brackets. -/
def Angled (P : List Token → Prop) (w : List Token) : Prop :=
  w = [] ∨ ∃ o ws c, w = o :: ws ++ [c] ∧ o.kind = .less ∧ P ws ∧ c.kind = .greater

/-- The type arguments that can be read with `n` levels of nesting left. -/
def ArgumentsWithin : Nat → List Token → Prop
  | 0 => fun _ => False
  | n + 1 => Angled (Separated (TypeOf (ArgumentsWithin n) Suffixes))

/-- The types that can be read with `n` levels of nesting left. -/
def TypeWithin (n : Nat) : List Token → Prop := TypeOf (ArgumentsWithin n) Suffixes

/-- A type and a name after it. -/
def Declares (A V : List Token → Prop) (ts : List Token) : Prop :=
  ∃ w x r, ts = w ++ x :: r ∧ TypeOf A V w ∧ x.kind = .identifier

/-! ### What is read as a type -/

/-- The items behind commas, after a first one. -/
theorem separated_of_each {P : α → List Token → Prop} {R : List Token → Prop}
    (hP : ∀ a w, P a w → R w) {as : List α} {ws w : List Token} (hw : R w)
    (h : Each (fun a w => ∃ c v, w = c :: v ∧ c.kind = .comma ∧ P a v) as ws) :
    Separated R (w ++ ws) := by
  induction h generalizing w with
  | nil => simpa using Separated.one hw
  | cons ha _ ih =>
    obtain ⟨c, v, rfl, hc, ha⟩ := ha
    exact .more hw hc (ih (hP _ _ ha))

/-- There is at least one item. -/
theorem takes_commaSeparated {K : Kind → Prop} {P : α → List Token → Prop}
    {R : List Token → Prop} (hP : ∀ a w, P a w → R w) {p : Parse α}
    (hp : ∀ {K : Kind → Prop}, Takes K P p) :
    Takes K (fun as w => as ≠ [] ∧ Separated R w) (commaSeparated p) := by
  have hother : Takes (fun c => decide (c = .comma) = true)
      (fun a w => ∃ c v, w = c :: v ∧ c.kind = .comma ∧ P a v) (advance >>= fun _ => p) := by
    refine (Takes.advance (by simp)).bind fun c w h => hp.mono fun a v ha => ?_
    obtain ⟨rfl, hc⟩ := h
    exact ⟨c, v, rfl, by simpa using hc, ha⟩
  refine hp.bind fun a w ha => (Takes.many (fun _ => rfl) hother).bind fun as ws has => .pure ?_
  refine ⟨by simp, ?_⟩
  rw [List.append_nil]
  exact separated_of_each hP (hP a w ha) has

/-- A dotted name has the text of its tokens. -/
theorem takes_dottedName {K : Kind → Prop} (expected : String) :
    Takes K NameTokens (dottedName expected) := by
  have hother : Takes (fun c => decide (c = .dot) = true)
      (fun n w => ∃ d, w = [d, n] ∧ d.kind = .dot ∧ n.kind = .identifier)
      (advance >>= fun _ => expect .identifier) := by
    refine (Takes.advance (by simp)).bind fun d w h => ?_
    obtain ⟨rfl, hd⟩ := h
    refine (Takes.expect (by decide)).mono fun n v hn => ?_
    obtain ⟨rfl, hn⟩ := hn
    exact ⟨d, rfl, by simpa using hd, hn⟩
  have hpoints (start : String) {ns : List Token} {ws : List Token}
      (h : Each (fun n w => ∃ d, w = [d, n] ∧ d.kind = .dot ∧ n.kind = .identifier) ns ws) :
      Points start ws (ns.foldl (fun name t => name ++ "." ++ t.text) start) := by
    induction h generalizing start with
    | nil => exact .nil
    | cons hn _ ih =>
      obtain ⟨d, rfl, hd, hn⟩ := hn
      exact .cons hd hn (ih _)
  refine (Takes.expectDescribed expected (by decide)).bind fun n w h => ?_
  obtain ⟨rfl, hn⟩ := h
  refine (Takes.many (fun _ => rfl) hother).bind fun ns ws hns => .pure ?_
  rw [List.append_nil]
  exact .mk hn (hpoints n.text hns)

/-- A suffix alone. -/
def SuffixTokens (w : List Token) : Prop :=
  (∃ t, w = [t] ∧ t.kind = .question) ∨
    ∃ o c, w = [o, c] ∧ o.kind = .openBracket ∧ c.kind = .closeBracket

theorem takes_typeSuffix {K : Kind → Prop} : Takes K (fun _ => SuffixTokens) typeSuffix := by
  refine .kind fun c => ?_
  split
  · rename_i hc
    refine (Takes.advance (by rintro _ rfl; simp [hc])).bind fun t w h => .pure ?_
    obtain ⟨rfl, ht⟩ := h
    exact .inl ⟨t, rfl, ht.trans hc⟩
  · refine (Takes.expect (by decide)).bind fun o w h => ?_
    obtain ⟨rfl, ho⟩ := h
    refine (Takes.expect (by decide)).bind fun c w h => .pure ?_
    obtain ⟨rfl, hc⟩ := h
    exact .inr ⟨o, c, rfl, ho, hc⟩

/-- Suffixes that were read one by one. -/
theorem suffixes_of_each {xs : List α} {w : List Token} (h : Each (fun _ => SuffixTokens) xs w) :
    Suffixes w ∧ (xs = [] ↔ w = []) := by
  induction h with
  | nil => exact ⟨.nil, by simp⟩
  | cons hx _ ih =>
    rcases hx with ⟨t, rfl, ht⟩ | ⟨o, c, rfl, ho, hc⟩
    · exact ⟨.nullable ht ih.1, by simp⟩
    · exact ⟨.array ho hc ih.1, by simp⟩

/-- Suffixes leave the arguments alone, and a type without marks has none. -/
theorem foldl_withSuffix (xs : List (TypeSuffix × Position)) (t : TypeRef) :
    (xs.foldl withSuffix t).arguments = t.arguments ∧
      (((xs.foldl withSuffix t).nullable = false ∧ (xs.foldl withSuffix t).isArray = false) ↔
        (t.nullable = false ∧ t.isArray = false) ∧ xs = []) := by
  induction xs generalizing t with
  | nil => simp
  | cons x xs ih =>
    obtain ⟨suffix, stop⟩ := x
    rw [List.foldl_cons]
    refine ⟨(ih _).1.trans (by cases suffix <;> rfl), ?_⟩
    rw [(ih _).2]
    cases suffix <;> simp [withSuffix]

/-- What is known of a type by its tokens: its name, and that it has type arguments or
suffixes if they have. -/
structure Typed (A : List Token → Prop) (type : TypeRef) (d a v : List Token) : Prop where
  name : NameTokens type.name d
  arguments : A a
  arguments_eq_nil : type.arguments = [] ↔ a = []
  suffixes : Suffixes v
  plain : (type.nullable = false ∧ type.isArray = false) ↔ v = []

theorem Typed.typeOf {A : List Token → Prop} {type : TypeRef} {d a v : List Token}
    (h : Typed A type d a v) : TypeOf A Suffixes (d ++ a ++ v) :=
  ⟨type.name, d, a, v, rfl, h.name, h.arguments, h.suffixes⟩

/-- A name and arguments, which nest one level less deep. -/
theorem takes_namedTypeOf {K : Kind → Prop} {n : Nat} {argument : Parse TypeRef}
    (h : ∀ {K : Kind → Prop}, Takes K (fun _ => TypeWithin n) argument) :
    Takes K (fun type w => (type.nullable = false ∧ type.isArray = false) ∧
        ∃ d a, w = d ++ a ∧ Typed (ArgumentsWithin (n + 1)) type d a [])
      (namedTypeOf argument) := by
  refine .after .position fun start => (takes_dottedName _).bind fun name d hd => ?_
  refine (Takes.accept (by decide)).bind fun more w hmore => ?_
  simp only [pure_bind]
  split
  · rename_i hyes
    rw [if_pos hyes] at hmore
    obtain ⟨o, rfl, ho⟩ := hmore
    refine (takes_commaSeparated (P := fun _ => TypeWithin n) (fun _ _ hw => hw) h).bind
      fun types ws htypes => ?_
    refine (Takes.expect (by decide)).bind fun c w hc => ?_
    refine (Takes.spanFrom start).bind fun span v hv => .pure ?_
    obtain ⟨rfl, hc⟩ := hc
    subst hv
    refine ⟨⟨rfl, rfl⟩, d, o :: ws ++ [c], by simp, hd, ?_, by simp [htypes.1], .nil, by simp⟩
    exact .inr ⟨o, ws, c, rfl, ho, htypes.2, hc⟩
  · rename_i hno
    rw [if_neg hno] at hmore
    refine (Takes.spanFrom start).bind fun span v hv => .pure ?_
    subst hmore hv
    exact ⟨⟨rfl, rfl⟩, d, [], by simp, hd, .inl rfl, by simp, .nil, by simp⟩

/-- What is read as a type is one. -/
theorem takes_typeWithin {K : Kind → Prop} (n : Nat) (power : Power) :
    Takes K (fun type w => ∃ d a v, w = d ++ a ++ v ∧ Typed (ArgumentsWithin n) type d a v)
      (typeWithin n power) := by
  induction n generalizing K power with
  | zero => exact .tooDeep
  | succ n ih =>
    have hargument {K : Kind → Prop} : Takes K (fun _ => TypeWithin n) (typeWithin n .default) := by
      refine (ih .default).mono fun type w h => ?_
      obtain ⟨d, a, v, rfl, htyped⟩ := h
      exact htyped.typeOf
    have hsuffix : Takes (fun c => ((c = .question || c = .openBracket) && power < .call) = true)
        (fun _ => SuffixTokens) typeSuffix := takes_typeSuffix
    unfold typeWithin
    refine .after .deepen fun _ => .kind fun c => ?_
    simp only [Parallel.fail_bind]
    split
    · exact .fail _
    · refine (takes_namedTypeOf hargument).bind fun type w htype => ?_
      obtain ⟨hplain, d, a, rfl, htyped⟩ := htype
      refine (Takes.many (fun _ => rfl) hsuffix).bind fun xs v hxs => ?_
      refine (Takes.surface 1).bind fun _ w hw => .pure ?_
      subst hw
      obtain ⟨hv, hnil⟩ := suffixes_of_each hxs
      obtain ⟨harguments, hflags⟩ := foldl_withSuffix xs type
      refine ⟨d, a, v, by simp, ?_, htyped.arguments, ?_, hv, ?_⟩
      · rw [foldl_withSuffix_name]
        exact htyped.name
      · rw [harguments]
        exact htyped.arguments_eq_nil
      · rw [hflags, ← hnil]
        exact and_iff_right hplain

/-! ### What can be read as a type -/

namespace State

variable {s : State} {x y : Token} {r : List Token}

theorem kind_of_tokens (h : s.tokens = x :: r) : s.kind = x.kind :=
  congrArg Token.kind (List.cons.inj h).1

/-- The step to the next token, where the next two are known. -/
theorem next_of_tokens (h : s.tokens = x :: y :: r) (hx : x.kind ≠ .eof) :
    s.next.tokens = y :: r := by
  have hfollowing : s.following = y :: r := (List.cons.inj h).2
  rw [(next_of_more (by rwa [kind_of_tokens h]) (by simp [hfollowing])).1, hfollowing]

/-- What was read makes the input shorter. -/
theorem remaining_of_tokens {t : State} {w : List Token} (hw : w ≠ [])
    (hs : s.tokens = w ++ x :: r) (ht : t.tokens = x :: r) : t.remaining < s.remaining := by
  have hlength := congrArg List.length hs
  have hlength' := congrArg List.length ht
  rw [length_tokens, List.length_append] at hlength
  rw [length_tokens] at hlength'
  have := List.length_pos_iff.2 hw
  omega

end State

/-- With `levels` levels of nesting left and before a token of a kind in `F`, the parser reads
exactly the tokens `w`. -/
def Accepts (levels : Nat) (F : Kind → Prop) (w : List Token) (p : Parse α) : Prop :=
  ∀ (s : State) (x : Token) (r : List Token), s.depth + levels ≤ nestingLimit →
    s.tokens = w ++ x :: r → F x.kind →
    Outcome (fun _ t => t.tokens = x :: r ∧ t.depth = s.depth) (fun _ _ => False) (p s)

/-- Before a token of a kind in `F`, the tokens begin with one of a kind in `G`. -/
def Meets (F G : Kind → Prop) (v : List Token) : Prop :=
  ∀ (x : Token) (r : List Token), F x.kind → ∃ x' r', v ++ x :: r = x' :: r' ∧ G x'.kind

section

variable {levels : Nat} {F G : Kind → Prop} {p : Parse α} {k : α → Parse β} {y : Token}
  {w v : List Token}

theorem meets_nil (h : ∀ c, F c → G c) : Meets F G [] := fun x r hx => ⟨x, r, rfl, h _ hx⟩

theorem meets_cons (h : G y.kind) : Meets F G (y :: v) := fun x r _ => ⟨y, v ++ x :: r, rfl, h⟩

theorem Accepts.pure (a : α) : Accepts levels F [] (pure a) := fun _ _ _ _ hs _ => ⟨hs, rfl⟩

/-- Fewer tokens may come next. -/
theorem Accepts.weaken (hp : Accepts levels G w p) (h : ∀ c, F c → G c) :
    Accepts levels F w p :=
  fun s x r hdepth hs hx => hp s x r hdepth hs (h _ hx)

/-- What the second part reads is what comes next for the first. -/
theorem Accepts.bind (hp : Accepts levels G w p) (hk : ∀ a, Accepts levels F v (k a))
    (hmeets : Meets F G v) : Accepts levels F (w ++ v) (p >>= k) := by
  intro s x r hdepth hs hx
  obtain ⟨x', r', hrest, hx'⟩ := hmeets x r hx
  rw [List.append_assoc, hrest] at hs
  rw [outcome_bind]
  refine (hp s x' r' hdepth hs hx').mono fun a t ht => ?_
  refine (hk a t x r (by rw [ht.2]; exact hdepth) (by rw [ht.1, hrest]) hx).mono fun b u hu => ?_
  exact ⟨hu.1, hu.2.trans ht.2⟩

/-- What comes first does not depend on what follows. -/
theorem Accepts.then (hp : Accepts levels (fun _ => True) w p)
    (hk : ∀ a, Accepts levels F v (k a)) : Accepts levels F (w ++ v) (p >>= k) := by
  refine hp.bind hk fun x r _ => ?_
  obtain ⟨x', r', h⟩ := List.exists_cons_of_ne_nil (show v ++ x :: r ≠ [] by simp)
  exact ⟨x', r', h, trivial⟩

/-- What follows reads nothing. -/
theorem Accepts.finish (hp : Accepts levels F w p) (hk : ∀ a, Accepts levels F [] (k a)) :
    Accepts levels F w (p >>= k) := by
  have h := hp.bind hk (meets_nil fun _ hc => hc)
  rwa [List.append_nil] at h

theorem Accepts.advance (hy : y.kind ≠ .eof) : Accepts levels F [y] advance := by
  intro s x r _ hs _
  rw [outcome_advance]
  exact ⟨State.next_of_tokens hs hy, State.next_depth s⟩

/-- The token is the one that is expected. -/
theorem Accepts.expectDescribed {c : Kind} (expected : String) (hy : y.kind = c) (hc : c ≠ .eof) :
    Accepts levels F [y] (expectDescribed c expected) := by
  intro s x r _ hs _
  have hkind : s.kind = c := (State.kind_of_tokens hs).trans hy
  rw [outcome_expectDescribed]
  exact ⟨fun _ => ⟨State.next_of_tokens hs (hy ▸ hc), State.next_depth s⟩, fun hne => hne hkind⟩

theorem Accepts.kind {k : Kind → Parse β} (hk : Accepts levels F (y :: w) (k y.kind)) :
    Accepts levels F (y :: w) (Parse.kind >>= k) := by
  intro s x r hdepth hs hx
  rw [outcome_bind, outcome_kind, State.kind_of_tokens hs]
  exact hk s x r hdepth hs hx

theorem Accepts.accept {c : Kind} {k : Bool → Parse β} (hy : y.kind = c) (hc : c ≠ .eof)
    (hk : Accepts levels F v (k true)) : Accepts levels F (y :: v) (accept c >>= k) := by
  intro s x r hdepth hs hx
  have hkind : s.kind = c := (State.kind_of_tokens hs).trans hy
  obtain ⟨x', r', hrest⟩ := List.exists_cons_of_ne_nil (show v ++ x :: r ≠ [] by simp)
  have hnext : s.next.tokens = v ++ x :: r := by
    rw [List.cons_append, hrest] at hs
    rw [State.next_of_tokens hs (hy ▸ hc), hrest]
  rw [outcome_bind, outcome_accept]
  refine ⟨fun _ => ?_, fun hne => absurd hkind hne⟩
  have hrun := hk s.next x r (by rwa [State.next_depth]) hnext hx
  rwa [State.next_depth] at hrun

/-- Another token is left where it is. -/
theorem Accepts.refuse {c : Kind} {k : Bool → Parse β} (hk : Accepts levels F v (k false))
    (hmeets : Meets F (· ≠ c) v) : Accepts levels F v (Parse.accept c >>= k) := by
  intro s x r hdepth hs hx
  obtain ⟨x', r', hrest, hx'⟩ := hmeets x r hx
  have hkind : s.kind ≠ c := by rwa [State.kind_of_tokens (hs.trans hrest)]
  rw [outcome_bind, outcome_accept]
  exact ⟨fun h => absurd h hkind, fun _ => hk s x r hdepth hs hx⟩

/-- A repetition ends before a token that starts no item. -/
theorem Accepts.many_nil {more : State → Bool} (hF : ∀ s : State, F s.kind → more s = false) :
    Accepts levels F [] (many more p) := by
  intro s x r _ hs hx
  have hmore := hF s (by rwa [State.kind_of_tokens hs])
  exact outcome_many_done hmore ⟨hs, rfl⟩

/-- It goes on at a token that starts one. -/
theorem Accepts.many_cons {more : State → Bool}
    (hmore : ∀ s : State, s.kind = y.kind → more s = true) (hp : Accepts levels G (y :: w) p)
    (hv : Accepts levels F v (many more p))
    (hmeets : Meets F G v) : Accepts levels F (y :: w ++ v) (many more p) := by
  intro s x r hdepth hs hx
  obtain ⟨x', r', hrest, hx'⟩ := hmeets x r hx
  rw [List.append_assoc, hrest] at hs
  refine outcome_many_round (hmore s (State.kind_of_tokens hs)) ?_
  refine (hp s x' r' hdepth hs hx').mono fun a t ht => ?_
  refine ⟨State.remaining_of_tokens (by simp) hs ht.1, ?_⟩
  refine (hv t x r (by rw [ht.2]; exact hdepth) (by rw [ht.1, hrest]) hx).mono fun as u hu => ?_
  exact ⟨hu.1, hu.2.trans ht.2⟩

/-- By induction on the points. -/
theorem accepts_points {start text : String} {ts : List Token} (h : Points start ts text) :
    Accepts levels (· ≠ .dot) ts
      (many (·.kind = .dot) (do let _ ← advance; expect .identifier)) := by
  induction h with
  | nil => exact .many_nil fun s hs => by simpa using hs
  | @cons _ _ d n ts hd hn h ih =>
    have hitem : Accepts levels (fun _ => True) ([d] ++ [n])
        (do let _ ← advance; expect .identifier) :=
      .then (.advance (by simp [hd])) fun _ => .expectDescribed _ hn (by decide)
    refine .many_cons (w := [n]) (fun s hs => by simp [hs, hd]) hitem ih ?_
    cases h with
    | nil => exact meets_nil fun _ _ => trivial
    | cons => exact meets_cons trivial

/-- A dotted name is read whole, if no point comes next. -/
theorem accepts_dottedName {text expected : String} {d : List Token} (h : NameTokens text d) :
    Accepts levels (· ≠ .dot) d (dottedName expected) := by
  obtain ⟨hn, hpoints⟩ := h
  refine .then (w := [_]) (.expectDescribed expected hn (by decide)) fun _ => ?_
  exact (accepts_points hpoints).finish fun _ => .pure _

section

variable {P : List Token → Prop} (hp : ∀ w, P w → Accepts levels F w p) (hcomma : F .comma)

include hp hcomma

/-- By induction on the items behind commas. -/
theorem accepts_others {c : Token} (hc : c.kind = .comma) {ws : List Token} (h : Separated P ws) :
    Accepts levels (fun x => F x ∧ x ≠ .comma) (c :: ws)
      (many (·.kind = .comma) (do let _ ← advance; p)) := by
  have hitem {c : Token} (hc : c.kind = .comma) {w : List Token} (hw : P w) :
      Accepts levels F ([c] ++ w) (do let _ ← advance; p) :=
    .then (.advance (by simp [hc])) fun _ => hp w hw
  have hdone : Accepts levels (fun x => F x ∧ x ≠ .comma) []
      (many (·.kind = .comma) (do let _ ← advance; p)) :=
    .many_nil fun s hs => by simpa using hs.2
  induction h generalizing c with
  | @one w hw =>
    rw [← List.append_nil (c :: w)]
    exact .many_cons (fun s hs => by simp [hs, hc]) (hitem hc hw) hdone (meets_nil fun _ hx => hx.1)
  | @more w ws c' hw hc' _ ih =>
    exact .many_cons (fun s hs => by simp [hs, hc]) (hitem hc hw) (ih hc')
      (meets_cons (by rw [hc']; exact hcomma))

/-- A list is read whole, if no comma comes next. -/
theorem accepts_commaSeparated {ws : List Token} (h : Separated P ws) :
    Accepts levels (fun x => F x ∧ x ≠ .comma) ws (commaSeparated p) := by
  cases h with
  | one hw =>
    refine ((hp _ hw).weaken fun _ hx => hx.1).finish fun _ => ?_
    exact (Accepts.many_nil fun s hs => by simpa using hs.2).finish fun _ => .pure _
  | @more w ws c hw hc h =>
    refine .bind (hp w hw) (fun _ => ?_) (meets_cons (by rw [hc]; exact hcomma))
    exact (accepts_others hp hcomma hc h).finish fun _ => .pure _

end

theorem accepts_typeSuffix (h : SuffixTokens w) : Accepts levels (fun _ => True) w typeSuffix := by
  rcases h with ⟨t, rfl, ht⟩ | ⟨o, c, rfl, ho, hc⟩
  · refine .kind ?_
    rw [if_pos ht]
    exact (Accepts.advance (by simp [ht])).finish fun _ => .pure _
  · refine .kind ?_
    rw [if_neg (by simp [ho])]
    refine .then (w := [o]) (.expectDescribed _ ho (by decide)) fun _ => ?_
    exact (Accepts.expectDescribed _ hc (by decide)).finish fun _ => .pure _

/-- All suffixes of a type are read, whatever their order is. -/
theorem accepts_suffixes (h : Suffixes v) :
    Accepts levels (fun c => c ≠ .question ∧ c ≠ .openBracket) v
      (many (fun s => startsSuffix s && Power.default < .call) typeSuffix) := by
  have hmeets (v : List Token) :
      Meets (fun c => c ≠ .question ∧ c ≠ .openBracket) (fun _ => True) v := by
    cases v with
    | nil => exact meets_nil fun _ _ => trivial
    | cons => exact meets_cons trivial
  have hpower : Power.default < Power.call := by decide
  induction h with
  | nil => exact .many_nil fun s hs => by simp [startsSuffix, hs]
  | @nullable t ts ht _ ih =>
    exact .many_cons (fun s hs => by simp [startsSuffix, hs, ht, hpower])
      (accepts_typeSuffix (.inl ⟨t, rfl, ht⟩)) ih (hmeets ts)
  | @array o c ts ho hc _ ih =>
    exact .many_cons (fun s hs => by simp [startsSuffix, hs, ho, hpower])
      (accepts_typeSuffix (.inr ⟨o, c, rfl, ho, hc⟩)) ih (hmeets ts)

/-- The kinds that no type goes on with. -/
def TypeEnds (c : Kind) : Prop := c ∉ [.dot, .less, .question, .openBracket]

theorem Accepts.position : Accepts levels F [] position := fun _ _ _ _ hs _ => ⟨hs, rfl⟩

theorem Accepts.spanFrom (start : Position) : Accepts levels F [] (spanFrom start) :=
  fun _ _ _ _ hs _ => ⟨hs, rfl⟩

/-- A name and arguments are read whole, if they can nest that deep. -/
theorem accepts_namedTypeOf {n : Nat} {argument : Parse TypeRef}
    (hargument : ∀ w, TypeWithin n w → Accepts levels TypeEnds w argument) {text : String}
    {d a : List Token} (hd : NameTokens text d) (ha : ArgumentsWithin (n + 1) a) :
    Accepts levels (fun c => c ≠ .dot ∧ c ≠ .less) (d ++ a) (namedTypeOf argument) := by
  refine .then (w := []) .position fun start => ?_
  simp only [pure_bind]
  rcases ha with rfl | ⟨o, ws, c, rfl, ho, hws, hc⟩
  · refine .bind (accepts_dottedName hd) (fun name => ?_) (meets_nil fun _ hc => hc.1)
    refine .refuse ?_ (meets_nil fun _ hc => hc.2)
    exact (Accepts.spanFrom start).finish fun _ => .pure _
  · refine .bind (accepts_dottedName hd) (fun name => ?_) (meets_cons (by simp [ho]))
    refine .accept ho (by decide) ?_
    refine .bind (accepts_commaSeparated hargument (by simp [TypeEnds]) hws) (fun types => ?_)
      (meets_cons (by simp [TypeEnds, hc]))
    refine (Accepts.expectDescribed _ hc (by decide)).finish fun _ => ?_
    exact (Accepts.spanFrom start).finish fun _ => .pure _

/-- What is a type is read as one. -/
theorem accepts_typeWithin (n : Nat) (h : TypeWithin n w) :
    Accepts n TypeEnds w (typeWithin n .default) := by
  induction n generalizing w with
  | zero =>
    obtain ⟨_, _, _, _, _, _, ha, _⟩ := h
    exact ha.elim
  | succ n ih =>
    obtain ⟨text, d, a, v, rfl, hd, ha, hv⟩ := h
    have hnamed : Accepts n (fun c => c ≠ .dot ∧ c ≠ .less) (d ++ a)
        (namedTypeOf (typeWithin n .default)) := accepts_namedTypeOf (fun w hw => ih hw) hd ha
    have hsuffixes : Accepts n (fun c => c ≠ .question ∧ c ≠ .openBracket) v
        (many (fun s => startsSuffix s && Power.default < .call) typeSuffix) := accepts_suffixes hv
    have hmeets : Meets TypeEnds (fun c => c ≠ .dot ∧ c ≠ .less) v := by
      cases hv with
      | nil =>
        refine meets_nil fun c hc => ?_
        simp only [TypeEnds, List.mem_cons, not_or] at hc
        exact ⟨hc.1, hc.2.1⟩
      | nullable ht => exact meets_cons (by simp [ht])
      | array ho => exact meets_cons (by simp [ho])
    intro s x r hdepth hs hx
    have hends : x.kind ≠ .question ∧ x.kind ≠ .openBracket := by
      simp only [TypeEnds, List.mem_cons, not_or] at hx
      exact ⟨hx.2.2.1, hx.2.2.2.1⟩
    obtain ⟨x', r', hrest, hx'⟩ := hmeets x r hx
    have hkind : s.kind = .identifier := by
      obtain ⟨hn, _⟩ := hd
      exact (State.kind_of_tokens hs).trans hn
    rw [List.append_assoc, hrest] at hs
    unfold typeWithin
    rw [outcome_bind, outcome_deepen]
    refine ⟨fun _ => ?_, fun hlimit => by omega⟩
    have hkind₀ : ({ s with depth := s.depth + 1 } : State).kind = .identifier := hkind
    have htokens₀ : ({ s with depth := s.depth + 1 } : State).tokens = d ++ a ++ x' :: r' := hs
    have hdepth₀ : ({ s with depth := s.depth + 1 } : State).depth = s.depth + 1 := rfl
    generalize ({ s with depth := s.depth + 1 } : State) = s₀ at hkind₀ htokens₀ hdepth₀ ⊢
    rw [outcome_bind, outcome_kind]
    simp only [Parallel.fail_bind]
    rw [if_neg (not_not_intro hkind₀), outcome_bind]
    refine (hnamed s₀ x' r' (by omega) htokens₀ hx').mono fun named t ht => ?_
    obtain ⟨htokens₁, hdepth₁⟩ := ht
    rw [outcome_bind]
    refine (hsuffixes t x r (by omega) (htokens₁.trans hrest.symm) hends).mono fun xs u hu => ?_
    obtain ⟨htokens₂, hdepth₂⟩ := hu
    rw [outcome_bind, outcome_surface]
    exact ⟨htokens₂, by simp only; omega⟩

end

/-- The types that are read before a name are those of the grammar. -/
theorem typeRef_before_name {s : State} (hs : s.Ended) :
    (∃ type t, typeRef .default s = .ok type t ∧ t.kind = .identifier) ↔
      Declares (ArgumentsWithin s.budget) Suffixes s.tokens := by
  constructor
  · rintro ⟨type, t, hrun, hkind⟩
    obtain ⟨w, hw, d, a, v, rfl, htyped⟩ :=
      (takes_typeWithin (K := fun _ => True) s.budget .default s hs trivial).of_eq_ok hrun
    exact ⟨_, t.current, t.following, hw, htyped.typeOf, hkind⟩
  · rintro ⟨w, x, r, hw, htype, hkind⟩
    by_cases hdepth : s.depth ≤ nestingLimit
    · have hread := accepts_typeWithin s.budget htype s x r (by unfold State.budget; omega) hw
        (by simp [TypeEnds, hkind])
      obtain ⟨type, t, hrun, ht⟩ := hread.exists_ok
      exact ⟨type, t, hrun, (State.kind_of_tokens ht.1).trans hkind⟩
    · have hbudget : s.budget = 0 := by unfold State.budget; omega
      rw [hbudget] at htype
      obtain ⟨_, _, _, _, _, _, ha, _⟩ := htype
      exact ha.elim

end ClassScript.Parse

import ClassScript.Proofs.Parse.TypeGrammar

/-!
# The scan of a class body

Before the members of a class are read, `domMembersIn` looks through the tokens of its body
for names that stand after the name of an element type. It knows no grammar: it counts braces
and parentheses, and looks at two tokens at a time.

What it does to the tokens that a parser has read depends on where they stand. `Neutral C w`
says that it passes over `w` wherever `C` holds. An expression is passed over unless a name
comes next (`Passed`), a statement or a parameter is passed over inside of braces or
parentheses (`Enclosed`), and what ends with a bracket or a semicolon is passed over
everywhere (`Sealed`). Only the bodies of accessors, which are skipped unread, can leave
parentheses open (`Shifts`). With this the scan is followed along the members of a class.
-/

namespace ClassScript

/-- The kinds of tokens that the scan of a class body takes no notice of. -/
def Kind.isInert : Kind → Bool
  | .openCurly | .closeCurly | .openParen | .closeParen | .eof | .identifier => false
  | _ => true

namespace Parse

variable {α β : Type}

/-! ### Parentheses -/

/-- The open parentheses after a token, if `n` are open before it. -/
def parensAfter (n : Nat) : Kind → Nat
  | .openParen => n + 1
  | .closeParen => n - 1
  | _ => n

/-- The open parentheses after some tokens, if `n` are open before them. -/
def parensAfterAll (n : Nat) (ts : List Token) : Nat :=
  ts.foldl (fun n t => parensAfter n t.kind) n

@[simp] theorem parensAfterAll_nil (n : Nat) : parensAfterAll n [] = n := rfl

@[simp] theorem parensAfterAll_cons (n : Nat) (t : Token) (ts : List Token) :
    parensAfterAll n (t :: ts) = parensAfterAll (parensAfter n t.kind) ts := rfl

@[simp] theorem parensAfterAll_append (n : Nat) (ts us : List Token) :
    parensAfterAll n (ts ++ us) = parensAfterAll (parensAfterAll n ts) us :=
  List.foldl_append

theorem ne_eof_of_isInert {k : Kind} (h : k.isInert = true) : k ≠ .eof := by
  rintro rfl
  cases h

theorem parensAfter_eq_self (n : Nat) {k : Kind} (h : k.isInert = true) : parensAfter n k = n := by
  cases k <;> first | rfl | cases h

/-! ### The scan, token by token -/

section

variable {t : Token} {ts w v : List Token} {b n : Nat}

/-- The scan takes no notice of most kinds of tokens. -/
theorem domMembersIn_inert (h : t.kind.isInert = true) :
    domMembersIn b n (t :: ts) = domMembersIn b n ts := by
  rw [domMembersIn]
  split <;> rename_i hkind <;> first | rfl | (rw [hkind] at h; cases h)

/-- A name is looked at outside of all brackets only. -/
theorem domMembersIn_name (h : t.kind = .identifier) :
    domMembersIn b n (t :: ts) =
      (if b = 0 ∧ n = 0 ∧ Dom.isElement t.text then (declaredName? ts).toList else []) ++
        domMembersIn b n ts := by
  simp only [domMembersIn, h]
  split <;> rfl

/-- Parentheses are counted wherever they stand. -/
theorem domMembersIn_openParen (h : t.kind = .openParen) :
    domMembersIn b n (t :: ts) = domMembersIn b (n + 1) ts := by
  rw [domMembersIn, h]

theorem domMembersIn_closeParen (h : t.kind = .closeParen) :
    domMembersIn b n (t :: ts) = domMembersIn b (n - 1) ts := by
  rw [domMembersIn, h]

theorem domMembersIn_openCurly (h : t.kind = .openCurly) :
    domMembersIn b n (t :: ts) = domMembersIn (b + 1) n ts := by
  rw [domMembersIn, h]

/-- A brace that closes what is open inside of the class. -/
theorem domMembersIn_closeCurly (h : t.kind = .closeCurly) :
    domMembersIn (b + 1) n (t :: ts) = domMembersIn b n ts := by
  rw [domMembersIn, h]
  rfl

theorem declaredName?_eq_none (h : startsWithName ts = false) : declaredName? ts = none := by
  cases ts with
  | nil => rfl
  | cons t ts => simp_all [startsWithName, declaredName?]

/-- The first token decides, which is one of the second part if the first is empty. -/
theorem startsWithName_append (hw : startsWithName w = false) (hv : startsWithName v = false) :
    startsWithName (w ++ v) = false := by
  cases w with
  | nil => exact hv
  | cons t w => exact hw

/-! ### What the scan passes over -/

/-- Where `C` holds of the open braces, of the open parentheses and of what comes next, the
scan passes over `w`, whose parentheses match. -/
structure Neutral (C : Nat → Nat → List Token → Prop) (w : List Token) : Prop where
  level (n : Nat) : parensAfterAll n w = n
  passes {b n : Nat} {rest : List Token} : C b n rest →
    domMembersIn b n (w ++ rest) = domMembersIn b n rest

/-- The scan passes over `w` everywhere. -/
abbrev Sealed (w : List Token) : Prop := Neutral (fun _ _ _ => True) w

/-- The scan passes over `w`, but outside of all brackets only if no name comes next. -/
abbrev Passed (w : List Token) : Prop :=
  Neutral (fun b n rest => b + n = 0 → startsWithName rest = false) w

/-- The scan passes over `w` inside of braces or parentheses. -/
abbrev Enclosed (w : List Token) : Prop := Neutral (fun b n _ => b + n ≠ 0) w

/-- Two parts, where the second one is what comes next for the first. -/
theorem Neutral.append {C D E : Nat → Nat → List Token → Prop} (hw : Neutral C w)
    (hv : Neutral D v) (h : ∀ b n rest, E b n rest → C b n (v ++ rest) ∧ D b n rest) :
    Neutral E (w ++ v) where
  level n := by rw [parensAfterAll_append, hw.level, hv.level]
  passes hE := by
    rw [List.append_assoc, hw.passes (h _ _ _ hE).1, hv.passes (h _ _ _ hE).2]

theorem Neutral.nil {C : Nat → Nat → List Token → Prop} : Neutral C [] :=
  ⟨fun _ => rfl, fun _ => rfl⟩

/-- A token that is not looked at changes nothing. -/
theorem Neutral.cons {C : Nat → Nat → List Token → Prop} (h : t.kind.isInert = true)
    (hw : Neutral C w) : Neutral C (t :: w) where
  level n := by rw [parensAfterAll_cons, parensAfter_eq_self n h, hw.level]
  passes hC := by rw [List.cons_append, domMembersIn_inert h, hw.passes hC]

theorem Sealed.neutral {C : Nat → Nat → List Token → Prop} (hw : Sealed w) : Neutral C w :=
  ⟨hw.level, fun _ => hw.passes trivial⟩

/-- Inside of brackets it does not matter whether a name comes next. -/
theorem Passed.enclosed (hw : Passed w) : Enclosed w :=
  ⟨hw.level, fun h => hw.passes fun h' => absurd h' h⟩

theorem Enclosed.append (hw : Enclosed w) (hv : Enclosed v) : Enclosed (w ++ v) :=
  Neutral.append hw hv fun _ _ _ h => ⟨h, h⟩

/-- What is passed over everywhere asks nothing of what comes next. -/
theorem Sealed.append {C : Nat → Nat → List Token → Prop} (hw : Sealed w) (hv : Neutral C v) :
    Neutral C (w ++ v) :=
  Neutral.append hw hv fun _ _ _ h => ⟨trivial, h⟩

theorem sealed_token (h : t.kind.isInert = true) : Sealed [t] := Neutral.nil.cons h

/-- Alone, a name declares nothing. -/
theorem passed_name (h : t.kind = .identifier) : Passed [t] where
  level n := by simp [parensAfter, h]
  passes hrest := by
    rw [List.singleton_append, domMembersIn_name h]
    split
    · rename_i hzero
      rw [declaredName?_eq_none (hrest (by omega))]
      rfl
    · rfl

/-- The scan passes over `w`, also right after something else that it passes over unless a name
comes next. -/
structure Continued (w : List Token) : Prop where
  passed : Passed w
  other : startsWithName w = false

/-- The second part must not begin with a name, since the first may end with one. -/
theorem Passed.append (hw : Passed w) (hv : Continued v) : Passed (w ++ v) :=
  Neutral.append hw hv.passed fun _ _ _ h =>
    ⟨fun houter => startsWithName_append hv.other (h houter), h⟩

theorem Continued.nil : Continued [] := ⟨.nil, rfl⟩

theorem Continued.append (hw : Continued w) (hv : Continued v) : Continued (w ++ v) :=
  ⟨hw.passed.append hv, startsWithName_append hw.other hv.other⟩

/-- An operator before an operand. -/
theorem Passed.cons (h : t.kind.isInert = true) (hw : Passed w) : Continued (t :: w) where
  passed := Neutral.cons h hw
  other := by
    cases hkind : t.kind <;> simp_all [startsWithName, Kind.isInert]

/-- What comes after a name seals it off, if it is no name. -/
theorem Passed.seal (hw : Passed w) (hv : Sealed v) (hother : startsWithName v = false)
    (hne : v ≠ []) : Sealed (w ++ v) := by
  refine Neutral.append hw hv fun _ _ rest _ => ⟨fun _ => ?_, trivial⟩
  cases v with
  | nil => exact absurd rfl hne
  | cons t v => exact hother

/-- The token that ends a phrase seals it off. -/
theorem Passed.stop (hw : Passed w) (h : t.kind.isInert = true) : Sealed (w ++ [t]) :=
  hw.seal (sealed_token h) (Passed.cons h .nil).other (by simp)

/-- Between parentheses no member is declared. -/
theorem Enclosed.parens {o c : Token} (hw : Enclosed w) (ho : o.kind = .openParen)
    (hc : c.kind = .closeParen) : Sealed (o :: w ++ [c]) where
  level n := by simp [parensAfter, ho, hc, hw.level]
  passes {b n rest} _ := by
    rw [List.cons_append, List.cons_append, List.append_assoc, domMembersIn_openParen ho,
      hw.passes (by omega), List.singleton_append, domMembersIn_closeParen hc,
      Nat.add_sub_cancel]

/-- Between braces no member is declared. -/
theorem Enclosed.braces {o c : Token} (hw : Enclosed w) (ho : o.kind = .openCurly)
    (hc : c.kind = .closeCurly) : Sealed (o :: w ++ [c]) where
  level n := by simp [parensAfter, ho, hc, hw.level]
  passes {b n rest} _ := by
    rw [List.cons_append, List.cons_append, List.append_assoc, domMembersIn_openCurly ho,
      hw.passes (by omega), List.singleton_append, domMembersIn_closeCurly hc]

/-! ### Types -/

/-- Suffixes are made of brackets and question marks. -/
theorem sealed_suffixes (h : Suffixes v) : Sealed v ∧ startsWithName v = false := by
  induction h with
  | nil => exact ⟨.nil, rfl⟩
  | nullable ht _ ih => exact ⟨ih.1.cons (by rw [ht]; rfl), by simp [startsWithName, ht]⟩
  | array ho hc _ ih =>
    exact ⟨(ih.1.cons (by rw [hc]; rfl)).cons (by rw [ho]; rfl), by simp [startsWithName, ho]⟩

/-- A name behind a point goes on with another point. -/
theorem continued_points {start text : String} (h : Points start ts text) : Continued ts := by
  induction h with
  | nil => exact .nil
  | cons hd hn _ ih => exact ((passed_name hn).append ih).cons (by rw [hd]; rfl)

/-- A name may be that of an element type, so a name must not follow. -/
theorem passed_nameTokens {text : String} (h : NameTokens text ts) : Passed ts := by
  cases h with
  | mk hn hpoints => exact (passed_name hn).append (continued_points hpoints)

/-- By induction on the parts, with a comma between any two. -/
theorem passed_separated {P : List Token → Prop} (hP : ∀ w, P w → Passed w)
    (h : Separated P ts) : Passed ts := by
  induction h with
  | one hw => exact hP _ hw
  | more hw hc _ ih => exact (hP _ hw).append (ih.cons (by rw [hc]; rfl))

/-- A type ends with its name if it has neither arguments nor suffixes. -/
theorem passed_typeOf {A : List Token → Prop} (hA : ∀ a, A a → Sealed a ∧ startsWithName a = false)
    (h : TypeOf A Suffixes ts) : Passed ts := by
  obtain ⟨text, d, a, v, rfl, hd, ha, hv⟩ := h
  obtain ⟨ha, hother⟩ := hA a ha
  obtain ⟨hv, hother'⟩ := sealed_suffixes hv
  exact ((passed_nameTokens hd).append ⟨ha.neutral, hother⟩).append ⟨hv.neutral, hother'⟩

/-- By induction on the levels. Inside, a type is followed by a comma or by a bracket. -/
theorem sealed_argumentsWithin (levels : Nat) (h : ArgumentsWithin levels ts) :
    Sealed ts ∧ startsWithName ts = false := by
  induction levels generalizing ts with
  | zero => exact h.elim
  | succ levels ih =>
    rcases h with rfl | ⟨o, ws, c, rfl, ho, hws, hc⟩
    · exact ⟨.nil, rfl⟩
    · have hws := passed_separated (fun w => passed_typeOf fun a => ih) hws
      refine ⟨?_, by simp [startsWithName, ho]⟩
      exact (hws.stop (by rw [hc]; rfl)).cons (by rw [ho]; rfl)

/-- A type that was read, with its name, arguments and suffixes apart. -/
theorem takes_typeRef {K : Kind → Prop} (power : Power) :
    Takes K (fun type w => ∃ levels d a v, w = d ++ a ++ v ∧
      Typed (ArgumentsWithin levels) type d a v) (typeRef power) :=
  fun s hs hK => (takes_typeWithin s.budget power s hs hK).mono fun _ _ h =>
    h.imp fun _ h => ⟨h.1, s.budget, h.2⟩

theorem takes_typeRef_passed {K : Kind → Prop} (power : Power) :
    Takes K (fun _ => Passed) (typeRef power) := by
  refine (takes_typeRef power).mono fun type w h => ?_
  obtain ⟨levels, d, a, v, rfl, htyped⟩ := h
  exact passed_typeOf (fun a => sealed_argumentsWithin levels) htyped.typeOf

end

/-! ### Expressions -/

theorem passed_inert {t : Token} (h : t.kind.isInert = true) : Passed [t] :=
  (sealed_token h).neutral

/-- An expression of one token is a name or is not looked at. -/
theorem passed_of_single {t : Token} {e : Expr} (h : Single t e) : Passed [t] := by
  cases h with
  | identifier hkind => exact passed_name hkind
  | string hkind => rcases hkind with hkind | hkind <;> exact passed_inert (by rw [hkind]; rfl)
  | @boolean value hkind => cases value <;> exact passed_inert (by rw [hkind]; rfl)
  | number hkind | null hkind | this hkind | base hkind => exact passed_inert (by rw [hkind]; rfl)

theorem takes_primary {K : Kind → Prop} : Takes K (fun _ => Passed) primary := by
  refine takes_single.mono fun e w h => ?_
  obtain ⟨t, rfl, hsingle⟩ := h
  exact passed_of_single hsingle

/-- A token is taken that the scan does not look at. -/
theorem takes_inert {K : Kind → Prop} (hK : ∀ c, K c → c.isInert = true) :
    Takes K (fun t w => w = [t] ∧ t.kind.isInert = true) advance :=
  (Takes.advance fun c hc => ne_eof_of_isInert (hK c hc)).mono fun _ _ ht => ⟨ht.1, hK _ ht.2⟩

/-- Items in a list are passed over inside of its parentheses. -/
theorem takes_commaList {K : Kind → Prop} {stop : Kind} {item : Parse α}
    (h : Takes (fun _ => True) (fun _ => Enclosed) item) :
    Takes K (fun _ => Enclosed) (commaList stop item) := by
  intro s hs hK
  clear hK
  have hnext {t : State} (ht : t.Ended) (hcomma : t.kind = .comma) :
      ∃ c, t.tokens = c :: t.next.tokens ∧ Enclosed [c] := by
    have hadvance := Takes.advance (K := (· = .comma)) (by rintro _ rfl; decide) t ht hcomma
    obtain ⟨w, hw, rfl, hkind⟩ := hadvance
    exact ⟨t.current, hw, (sealed_token (by rw [hkind]; rfl)).neutral⟩
  fun_induction commaList stop item s with
  | case1 s hstop => exact ⟨[], rfl, .nil⟩
  | case2 | case3 => trivial
  | case4 s hstop a t hitem hcomma hlt as u hrest ih =>
    obtain ⟨w, hw, hitem⟩ := (h s hs trivial).of_eq_ok hitem
    obtain ⟨c, hc, henclosed⟩ := hnext (hs.of_append hw) hcomma
    obtain ⟨ws, hws, hothers⟩ := (ih (hs.of_append hw).next).of_eq_ok hrest
    refine ⟨w ++ ([c] ++ ws), ?_, hitem.append (henclosed.append hothers)⟩
    rw [hw, hc, hws]
    simp
  | case5 s hstop a t hitem hcomma hlt =>
    obtain ⟨w, hw, hitem⟩ := (h s hs trivial).of_eq_ok hitem
    obtain ⟨c, hc, henclosed⟩ := hnext (hs.of_append hw) hcomma
    refine ⟨w ++ [c], ?_, hitem.append henclosed⟩
    rw [hw, hc]
    simp
  | case6 s hstop a t hitem hcomma =>
    obtain ⟨w, hw, hitem⟩ := (h s hs trivial).of_eq_ok hitem
    exact ⟨w, hw, hitem⟩

section

variable {K : Kind → Prop} {operand : Operand}
  (h : ∀ (power : Power) {K : Kind → Prop}, Takes K (fun _ => Passed) (operand power))

include h

/-- Parentheses end with one. -/
theorem takes_grouping :
    Takes K (fun _ w => Sealed w ∧ startsWithName w = false) (grouping operand) := by
  refine (Takes.expect (by decide)).bind fun o _ ho => (h .default).bind fun e w hw => ?_
  refine (Takes.expect (by decide)).bind fun c _ hc => .pure ?_
  obtain ⟨rfl, ho⟩ := ho
  obtain ⟨rfl, hc⟩ := hc
  exact ⟨by simpa using hw.enclosed.parens ho hc, by simp [startsWithName, ho]⟩

/-- Arguments end with one too. -/
theorem takes_arguments :
    Takes K (fun _ w => Sealed w ∧ startsWithName w = false) (arguments operand) := by
  refine (Takes.expect (by decide)).bind fun o _ ho => ?_
  refine (takes_commaList ((h .default).mono fun _ _ hw => hw.enclosed)).bind fun es w hw => ?_
  refine (Takes.expectDescribed _ (by decide)).bind fun c _ hc => .pure ?_
  obtain ⟨rfl, ho⟩ := ho
  obtain ⟨rfl, hc⟩ := hc
  exact ⟨by simpa using hw.parens ho hc, by simp [startsWithName, ho]⟩

/-- An operator before its operand. -/
theorem takes_prefixed (hK : ∀ c, K c → c.isInert = true) :
    Takes K (fun _ => Passed) (prefixed operand) := by
  refine (takes_inert hK).bind fun t _ ht => (h .unary).bind fun e w hw => .pure ?_
  obtain ⟨rfl, ht⟩ := ht
  simpa using (hw.cons ht).passed

/-- A type between `new` and a parenthesis. -/
theorem takes_creation : Takes K (fun _ => Passed) (creation operand) := by
  refine (Takes.expect (by decide)).bind fun t _ ht => ?_
  refine (takes_typeRef_passed .default).bind fun type w hw => ?_
  refine (takes_arguments h).bind fun es v hv => (Takes.spanFrom _).bind fun _ _ hnil => .pure ?_
  obtain ⟨rfl, ht⟩ := ht
  subst hnil
  simpa using ((hw.append ⟨hv.1.neutral, hv.2⟩).cons (by rw [ht]; rfl)).passed

theorem takes_beginning : Takes K (fun _ => Passed) (beginning operand) := by
  refine .kind fun c => ?_
  split
  iterate 9 exact takes_primary
  iterate 2 exact takes_prefixed h (by rintro _ rfl; rfl)
  · exact (takes_grouping h).mono fun _ _ hw => hw.1.neutral
  · exact takes_creation h
  · exact .fail _

omit h in
/-- The operator of an assignment is not looked at. -/
theorem takes_assigning (left : Expr) (hK : ∀ c, K c → c.isInert = true) :
    Takes K (fun t w => w = [t] ∧ t.kind.isInert = true) (assigning left) := by
  refine (takes_inert hK).bind fun t _ ht => ?_
  obtain ⟨rfl, ht⟩ := ht
  split
  · exact .pure ⟨rfl, ht⟩
  · exact fun _ _ _ => trivial

theorem takes_assignment (left : Expr) (hK : ∀ c, K c → c.isInert = true) :
    Takes K (fun _ => Continued) (assignment operand left) := by
  refine (takes_assigning left hK).bind fun t _ ht => (h .default).bind fun e w hw => .pure ?_
  obtain ⟨rfl, ht⟩ := ht
  simpa using hw.cons ht

omit h in
theorem takes_update (left : Expr) (hK : ∀ c, K c → c.isInert = true) :
    Takes K (fun _ => Continued) (update left) := by
  refine (takes_assigning left hK).bind fun t _ ht => .pure ?_
  obtain ⟨rfl, ht⟩ := ht
  exact Passed.cons ht .nil

theorem takes_coalesce (left : Expr) : Takes K (fun _ => Continued) (coalesce operand left) := by
  refine (Takes.expect (by decide)).bind fun t _ ht => (h .assignment).bind fun e w hw => .pure ?_
  obtain ⟨rfl, ht⟩ := ht
  simpa using hw.cons (by rw [ht]; rfl)

omit h in
theorem isInert_of_binaryOp? {c : Kind} {op : BinaryOp} (h : c.binaryOp? = some op) :
    c.isInert = true := by
  cases c <;> first | rfl | cases h

/-- An operator and its right operand, after the left one. -/
theorem takes_binary (left : Expr) (power : Power) :
    Takes K (fun _ => Continued) (binary operand left power) := by
  refine .kind fun c => ?_
  split
  · exact .fail _
  · rename_i op hop
    have hinert : ∀ k, k = c → k.isInert = true := fun _ hk => hk ▸ isInert_of_binaryOp? hop
    refine (takes_inert hinert).bind fun t _ ht => (h power).bind fun e w hw => .pure ?_
    obtain ⟨rfl, ht⟩ := ht
    simpa using hw.cons ht

theorem takes_call (left : Expr) : Takes K (fun _ => Continued) (call operand left) := by
  refine .get fun s => (takes_arguments h).bind fun es w hw => ?_
  refine (Takes.spanFrom _).bind fun _ _ hnil => ?_
  subst hnil
  split
  · exact .pure (by simpa using ⟨hw.1.neutral, hw.2⟩)
  · exact fun _ _ _ => trivial

omit h in
/-- A point and a name after what has the member. -/
theorem takes_member (left : Expr) : Takes K (fun _ => Continued) (member left) := by
  refine (Takes.expect (by decide)).bind fun d _ hd => ?_
  refine (Takes.expectDescribed _ (by decide)).bind fun n _ hn => ?_
  obtain ⟨rfl, hd⟩ := hd
  obtain ⟨rfl, hn⟩ := hn
  refine fun s _ _ => ⟨[], rfl, ?_⟩
  exact (passed_name hn).cons (by rw [hd]; rfl)

/-- Square brackets are not looked at. -/
theorem takes_index (left : Expr) : Takes K (fun _ => Continued) (index operand left) := by
  refine (Takes.expect (by decide)).bind fun o _ ho => (h .default).bind fun e w hw => ?_
  refine (Takes.expect (by decide)).bind fun c _ hc => ?_
  refine (Takes.spanFrom _).bind fun _ _ hnil => .pure ?_
  obtain ⟨rfl, ho⟩ := ho
  obtain ⟨rfl, hc⟩ := hc
  subst hnil
  have hsealed := hw.stop (by rw [hc]; rfl)
  simpa using Passed.cons (by rw [ho]; rfl) hsealed.neutral

/-- No form that continues an expression begins with a name. -/
theorem takes_continuation (left : Expr) (power : Power) :
    Takes K (fun _ => Continued) (continuation operand left power) := by
  refine .kind fun c => ?_
  split
  iterate 5 exact takes_assignment h left (by rintro _ rfl; rfl)
  · exact takes_coalesce h left
  · exact takes_call h left
  iterate 2 exact takes_update left (by rintro _ rfl; rfl)
  · exact takes_member left
  · exact takes_index h left
  · exact takes_binary h left power

end

/-- The first part of an expression may be a name, and no other one begins with a name. -/
theorem takes_exprWithin_climb (budget : Nat) :
    (∀ (power : Power) {K : Kind → Prop}, Takes K (fun _ => Passed) (exprWithin budget power)) ∧
      ∀ (power : Power) (left : Expr) {K : Kind → Prop},
        Takes K (fun _ => Continued) (climb budget power left) := by
  induction budget with
  | zero =>
    refine ⟨fun power K => by rw [exprWithin]; exact .tooDeep, fun power left K => ?_⟩
    rw [climb]
    refine .kind fun c => ?_
    split
    · exact .pure .nil
    · split
      · exact .tooDeep
      · exact .pure .nil
  | succ budget ih =>
    obtain ⟨hoperand, hclimb⟩ := ih
    refine ⟨fun power K => ?_, fun power left K => ?_⟩
    · rw [exprWithin]
      refine .after .deepen fun _ => (takes_beginning hoperand).bind fun left w hw => ?_
      refine (hclimb power left).bind fun e v hv => (Takes.surface 1).bind fun _ _ hnil => .pure ?_
      subst hnil
      simpa using hw.append hv
    · rw [climb]
      refine .kind fun c => ?_
      split
      · exact .pure .nil
      · split
        · refine .after .deepen fun _ => (takes_continuation hoperand left _).bind fun e w hw => ?_
          refine (hclimb power e).bind fun e' v hv => (Takes.surface 1).bind fun _ _ hnil => ?_
          subst hnil
          exact .pure (by simpa using hw.append hv)
        · exact .pure .nil

theorem takes_expr (power : Power) {K : Kind → Prop} : Takes K (fun _ => Passed) (expr power) :=
  fun s => (takes_exprWithin_climb s.budget).1 power s

/-! ### Statements and parameters -/

/-- What the parser reads is passed over inside of braces or parentheses. -/
def Interior (p : Parse α) : Prop := ∀ K : Kind → Prop, Takes K (fun _ => Enclosed) p

/-- What is read one after another. -/
theorem enclosed_of_each {as : List α} {w : List Token} (h : Each (fun _ => Enclosed) as w) :
    Enclosed w := by
  induction h with
  | nil => exact .nil
  | cons hw _ ih => exact hw.append ih

namespace Interior

variable {p q : Parse α} {k : α → Parse β}

theorem pure (a : α) : Interior (pure a) := fun _ => .pure .nil

theorem tooDeep : Interior (tooDeep (α := α)) := fun _ => .tooDeep

/-- Inside of brackets the parts of a sequence are passed over one by one. -/
theorem bind (hp : Interior p) (hk : ∀ a, Interior (k a)) : Interior (p >>= k) :=
  fun K => (hp K).bind fun a _ hw => (hk a _).mono fun _ _ hv => hw.append hv

/-- What comes first reads nothing. -/
theorem after (hp : ∀ K : Kind → Prop, Takes K (fun _ w => w = []) p) (hk : ∀ a, Interior (k a)) :
    Interior (p >>= k) :=
  fun K => (hp K).after fun a => hk a _

theorem get {k : State → Parse β} (hk : ∀ s, Interior (k s)) : Interior (get >>= k) :=
  fun _ => .get fun s => hk s _

theorem kind {k : Kind → Parse β} (hk : ∀ c, Interior (k c)) : Interior (Parse.kind >>= k) :=
  fun _ => .kind fun c => hk c _

theorem ite {c : Prop} [Decidable c] (hp : Interior p) (hq : Interior q) :
    Interior (if c then p else q) := by
  split
  · exact hp
  · exact hq

/-- An expression is passed over inside of brackets, whatever comes next. -/
theorem ofPassed (h : ∀ K : Kind → Prop, Takes K (fun _ => Passed) p) : Interior p :=
  fun K => (h K).mono fun _ _ hw => hw.enclosed

/-- Tokens that are not looked at. -/
theorem expect {c : Kind} (hc : c.isInert = true) : Interior (expect c) := by
  refine fun K => (Takes.expect (ne_eof_of_isInert hc)).mono fun t w ht => ?_
  obtain ⟨rfl, ht⟩ := ht
  exact (sealed_token (by rw [ht]; exact hc)).neutral

/-- A name inside of brackets is not looked at. -/
theorem name (expected : String) : Interior (expectDescribed .identifier expected) := by
  refine fun K => (Takes.expectDescribed expected (by decide)).mono fun t w ht => ?_
  obtain ⟨rfl, ht⟩ := ht
  exact (passed_name ht).enclosed

theorem accept {c : Kind} (hc : c.isInert = true) : Interior (accept c) := by
  refine fun K => (Takes.accept (ne_eof_of_isInert hc)).mono fun b w hw => ?_
  cases b with
  | false => exact hw ▸ .nil
  | true =>
    obtain ⟨t, rfl, ht⟩ := hw
    exact (sealed_token (by rw [ht]; exact hc)).neutral

/-- A repetition inside of braces. -/
theorem braced (hp : Interior p) : Interior (many beforeCloseCurly p) :=
  fun _ => (Takes.many (m := fun c => c ≠ .eof && c ≠ .closeCurly) (fun _ => rfl) (hp _)).mono
    fun _ _ h => enclosed_of_each h

theorem spanFrom (start : Position) : Interior (spanFrom start) :=
  fun _ => (Takes.spanFrom start).mono fun _ _ hw => hw ▸ .nil

theorem modifyScope (f : Scope → Scope) : Interior (modifyScope f) :=
  fun _ _ _ _ => ⟨[], rfl, .nil⟩

end Interior

theorem interior_typeRef (power : Power) : Interior (typeRef power) :=
  .ofPassed fun _ => takes_typeRef_passed power

theorem interior_expr (power : Power) : Interior (expr power) := .ofPassed fun _ => takes_expr power

theorem interior_initialValue : Interior initialValue :=
  (Interior.accept rfl).bind fun _ =>
    .ite ((interior_expr _).bind fun _ => .pure _) (.pure _)

theorem interior_expressionStmt : Interior expressionStmt :=
  (interior_expr _).bind fun _ => (Interior.expect rfl).bind fun _ =>
    (Interior.spanFrom _).bind fun _ => .pure _

/-- A local is declared by a type and a name, as a field is, but inside of braces. -/
theorem interior_localStmt : Interior localStmt := by
  refine .after (fun _ => .position) fun _ => (interior_typeRef _).bind fun _ => ?_
  refine (Interior.name _).bind fun _ => interior_initialValue.bind fun _ => ?_
  refine (Interior.expect rfl).bind fun _ => (Interior.modifyScope _).bind fun _ => ?_
  exact (Interior.spanFrom _).bind fun _ => .pure _

theorem interior_plainStmt : Interior plainStmt :=
  .get fun _ => .ite interior_localStmt interior_expressionStmt

theorem interior_returnStmt : Interior returnStmt := by
  have hrest (value : Option Expr) (start : Position) :
      Interior (do let _ ← expect .semicolon; return Stmt.return value (← spanFrom start)) :=
    (Interior.expect rfl).bind fun _ => (Interior.spanFrom _).bind fun _ => .pure _
  refine (Interior.expect rfl).bind fun _ => .kind fun _ => ?_
  simp only [pure_bind, bind_map_left]
  exact .ite (hrest none _) ((interior_expr _).bind fun e => hrest (some e) _)

/-- A condition stands in parentheses. -/
theorem interior_condition : Interior condition :=
  fun _ => (takes_grouping fun power _ => takes_expr power).mono fun _ _ hw => hw.1.neutral

section

variable {K : Kind → Prop} {item : Parse Stmt} (h : Interior item)

include h

/-- A block ends with its brace. -/
theorem takes_blockOf :
    Takes K (fun _ w => Sealed w ∧ startsWithName w = false) (blockOf item) := by
  refine (Takes.expect (by decide)).bind fun o _ ho => ?_
  refine (h.braced _).bind fun body w hw => ?_
  refine (Takes.expect (by decide)).bind fun c _ hc => ?_
  refine (Takes.spanFrom _).bind fun _ _ hnil => .pure ?_
  obtain ⟨rfl, ho⟩ := ho
  obtain ⟨rfl, hc⟩ := hc
  subst hnil
  exact ⟨by simpa using hw.braces ho hc, by simp [startsWithName, ho]⟩

/-- Given what holds of the statements inside. -/
theorem interior_ifStmt : Interior (ifStmt item) := by
  refine (Interior.expect rfl).bind fun _ => interior_condition.bind fun _ => h.bind fun _ => ?_
  refine (Interior.accept rfl).bind fun _ => .ite (h.bind fun _ => ?_) ?_
  · exact (Interior.spanFrom _).bind fun _ => .pure _
  · exact (Interior.spanFrom _).bind fun _ => .pure _

theorem interior_whileStmt : Interior (whileStmt item) :=
  (Interior.expect rfl).bind fun _ => interior_condition.bind fun _ => h.bind fun _ =>
    (Interior.spanFrom _).bind fun _ => .pure _

omit h in
/-- The last part of the head of a loop, with the parenthesis that closes it. -/
theorem takes_optionalBefore {stop : Kind} (hstop : stop ≠ .eof) :
    Takes K (fun _ w => ∃ v c, w = v ++ [c] ∧ Passed v ∧ c.kind = stop) (optionalBefore stop) := by
  refine .kind fun c => ?_
  split
  · refine (takes_expr .default).bind fun _ v hv => ?_
    refine (Takes.expect hstop).bind fun t _ ht => .pure ?_
    obtain ⟨rfl, ht⟩ := ht
    exact ⟨v, t, by simp, hv, ht⟩
  · refine (Takes.expect hstop).bind fun t _ ht => .pure ?_
    obtain ⟨rfl, ht⟩ := ht
    exact ⟨[], t, by simp, .nil, ht⟩

theorem interior_forStmt : Interior (forStmt item) := by
  have hparts (start : Position) : Takes (fun _ => True)
      (fun (_ : Stmt) w => ∃ u c v, w = u ++ [c] ++ v ∧ Enclosed u ∧ c.kind = .closeParen ∧
        Enclosed v) (do
      optionalBefore .semicolon
      optionalBefore .closeParen
      let _ ← item
      return Stmt.unsupported .forLoop (← spanFrom start)) := by
    refine (takes_optionalBefore (by decide)).bind fun _ _ hw => ?_
    refine (takes_optionalBefore (by decide)).bind fun _ _ hw' => (h _).bind fun _ v hv => ?_
    refine (Takes.spanFrom _).bind fun _ _ hnil => .pure ?_
    obtain ⟨u, t, rfl, hu, ht⟩ := hw
    obtain ⟨u', c, rfl, hu', hc⟩ := hw'
    subst hnil
    refine ⟨u ++ [t] ++ u', c, v, by simp, ?_, hc, hv⟩
    exact Enclosed.append (hu.stop (by rw [ht]; rfl)).neutral hu'.enclosed
  intro K
  refine (Interior.expect rfl K).bind fun _ w hw => (Takes.expect (by decide)).bind fun o _ ho => ?_
  obtain ⟨rfl, ho⟩ := ho
  -- The parenthesis at the end of the head closes the one at hand.
  have hhead {u v : List Token} {c : Token} (hu : Enclosed u) (hc : c.kind = .closeParen)
      (hv : Enclosed v) : Enclosed (w ++ (o :: u ++ [c] ++ v)) :=
    hw.append (Enclosed.append (hu.parens ho hc).neutral hv)
  refine (Interior.accept rfl _).bind fun more u hu => ?_
  split
  · refine (interior_plainStmt _).bind fun _ u' hu' => (hparts _).mono fun _ _ hrest => ?_
    obtain ⟨x, c, v, rfl, hx, hc, hv⟩ := hrest
    simpa using hhead (hu.append (hu'.append hx)) hc hv
  · refine (hparts _).mono fun _ _ hrest => ?_
    obtain ⟨x, c, v, rfl, hx, hc, hv⟩ := hrest
    simpa using hhead (hu.append hx) hc hv

/-- Every form of a statement. -/
theorem interior_stmtOf : Interior (stmtOf item) := by
  refine .kind fun c => ?_
  split
  · exact interior_returnStmt
  · exact interior_ifStmt h
  · exact interior_whileStmt h
  · exact interior_forStmt h
  · refine .bind (fun _ => (takes_blockOf h).mono fun _ _ hw => hw.1.neutral) fun _ => .pure _
  · exact interior_plainStmt

end

/-- By induction on the depth that is left. -/
theorem interior_stmtWithin (budget : Nat) : Interior (stmtWithin budget) := by
  induction budget with
  | zero => exact .tooDeep
  | succ budget ih =>
    refine .after (fun _ => .deepen) fun _ => (interior_stmtOf ih).bind fun _ => ?_
    exact .after (fun _ => .surface 1) fun _ => .pure _

theorem takes_block {K : Kind → Prop} :
    Takes K (fun _ w => Sealed w ∧ startsWithName w = false) block :=
  takes_blockOf (.get fun s => interior_stmtWithin s.budget)

/-- A parameter is a type and a name inside of parentheses. -/
theorem interior_parameter : Interior parameter := by
  refine .after (fun _ => .position) fun _ => (interior_typeRef _).bind fun _ => ?_
  refine (Interior.name _).bind fun _ => interior_initialValue.bind fun _ => ?_
  exact (Interior.modifyScope _).bind fun _ => (Interior.spanFrom _).bind fun _ => .pure _

/-- Parameters begin and end with a parenthesis. -/
theorem takes_parameters {K : Kind → Prop} :
    Takes K (fun _ w => Sealed w ∧ ∃ o v, w = o :: v ∧ o.kind = .openParen) parameters := by
  refine (Takes.expect (by decide)).bind fun o _ ho => ?_
  refine (takes_commaList (interior_parameter _)).bind fun ps w hw => ?_
  refine (Takes.expectDescribed _ (by decide)).bind fun c _ hc => .pure ?_
  obtain ⟨rfl, ho⟩ := ho
  obtain ⟨rfl, hc⟩ := hc
  exact ⟨by simpa using hw.parens ho hc, o, w ++ [c], by simp, ho⟩

end Parse

end ClassScript

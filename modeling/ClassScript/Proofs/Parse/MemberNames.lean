import ClassScript.Proofs.Parse.MemberScan
import ClassScript.Proofs.Parse.WellRead

/-!
# The scan along the members of a class

`takes_classMember` follows the scan of a class body along the tokens of one member. It finds
the name of a field or property if the name of an element type stands right before it, which
is so exactly if the type has neither type arguments nor suffixes and its last name is that of
an element type (`TypeRef.endsWithElement`). The bodies of accessors are skipped by the parser
with a look at their braces only, so there, and only there, parentheses need not match.
-/

namespace ClassScript

/-- The last of the names that points join. -/
def unqualified (name : String) : String :=
  .ofList ((name.toList.splitOn '.').getLast?.getD [])

/-- Does the type end with the name of an element type? Only then the scan of a class body can
see that a member of this type holds an element. -/
def TypeRef.endsWithElement (t : TypeRef) : Bool :=
  Dom.isElement (unqualified t.name) && t.arguments.isEmpty && !t.isArray && !t.nullable

/-- The type and the name of a field or property. -/
def Member.typed? : Member → Option (TypeRef × String)
  | .field f => some (f.type, f.name)
  | .property p => some (p.type, p.name)
  | _ => none

/-- The name of a field or property whose type satisfies `p`. -/
def Member.nameIf (p : TypeRef → Bool) (m : Member) : Option String :=
  (m.typed?.filter (p ·.1)).map Prod.snd

/-- The names of the fields and properties whose type has the name of an element type. -/
def ClassDecl.elementNames (c : ClassDecl) : List String :=
  c.members.filterMap (Member.nameIf fun type => Dom.isElement type.name)

namespace Parse

variable {α β : Type} {w v ts : List Token} {t : Token}

/-! ### What leaves parentheses open -/

/-- The scan passes over `w` everywhere, and counts its parentheses. -/
def Shifts (w : List Token) : Prop :=
  ∀ b n rest, domMembersIn b n (w ++ rest) = domMembersIn b (parensAfterAll n w) rest

/-- The scan passes over `w` inside of braces, and counts its parentheses. -/
def Inside (w : List Token) : Prop :=
  ∀ b n rest, domMembersIn (b + 1) n (w ++ rest) = domMembersIn (b + 1) (parensAfterAll n w) rest

/-- What the scan passes over everywhere, with matching parentheses. -/
theorem Sealed.shifts (h : Sealed w) : Shifts w := fun _ _ _ => by
  rw [h.level, h.passes trivial]

/-- The same inside of braces. -/
theorem Enclosed.inside (h : Enclosed w) : Inside w := fun _ _ _ => by
  rw [h.level, h.passes (by omega)]

theorem Shifts.inside (h : Shifts w) : Inside w := fun b => h (b + 1)

theorem Shifts.append (hw : Shifts w) (hv : Shifts v) : Shifts (w ++ v) := fun b n rest => by
  rw [List.append_assoc, hw, hv, parensAfterAll_append]

theorem Inside.append (hw : Inside w) (hv : Inside v) : Inside (w ++ v) := fun b n rest => by
  rw [List.append_assoc, hw, hv, parensAfterAll_append]

/-- The scan leaves out what stands between braces. -/
theorem Inside.braces {o c : Token} (hw : Inside w) (ho : o.kind = .openCurly)
    (hc : c.kind = .closeCurly) : Shifts (o :: w ++ [c]) := fun b n rest => by
  rw [List.cons_append, List.cons_append, List.append_assoc, domMembersIn_openCurly ho, hw,
    List.singleton_append, domMembersIn_closeCurly hc]
  simp [parensAfter, ho, hc]

/-- Accessors one after another. -/
theorem inside_of_each {as : List α} (h : Each (fun _ => Inside) as w) : Inside w := by
  induction h with
  | nil => exact fun _ _ _ => rfl
  | cons hw _ ih => exact hw.append ih

/-- Inside of braces the scan only counts. -/
theorem domMembersIn_inside {b n : Nat} (hopen : t.kind ≠ .openCurly)
    (hclose : t.kind ≠ .closeCurly) (heof : t.kind ≠ .eof) :
    domMembersIn (b + 1) n (t :: ts) = domMembersIn (b + 1) (parensAfter n t.kind) ts := by
  by_cases hinert : t.kind.isInert = true
  · rw [domMembersIn_inert hinert, parensAfter_eq_self n hinert]
  · cases hkind : t.kind <;> simp_all [Kind.isInert, parensAfter, domMembersIn]

/-- Where all open braces are closed, the parentheses are counted on the way. -/
theorem domMembersIn_closeBraces {depth : Nat} {s t : State} (hdepth : depth ≠ 0)
    (h : closeBraces depth s = (t, true)) :
    ∃ w, s.tokens = w ++ t.tokens ∧ ∀ b n rest,
      domMembersIn (b + depth) n (w ++ rest) = domMembersIn b (parensAfterAll n w) rest := by
  have htokens {s : State} (hmore : s.next.remaining < s.remaining) :
      s.tokens = s.current :: s.next.tokens := by
    obtain ⟨heof, hfollowing⟩ := State.more_of_remaining_lt hmore
    rw [(State.next_of_more heof hfollowing).1]
    rfl
  fun_induction closeBraces depth s with
  | case1 depth s hmore hkind ih =>
    obtain ⟨w, hw, hscan⟩ := ih (by omega) h
    refine ⟨s.current :: w, by rw [htokens hmore, hw, List.cons_append], fun b n rest => ?_⟩
    rw [List.cons_append, domMembersIn_openCurly hkind, Nat.add_assoc, hscan, parensAfterAll_cons,
      show s.current.kind = .openCurly from hkind]
    rfl
  | case2 s hmore hkind =>
    cases h
    refine ⟨[s.current], htokens hmore, fun b n rest => ?_⟩
    rw [List.singleton_append, domMembersIn_closeCurly hkind, parensAfterAll_cons,
      show s.current.kind = .closeCurly from hkind]
    rfl
  | case3 depth s hmore hkind hone ih =>
    obtain ⟨w, hw, hscan⟩ := ih (by omega) h
    refine ⟨s.current :: w, by rw [htokens hmore, hw, List.cons_append], fun b n rest => ?_⟩
    obtain ⟨k, rfl⟩ : ∃ k, depth = k + 1 := ⟨depth - 1, by omega⟩
    rw [Nat.add_sub_cancel] at hscan
    rw [List.cons_append, ← Nat.add_assoc, domMembersIn_closeCurly hkind, hscan,
      parensAfterAll_cons, show s.current.kind = .closeCurly from hkind]
    rfl
  | case4 depth s hmore hopen hclose ih =>
    obtain ⟨w, hw, hscan⟩ := ih hdepth h
    refine ⟨s.current :: w, by rw [htokens hmore, hw, List.cons_append], fun b n rest => ?_⟩
    obtain ⟨k, rfl⟩ : ∃ k, depth = k + 1 := ⟨depth - 1, by omega⟩
    have heof := (State.more_of_remaining_lt hmore).1
    rw [List.cons_append, ← Nat.add_assoc, domMembersIn_inside hopen hclose heof, Nat.add_assoc,
      hscan, parensAfterAll_cons]
  | case5 => cases h

/-- The braces match in what the parser skips, but the parentheses need not. -/
theorem takes_skipBraced {K : Kind → Prop} : Takes K (fun _ => Shifts) skipBraced := by
  intro s hs _
  rw [run_skipBraced]
  by_cases hopen : s.kind = .openCurly
  · rw [if_pos hopen]
    have hfirst := Takes.advance (K := (· = .openCurly)) (by simp) s hs hopen
    obtain ⟨_, htokens, rfl, -⟩ := hfirst
    split
    · rename_i hclosed
      obtain ⟨w, hw, hscan⟩ := domMembersIn_closeBraces (s := s.next) Nat.one_ne_zero
        (Prod.ext rfl hclosed)
      refine ⟨s.current :: w, by rw [htokens, hw]; rfl, fun b n rest => ?_⟩
      rw [List.cons_append, domMembersIn_openCurly hopen, hscan, parensAfterAll_cons,
        show s.current.kind = .openCurly from hopen]
      rfl
    · trivial
  · rw [if_neg hopen]
    trivial

/-! ### Members -/

theorem isInert_of_isModifier {c : Kind} (h : c.isModifier = true) : c.isInert = true := by
  cases c <;> first | rfl | cases h

/-- Modifiers are no names of element types. -/
theorem takes_modifiers {K : Kind → Prop} : Takes K (fun _ => Sealed) modifiers := by
  have hmark : Takes (fun c => c.isModifier = true) (fun _ => Sealed) advance := by
    refine (takes_inert fun _ => isInert_of_isModifier).mono fun t w h => ?_
    obtain ⟨rfl, ht⟩ := h
    exact sealed_token ht
  refine (Takes.many (fun _ => rfl) hmark).bind fun marks w h => .pure ?_
  rw [List.append_nil]
  induction h with
  | nil => exact .nil
  | cons hw _ ih => exact hw.append ih

/-- The body of an accessor is skipped by the parser too. -/
theorem takes_accessorBody {K : Kind → Prop} : Takes K (fun _ => Shifts) accessorBody := by
  refine .kind fun c => ?_
  split
  · refine (Takes.advance (by simp)).bind fun t _ ht => .pure ?_
    obtain ⟨rfl, ht⟩ := ht
    exact (sealed_token (by rw [ht]; rfl)).shifts
  · exact takes_skipBraced
  · refine (Takes.advance (by simp)).bind fun t _ ht => (takes_expr .default).bind fun _ w hw => ?_
    refine (Takes.expect (by decide)).bind fun c _ hc => .pure ?_
    obtain ⟨rfl, ht⟩ := ht
    obtain ⟨rfl, hc⟩ := hc
    have hsealed := (hw.stop (by rw [hc]; rfl)).cons (by rw [ht]; rfl)
    simpa using Sealed.shifts hsealed
  · exact .fail _

theorem takes_accessor {K : Kind → Prop} : Takes K (fun _ => Inside) accessor := by
  refine takes_modifiers.bind fun m w hw => ?_
  intro s hs _
  rw [outcome_bind, outcome_get]
  cases hwhich : accessorOf? s.current with
  | none => trivial
  | some which =>
    have hrest : Takes (· = .identifier) (fun _ v => Inside (w ++ v)) (do
        let _ ← advance
        accessorBody
        return which) := by
      refine (Takes.advance (by simp)).bind fun t _ ht => takes_accessorBody.bind fun _ v hv => ?_
      obtain ⟨rfl, ht⟩ := ht
      refine .pure ?_
      simpa using hw.shifts.inside.append ((passed_name ht).enclosed.inside.append hv.inside)
    exact hrest s hs (kind_of_accessorOf? hwhich)

/-- The scan passes over a first value behind its equals sign. -/
theorem takes_initialValue {K : Kind → Prop} :
    Takes K (fun value w => (value = none ∧ w = []) ∨
      ∃ e t v, value = some e ∧ w = t :: v ∧ t.kind = .assignment ∧ Passed v) initialValue := by
  refine (Takes.accept (by decide)).bind fun more w hmore => ?_
  cases more with
  | false => exact .pure (.inl ⟨rfl, by simpa using hmore⟩)
  | true =>
    obtain ⟨t, rfl, ht⟩ := hmore
    exact (takes_expr .default).bind fun e v hv => .pure (.inr ⟨e, t, v, rfl, by simp, ht, hv⟩)

/-- What follows the type and the name of a member. Only a method goes on with a
parenthesis. -/
structure Follows (type : TypeRef) (name : String) (k : Member) (rest : List Token) : Prop where
  shifts : Shifts rest
  level : k.kind ≠ .property → ∀ n, parensAfterAll n rest = n
  other : startsWithName rest = false
  ne_nil : rest ≠ []
  typed : k.typed? =
    if rest.head?.map Token.kind = some .openParen then none else some (type, name)

/-- Nothing in the rest of a field looks like another one. -/
theorem takes_field {K : Kind → Prop} (m : Modifiers) (type : TypeRef) (name : String)
    (start : Position) : Takes K (Follows type name) (field m type name start) := by
  refine takes_initialValue.bind fun value w hw => (Takes.expect (by decide)).bind fun t _ ht => ?_
  refine (Takes.spanFrom _).bind fun _ _ hnil => .pure ?_
  obtain ⟨rfl, ht⟩ := ht
  subst hnil
  rcases hw with ⟨-, rfl⟩ | ⟨e, o, v, -, rfl, ho, hv⟩
  · have hsealed : Sealed [t] := sealed_token (by rw [ht]; rfl)
    exact ⟨hsealed.shifts, fun _ => hsealed.level, by simp [startsWithName, ht], by simp,
      by simp [Member.typed?, ht]⟩
  · have hsealed : Sealed (o :: v ++ [t]) := (hv.stop (by rw [ht]; rfl)).cons (by rw [ho]; rfl)
    exact ⟨by simpa using hsealed.shifts, fun _ => by simpa using hsealed.level,
      by simp [startsWithName, ho], by simp, by simp [Member.typed?, ho]⟩

/-- The accessors stand between braces. -/
theorem takes_property {K : Kind → Prop} (m : Modifiers) (type : TypeRef) (name : String)
    (start : Position) : Takes K (Follows type name) (property m type name start) := by
  refine (Takes.expect (by decide)).bind fun o _ ho => ?_
  have haccessors : Takes (fun _ => True) (Each fun _ => Inside) (many beforeCloseCurly accessor) :=
    Takes.many (m := fun c => c ≠ .eof && c ≠ .closeCurly) (fun _ => rfl) takes_accessor
  refine haccessors.bind fun accessors w hw => (Takes.expect (by decide)).bind fun c _ hc => ?_
  obtain ⟨rfl, ho⟩ := ho
  obtain ⟨rfl, hc⟩ := hc
  have hbraces := (inside_of_each hw).braces ho hc
  have hfollows {p : Property} (v : List Token) (hv : Shifts v) (htype : p.type = type)
      (hname : p.name = name) : Follows type name (.property p) (o :: w ++ [c] ++ v) :=
    ⟨hbraces.append hv, fun h => absurd rfl h, by simp [startsWithName, ho], by simp,
      by simp [Member.typed?, ho, htype, hname]⟩
  refine takes_initialValue.bind fun value v hv => ?_
  rcases hv with ⟨rfl, rfl⟩ | ⟨e, t, v, rfl, rfl, ht, hv⟩
  · refine (Takes.spanFrom _).bind fun _ _ hnil => .pure ?_
    subst hnil
    simpa using hfollows [] (fun _ _ _ => rfl) rfl rfl
  · refine (Takes.expect (by decide)).bind fun u _ hu => ?_
    refine (Takes.spanFrom _).bind fun _ _ hnil => .pure ?_
    obtain ⟨rfl, hu⟩ := hu
    subst hnil
    have hvalue : Sealed (t :: v ++ [u]) := (hv.stop (by rw [hu]; rfl)).cons (by rw [ht]; rfl)
    simpa using hfollows (t :: v ++ [u]) hvalue.shifts rfl rfl

theorem takes_methodBody {K : Kind → Prop} (isVoid : Bool) :
    Takes K (fun _ => Sealed) (methodBody isVoid) := by
  refine .kind fun c => ?_
  split
  · refine (Takes.advance (by simp)).bind fun t _ ht => .pure ?_
    obtain ⟨rfl, ht⟩ := ht
    exact sealed_token (by rw [ht]; rfl)
  · have hbody : Takes (· = .fatArrow) (fun _ => Sealed) (expressionBody isVoid) := by
      refine (Takes.expect (by decide)).bind fun t _ ht => (takes_expr _).bind fun _ w hw => ?_
      refine (Takes.expect (by decide)).bind fun c _ hc => ?_
      refine (Takes.spanFrom _).bind fun _ _ hnil => ?_
      obtain ⟨rfl, ht⟩ := ht
      obtain ⟨rfl, hc⟩ := hc
      subst hnil
      exact .pure (by simpa using (hw.stop (by rw [hc]; rfl)).cons (by rw [ht]; rfl))
    exact hbody.bind fun _ w hw => .pure (by simpa using hw)
  · exact takes_block.bind fun _ w hw => .pure (by simpa using hw.1)

/-- A method goes on with a parenthesis, so its name is not taken for a field. -/
theorem takes_method {K : Kind → Prop} (m : Modifiers) (type : TypeRef) (name : String)
    (start : Position) : Takes K (Follows type name) (method m type name start) := by
  refine takes_parameters.bind fun ps w hw => (takes_methodBody _).bind fun body v hv => ?_
  refine (Takes.spanFrom _).bind fun _ _ hnil => .pure ?_
  obtain ⟨hparameters, o, u, rfl, ho⟩ := hw
  subst hnil
  have hsealed : Sealed (o :: u ++ v) := hparameters.append hv
  exact ⟨by simpa using hsealed.shifts, fun _ => by simpa using hsealed.level,
    by simp [startsWithName, ho], by simp, by simp [Member.typed?, ho]⟩

theorem takes_constructorChain {K : Kind → Prop} : Takes K (fun _ => Sealed) constructorChain := by
  refine .kind fun c => ?_
  split
  · exact .pure .nil
  · rename_i hcolon
    have hcolon := Classical.not_not.1 hcolon
    refine (Takes.advance (by rintro _ rfl; simp [hcolon])).bind fun t _ ht => ?_
    obtain ⟨rfl, ht⟩ := ht
    have hrest (target : ChainTarget) {c : Kind} (hc : ∀ k, k = c → k.isInert = true) :
        Takes (· = c) (fun _ w => Sealed ([t] ++ w)) (do
          let _ ← advance
          let arguments ← arguments expr
          return some (ConstructorChain.mk target arguments (← spanFrom t.span.start))) := by
      refine (takes_inert hc).bind fun u _ hu => ?_
      refine (takes_arguments fun power _ => takes_expr power).bind fun _ w hw => ?_
      refine (Takes.spanFrom _).bind fun _ _ hnil => .pure ?_
      obtain ⟨rfl, hu⟩ := hu
      subst hnil
      have hsealed := (hw.1.cons hu).cons (by rw [ht, hcolon]; rfl)
      simpa using hsealed
    refine .kind fun c => ?_
    split
    · exact hrest .base (by rintro _ rfl; rfl)
    · exact hrest .this (by rintro _ rfl; rfl)
    · exact .fail _

/-- The name of a constructor is followed by a parenthesis as well. -/
theorem takes_constructor {K : Kind → Prop} (m : Modifiers) (start : Position) :
    Takes K (fun k w => k.typed? = none ∧ Sealed w) (constructor m start) := by
  refine (Takes.expect (by decide)).bind fun n _ hn => takes_parameters.bind fun ps w hw => ?_
  refine takes_constructorChain.bind fun chain v hv => takes_block.bind fun body u hu => ?_
  refine (Takes.spanFrom _).bind fun _ _ hnil => .pure ?_
  obtain ⟨rfl, hn⟩ := hn
  obtain ⟨hsealed, o, u', rfl, ho⟩ := hw
  subst hnil
  have hhead := (passed_name hn).seal hsealed (by simp [startsWithName, ho]) (by simp)
  exact ⟨rfl, by simpa using hhead.append (hv.append hu.1)⟩

/-! ### The name of a member -/

/-- A name without points is its own last part. -/
theorem unqualified_of_isName {name : String} (h : IsName name) : unqualified name = name := by
  rw [unqualified, List.splitOn_eq_singleton (point_not_mem_of_isName h)]
  simp

/-- The last part stands behind the last point. -/
theorem unqualified_append {front name : String} (h : IsName name) :
    unqualified (front ++ "." ++ name) = name := by
  have hpoint : (front ++ "." ++ name).toList = front.toList ++ '.' :: name.toList := by simp
  rw [unqualified, hpoint, List.splitOn_append_cons_self,
    List.splitOn_eq_singleton (point_not_mem_of_isName h)]
  simp

/-- The last token of a dotted name is what is left of it without the qualifiers, and what
comes before is passed over. -/
theorem exists_last_of_nameTokens {text : String} {d : List Token} (h : NameTokens text d)
    (hd : ∀ t ∈ d, t.IsLexeme) :
    ∃ front y, d = front ++ [y] ∧ Sealed front ∧ y.kind = .identifier ∧
      unqualified text = y.text := by
  have hpoints {start text : String} {ts : List Token} (h : Points start ts text) :
      (∀ t ∈ ts, t.IsLexeme) → ∀ n : Token, n.kind = .identifier → unqualified start = n.text →
        ∃ front y, n :: ts = front ++ [y] ∧ Sealed front ∧ y.kind = .identifier ∧
          unqualified text = y.text := by
    induction h with
    | nil => exact fun _ n hn hstart => ⟨[], n, rfl, .nil, hn, hstart⟩
    | @cons start text d m ts hd hm _ ih =>
      intro hts n hn _
      obtain ⟨-, hlexeme, hts⟩ : _ ∧ _ ∧ _ := by simpa using hts
      obtain ⟨front, y, hsplit, hfront, hy⟩ :=
        ih hts m hm (unqualified_append (hlexeme.word hm))
      refine ⟨n :: d :: front, y, by rw [hsplit]; rfl, ?_, hy⟩
      have hpoint : d.kind.isInert = true := by rw [hd]; rfl
      exact (passed_name hn).seal (hfront.cons hpoint) (by simp [startsWithName, hd]) (by simp)
  cases h with
  | @mk n ts hn hrest =>
    obtain ⟨hlexeme, hts⟩ := List.forall_mem_cons.1 hd
    exact hpoints hrest hts n hn (unqualified_of_isName (hlexeme.word hn))

/-- Along the tokens of a member the scan finds `found`, if no parenthesis is open before. -/
def Shows (found : List String) (w : List Token) : Prop :=
  ∀ n rest, domMembersIn 0 n (w ++ rest) =
    (if n = 0 then found else []) ++ domMembersIn 0 (parensAfterAll n w) rest

theorem Shifts.shows (h : Shifts w) : Shows [] w := fun n rest => by
  rw [h, ite_self, List.nil_append]

/-- What is found after tokens that the scan passes over. -/
theorem Sealed.append_shows {found : List String} (hw : Sealed w) (hv : Shows found v) :
    Shows found (w ++ v) := fun n rest => by
  rw [List.append_assoc, hw.passes trivial, hv, parensAfterAll_append, hw.level]

section

variable {levels : Nat} {type : TypeRef} {d a v : List Token}
  (htype : Typed (ArgumentsWithin levels) type d a v) (hd : ∀ t ∈ d, t.IsLexeme)

include htype

/-- Whether a type ends with an element's name can be seen from its tokens. -/
theorem Typed.endsWithElement_iff : type.endsWithElement = true ↔
    Dom.isElement (unqualified type.name) = true ∧ a = [] ∧ v = [] := by
  rw [← htype.arguments_eq_nil, ← htype.plain]
  simp only [TypeRef.endsWithElement, Bool.and_eq_true, List.isEmpty_iff, Bool.not_eq_true']
  exact ⟨fun h => ⟨h.1.1.1, h.1.1.2, h.2, h.1.2⟩, fun h => ⟨⟨⟨h.1, h.2.1⟩, h.2.2.2⟩, h.2.2.1⟩⟩

include hd

/-- The name of an element type is seen only if nothing comes between it and the name of the
member. -/
theorem Typed.sealed (h : type.endsWithElement = false) : Sealed (d ++ a ++ v) := by
  obtain ⟨ha, hother⟩ := sealed_argumentsWithin levels htype.arguments
  obtain ⟨hv, hother'⟩ := sealed_suffixes htype.suffixes
  by_cases hnil : a = [] ∧ v = []
  · obtain ⟨front, y, rfl, hfront, hy, htext⟩ := exists_last_of_nameTokens htype.name hd
    have hplain : Dom.isElement y.text = false := by
      rw [← htext, ← Bool.not_eq_true]
      exact fun helement => Bool.eq_false_iff.1 h (htype.endsWithElement_iff.2 ⟨helement, hnil⟩)
    rw [hnil.1, hnil.2, List.append_nil, List.append_nil]
    refine hfront.append ⟨(passed_name hy).level, fun _ => ?_⟩
    rw [List.singleton_append, domMembersIn_name hy, if_neg (by simp [hplain]), List.nil_append]
  · rw [List.append_assoc]
    refine (passed_nameTokens htype.name).seal (ha.append hv) ?_ (by simpa using hnil)
    exact startsWithName_append hother hother'

/-- Such a type is followed by the name that the scan finds. -/
theorem Typed.domMembersIn_element (h : type.endsWithElement = true) (rest : List Token) :
    domMembersIn 0 0 (d ++ a ++ v ++ rest) =
      (declaredName? rest).toList ++ domMembersIn 0 0 rest := by
  obtain ⟨front, y, rfl, hfront, hy, htext⟩ := exists_last_of_nameTokens htype.name hd
  obtain ⟨helement, rfl, rfl⟩ := htype.endsWithElement_iff.1 h
  rw [List.append_nil, List.append_nil, List.append_assoc, hfront.passes trivial,
    List.singleton_append, domMembersIn_name hy, if_pos ⟨rfl, rfl, htext ▸ helement⟩]

/-- The scan finds the name of a member if its type ends with the name of an element type. -/
theorem Typed.shows {x : Token} (hx : x.kind = .identifier) {k : Member} {rest : List Token}
    (hrest : Follows type x.text k rest) :
    Shows (k.nameIf TypeRef.endsWithElement).toList (d ++ a ++ v ++ x :: rest) := by
  have hpassed : Passed (d ++ a ++ v) :=
    passed_typeOf (fun _ => sealed_argumentsWithin levels) htype.typeOf
  obtain ⟨y, rest, rfl⟩ := List.exists_cons_of_ne_nil hrest.ne_nil
  intro n after
  have hname : domMembersIn 0 n (x :: (y :: rest ++ after)) =
      domMembersIn 0 (parensAfterAll n (y :: rest)) after := by
    have hnext : startsWithName (y :: rest ++ after) = false := hrest.other
    rw [← List.singleton_append, (passed_name hx).passes fun _ => hnext, hrest.shifts]
  have hparens : parensAfterAll n (d ++ a ++ v ++ x :: y :: rest) =
      parensAfterAll n (y :: rest) := by
    rw [parensAfterAll_append, hpassed.level, parensAfterAll_cons, hx]
    rfl
  have hfound : (k.nameIf TypeRef.endsWithElement).toList =
      if type.endsWithElement = true then (declaredName? (x :: y :: rest)).toList else [] := by
    rw [Member.nameIf, hrest.typed]
    by_cases hparen : y.kind = .openParen
    · simp [hparen, declaredName?]
    · cases helement : type.endsWithElement <;>
        simp [hparen, hx, helement, declaredName?]
  rw [hparens, hfound, List.append_assoc, List.cons_append]
  by_cases hn : n = 0
  · subst hn
    rw [if_pos rfl]
    cases helement : type.endsWithElement with
    | true =>
      rw [htype.domMembersIn_element hd helement, hname]
      rfl
    | false =>
      rw [(htype.sealed hd helement).passes trivial, hname]
      rfl
  · rw [if_neg hn, hpassed.passes fun h => absurd h (by omega), hname]
    rfl

end

/-- What the scan does along a member, and that only the accessors of a property can leave
parentheses open. -/
theorem takes_classMember {K : Kind → Prop} (className : String) :
    Takes K (fun k w => (k.kind ≠ .property → ∀ n, parensAfterAll n w = n) ∧
      ((∀ t ∈ w, t.IsLexeme) → Shows (k.nameIf TypeRef.endsWithElement).toList w))
      (classMember className) := by
  refine .after .position fun start => takes_modifiers.bind fun m w hw => ?_
  refine .after (.nothing fun _ => rfl) fun _ => .get fun s => ?_
  split
  · refine (takes_constructor m start).mono fun k v hv => ?_
    have hsealed : Sealed (w ++ v) := hw.append hv.2
    refine ⟨fun _ => hsealed.level, fun _ => ?_⟩
    rw [Member.nameIf, hv.1]
    exact hsealed.shifts.shows
  · refine (takes_typeRef .default).bind fun type u hu => ?_
    refine (Takes.expectDescribed _ (by decide)).bind fun x _ hx => ?_
    obtain ⟨levels, d, a, v, rfl, htype⟩ := hu
    obtain ⟨rfl, hx⟩ := hx
    have hmember {K : Kind → Prop} {p : Parse Member} (h : Takes K (Follows type x.text) p) :
        Takes K (fun k rest =>
          (k.kind ≠ .property → ∀ n, parensAfterAll n (w ++ (d ++ a ++ v ++ ([x] ++ rest))) = n) ∧
          ((∀ t ∈ w ++ (d ++ a ++ v ++ ([x] ++ rest)), t.IsLexeme) →
            Shows (k.nameIf TypeRef.endsWithElement).toList
              (w ++ (d ++ a ++ v ++ ([x] ++ rest))))) p := by
      refine h.mono fun k rest hrest => ⟨fun hk n => ?_, fun hlexemes => ?_⟩
      · have hpassed : Passed (d ++ a ++ v) :=
          passed_typeOf (fun _ => sealed_argumentsWithin levels) htype.typeOf
        rw [parensAfterAll_append, parensAfterAll_append, parensAfterAll_append, hw.level,
          hpassed.level, (passed_name hx).level, hrest.level hk]
      · exact hw.append_shows (htype.shows (fun t ht => hlexemes t (by simp [ht])) hx hrest)
    refine .kind fun c => ?_
    split
    · exact hmember (takes_method m type _ start)
    · exact hmember (takes_property m type _ start)
    · exact hmember (takes_field m type _ start)
    · exact hmember (takes_field m type _ start)
    · exact .fail _

end Parse

end ClassScript

import ClassScript.Proofs.Json.Canonical
import ClassScript.Proofs.Tree.Subexpression

/-!
# The projection to JSON is faithful

Trees with the same projection are the same, if the order of fields does not count and numbers
that are not finite count as null (`faithful_unit`).

A field says at each node which form it has, and the forms have different names; below one
form, the fields have the same names on both sides, so their values are compared one by one. A
named and a computed member have one tag in common, and another field tells them apart. Numbers
are the one place where something is lost: all that are not finite have the same projection.
Source text denotes only one of them, so it is enough to ask this of the numbers (`IsDenoted`).
-/

namespace ClassScript

open Json

/-! ### Names of operators and kinds -/

theorem BinaryOp.name_inj {a b : BinaryOp} (h : a.name = b.name) : a = b := by
  cases a <;> cases b <;> simp_all [BinaryOp.name]

theorem UnaryOp.name_inj {a b : UnaryOp} (h : a.name = b.name) : a = b := by
  cases a <;> cases b <;> simp_all [UnaryOp.name]

theorem UpdateOp.name_inj {a b : UpdateOp} (h : a.name = b.name) : a = b := by
  cases a <;> cases b <;> simp_all [UpdateOp.name]

theorem AssignOp.name_inj {a b : AssignOp} (h : a.name = b.name) : a = b := by
  cases a <;> cases b <;> simp_all [AssignOp.name]

theorem Unsupported.name_inj {a b : Unsupported} (h : a.name = b.name) : a = b := by
  cases a <;> cases b <;> simp_all [Unsupported.name]

theorem Accessibility.name_inj {a b : Accessibility} (h : a.name = b.name) : a = b := by
  cases a <;> cases b <;> simp_all [Accessibility.name]

theorem ChainTarget.name_inj {a b : ChainTarget} (h : a.name = b.name) : a = b := by
  cases a <;> cases b <;> simp_all [ChainTarget.name]

theorem LiteralKind.name_inj {a b : LiteralKind} (h : a.name = b.name) : a = b := by
  cases a <;> cases b <;> simp_all [LiteralKind.name]

/-! ### Lists and optional parts -/

/-- The value is told by its projection from every other one with the property `P`. -/
def ToldApart {α : Type} (f : α → Json) (P : α → Prop) (a : α) : Prop :=
  ∀ b, P b → (f a).canonical = (f b).canonical → a = b

/-- Lists are compared item by item. -/
theorem list_eq_of_toldApart {α : Type} {f : α → Json} {P : α → Prop} {as bs : List α}
    (has : ∀ a ∈ as, ToldApart f P a) (hbs : ∀ b ∈ bs, P b)
    (h : (Json.array (as.map f)).canonical = (Json.array (bs.map f)).canonical) : as = bs := by
  have hitems : canonicalItems (as.map f) = canonicalItems (bs.map f) := array.inj h
  clear h
  induction as generalizing bs with
  | nil =>
    cases bs with
    | nil => rfl
    | cons b bs => cases hitems
  | cons a as ih =>
    cases bs with
    | nil => cases hitems
    | cons b bs =>
      obtain ⟨hhead, htail⟩ := List.cons.inj hitems
      obtain ⟨ha, has⟩ := List.forall_mem_cons.1 has
      obtain ⟨hb, hbs⟩ := List.forall_mem_cons.1 hbs
      rw [ha b hb hhead, ih has hbs htail]

/-- A missing value is told from the others, if none of them has the projection null. -/
theorem option_eq_of_toldApart {α : Type} {f : α → Json} {P : α → Prop} {a? b? : Option α}
    (hnull : ∀ a, (f a).canonical ≠ .null) (ha : ∀ a ∈ a?.toList, ToldApart f P a)
    (hb : ∀ b ∈ b?.toList, P b)
    (h : (ofOption f a?).canonical = (ofOption f b?).canonical) : a? = b? := by
  cases a? with
  | none =>
    cases b? with
    | none => rfl
    | some b => exact absurd h.symm (hnull b)
  | some a =>
    cases b? with
    | none => exact absurd h (hnull a)
    | some b => rw [ha a List.mem_cons_self b (hb b List.mem_cons_self) h]

/-! ### Positions and types -/

theorem Position.eq_of_canonical_eq : {p q : Position} →
    p.toJson.canonical = q.toJson.canonical → p = q
  | ⟨line, column, offset⟩, ⟨line', column', offset'⟩, h => by
    obtain ⟨hline, hcolumn, hoffset, -⟩ := sameValues_of_canonical_eq h rfl (by simp)
    cases hline
    cases hcolumn
    cases hoffset
    rfl

/-- A span is told by its two positions. -/
theorem Span.eq_of_canonical_eq : {a b : Span} → a.toJson.canonical = b.toJson.canonical → a = b
  | ⟨start, stop⟩, ⟨start', stop'⟩, h => by
    obtain ⟨hstart, hstop, -⟩ := sameValues_of_canonical_eq h rfl (by simp)
    have hstart : start = start' := Position.eq_of_canonical_eq hstart
    have hstop : stop = stop' := Position.eq_of_canonical_eq hstop
    rw [hstart, hstop]

namespace TypeRef

mutual

/-- A type is told by its fields, by induction on its arguments. -/
theorem eq_of_canonical_eq : {t u : TypeRef} → t.toJson.canonical = u.toJson.canonical → t = u
  | ⟨name, nullable, arguments, isArray, span⟩, ⟨name', nullable', arguments', isArray', span'⟩,
    h => by
    obtain ⟨hname, hnullable, harguments, harray, hspan, -⟩ :=
      sameValues_of_canonical_eq h rfl (by simp)
    cases hname
    cases hnullable
    cases harray
    rw [eq_of_canonicalItems_eq (array.inj harguments), Span.eq_of_canonical_eq hspan]

theorem eq_of_canonicalItems_eq : {ts us : List TypeRef} →
    canonicalItems (toJsonList ts) = canonicalItems (toJsonList us) → ts = us
  | [], [], _ => rfl
  | [], _ :: _, h => nomatch h
  | _ :: _, [], h => nomatch h
  | t :: ts, u :: us, h => by
    obtain ⟨hhead, htail⟩ := List.cons.inj h
    rw [eq_of_canonical_eq hhead, eq_of_canonicalItems_eq htail]

end

end TypeRef

/-! ### Expressions -/

namespace Expr

/-- A number is one that source text can denote. -/
def IsDenoted : Expr → Prop
  | .literal (.number x) _ => x.negative = false ∧ x.rank ≤ Binary64.infiniteRank
  | _ => True

theorem toJsonList_eq_map (es : List Expr) : toJsonList es = es.map toJson := by
  induction es with
  | nil => rfl
  | cons e es ih => rw [toJsonList, ih, List.map_cons]

/-- Every expression is an object with the name of its form as a tag. -/
theorem exists_toJson_eq (e : Expr) :
    ∃ fields, e.toJson = .object (tag e.formName :: fields) ∧ "type" ∉ fields.map Prod.fst := by
  cases e <;> exact ⟨_, rfl, by simp⟩

/-- An expression is always an object. -/
theorem canonical_toJson_ne_null (e : Expr) : e.toJson.canonical ≠ .null := by
  obtain ⟨fields, he, -⟩ := e.exists_toJson_eq
  rw [he]
  exact nofun

/-- The tag tells the form. -/
theorem formName_eq {e e' : Expr} (h : e.toJson.canonical = e'.toJson.canonical) :
    e.formName = e'.formName := by
  obtain ⟨fields, he, -⟩ := e.exists_toJson_eq
  obtain ⟨fields', he', hnew⟩ := e'.exists_toJson_eq
  rw [he, he'] at h
  exact tag_eq h hnew

/-- What is told apart among the expressions that source text denotes. -/
abbrev Told (e : Expr) : Prop :=
  ToldApart toJson (All IsDenoted) e

/-- The same of arguments, which are an array. -/
theorem arguments_eq {es es' : List Expr} (hes : ∀ e ∈ es, e.Told)
    (hes' : ∀ e ∈ es', e.All IsDenoted)
    (h : (Json.array (toJsonList es)).canonical = (Json.array (toJsonList es')).canonical) :
    es = es' := by
  rw [toJsonList_eq_map, toJsonList_eq_map] at h
  exact list_eq_of_toldApart hes hes' h

/-! One lemma for each form: an expression is told apart if its parts are. -/

theorem told_identifier (name : String) (span : Span) : (identifier name span).Told := by
  intro e' _ h
  have hform := formName_eq h
  cases e' with
  | identifier name' span' =>
    obtain ⟨-, hname, hspan, -⟩ := sameValues_of_canonical_eq h rfl (by simp)
    cases hname
    rw [Span.eq_of_canonical_eq hspan]
  | _ => simp [formName] at hform

/-- All numbers that are not finite have the same value, but source text denotes only one of
them. -/
theorem number_eq {x y : Binary64} (hx : x.negative = false ∧ x.rank ≤ Binary64.infiniteRank)
    (hy : y.negative = false ∧ y.rank ≤ Binary64.infiniteRank)
    (h : (Json.number x).canonical = (Json.number y).canonical) : x = y := by
  unfold canonical at h
  split at h
  · split at h
    · exact number.inj h
    · cases h
  · rename_i hxinf
    split at h
    · cases h
    · rename_i hyinf
      simp only [Binary64.isFinite, decide_eq_true_eq] at hxinf hyinf
      have hrank : x.rank = y.rank := by omega
      cases x
      cases y
      simp_all

/-- The kind tells null from a number that is not finite. -/
theorem literal_eq {a b : Literal} {s t : Span} (ha : IsDenoted (.literal a s))
    (hb : IsDenoted (.literal b t)) (hvalue : a.valueJson.canonical = b.valueJson.canonical)
    (hkind : a.kind = b.kind) : a = b := by
  cases a with
  | string x =>
    cases b with
    | string y => rw [string.inj hvalue]
    | _ => cases hkind
  | number x =>
    cases b with
    | number y => rw [number_eq ha hb hvalue]
    | _ => cases hkind
  | boolean x =>
    cases b with
    | boolean y => rw [bool.inj hvalue]
    | _ => cases hkind
  | null =>
    cases b with
    | null => rfl
    | _ => cases hkind

/-- A literal is told by its kind and its value. -/
theorem told_literal {value : Literal} {span : Span} (hvalue : IsDenoted (.literal value span)) :
    (literal value span).Told := by
  intro e' he' h
  have hform := formName_eq h
  cases e' with
  | literal value' span' =>
    obtain ⟨-, hval, hkind, hspan, -⟩ := sameValues_of_canonical_eq h rfl (by simp)
    rw [literal_eq hvalue he'.self hval (LiteralKind.name_inj (string.inj hkind)),
      Span.eq_of_canonical_eq hspan]
  | _ => simp [formName] at hform

/-- If the operands are told apart, so is the operation. -/
theorem told_binary {op : BinaryOp} {left right : Expr} {span : Span} (hleft : left.Told)
    (hright : right.Told) : (binary op left right span).Told := by
  intro e' he' h
  have hform := formName_eq h
  cases e' with
  | binary op' left' right' span' =>
    obtain ⟨-, hl, hop, hr, hspan, -⟩ := sameValues_of_canonical_eq h rfl (by simp)
    rw [BinaryOp.name_inj (string.inj hop), hleft left' (he'.child (by simp [children])) hl,
      hright right' (he'.child (by simp [children])) hr, Span.eq_of_canonical_eq hspan]
  | _ => simp [formName] at hform

theorem told_unary {op : UnaryOp} {operand : Expr} {span : Span} (hoperand : operand.Told) :
    (unary op operand span).Told := by
  intro e' he' h
  have hform := formName_eq h
  cases e' with
  | unary op' operand' span' =>
    obtain ⟨-, hop, ho, hspan, -⟩ := sameValues_of_canonical_eq h rfl (by simp)
    rw [UnaryOp.name_inj (string.inj hop), hoperand operand' (he'.child (by simp [children])) ho,
      Span.eq_of_canonical_eq hspan]
  | _ => simp [formName] at hform

theorem told_update {op : UpdateOp} {operand : Expr} {span : Span} (hoperand : operand.Told) :
    (update op operand span).Told := by
  intro e' he' h
  have hform := formName_eq h
  cases e' with
  | update op' operand' span' =>
    obtain ⟨-, hop, ho, hspan, -⟩ := sameValues_of_canonical_eq h rfl (by simp)
    rw [UpdateOp.name_inj (string.inj hop), hoperand operand' (he'.child (by simp [children])) ho,
      Span.eq_of_canonical_eq hspan]
  | _ => simp [formName] at hform

theorem told_assign {op : AssignOp} {target value : Expr} {span : Span} (htarget : target.Told)
    (hvalue : value.Told) : (assign op target value span).Told := by
  intro e' he' h
  have hform := formName_eq h
  cases e' with
  | assign op' target' value' span' =>
    obtain ⟨-, ht, hop, hv, hspan, -⟩ := sameValues_of_canonical_eq h rfl (by simp)
    rw [AssignOp.name_inj (string.inj hop), htarget target' (he'.child (by simp [children])) ht,
      hvalue value' (he'.child (by simp [children])) hv, Span.eq_of_canonical_eq hspan]
  | _ => simp [formName] at hform

/-- The callee and each of the arguments. -/
theorem told_call {callee : Expr} {arguments : List Expr} {span : Span} (hcallee : callee.Told)
    (harguments : ∀ e ∈ arguments, e.Told) : (call callee arguments span).Told := by
  intro e' he' h
  have hform := formName_eq h
  cases e' with
  | call callee' arguments' span' =>
    obtain ⟨-, hc, ha, hspan, -⟩ := sameValues_of_canonical_eq h rfl (by simp)
    have hdenoted : ∀ e ∈ arguments', e.All IsDenoted := by
      intro e he
      exact he'.child (by simp [children, he])
    rw [hcallee callee' (he'.child (by simp [children])) hc, arguments_eq harguments hdenoted ha,
      Span.eq_of_canonical_eq hspan]
  | _ => simp [formName] at hform

/-- A member that is named is told from one that is computed by a field of its own. -/
theorem told_member {object : Expr} {name : String} {nameSpan span : Span}
    (hobject : object.Told) : (member object name nameSpan span).Told := by
  intro e' he' h
  have hform := formName_eq h
  cases e' with
  | member object' name' nameSpan' span' =>
    obtain ⟨-, ho, hproperty, -, hspan, -⟩ := sameValues_of_canonical_eq h rfl (by simp)
    obtain ⟨-, hname, hnameSpan, -⟩ := sameValues_of_canonical_eq hproperty rfl (by simp)
    cases hname
    rw [hobject object' (he'.child (by simp [children])) ho, Span.eq_of_canonical_eq hnameSpan,
      Span.eq_of_canonical_eq hspan]
  | index object' key' span' =>
    obtain ⟨-, -, -, hcomputed, -⟩ := sameValues_of_canonical_eq h rfl (by simp)
    cases hcomputed
  | _ => simp [formName] at hform

theorem told_index {object key : Expr} {span : Span} (hobject : object.Told) (hkey : key.Told) :
    (index object key span).Told := by
  intro e' he' h
  have hform := formName_eq h
  cases e' with
  | member object' name' nameSpan' span' =>
    obtain ⟨-, -, -, hcomputed, -⟩ := sameValues_of_canonical_eq h rfl (by simp)
    cases hcomputed
  | index object' key' span' =>
    obtain ⟨-, ho, hk, -, hspan, -⟩ := sameValues_of_canonical_eq h rfl (by simp)
    rw [hobject object' (he'.child (by simp [children])) ho,
      hkey key' (he'.child (by simp [children])) hk, Span.eq_of_canonical_eq hspan]
  | _ => simp [formName] at hform

theorem told_this (span : Span) : (this span).Told := by
  intro e' _ h
  have hform := formName_eq h
  cases e' with
  | this span' =>
    obtain ⟨-, hspan, -⟩ := sameValues_of_canonical_eq h rfl (by simp)
    rw [Span.eq_of_canonical_eq hspan]
  | _ => simp [formName] at hform

theorem told_base (span : Span) : (base span).Told := by
  intro e' _ h
  have hform := formName_eq h
  cases e' with
  | base span' =>
    obtain ⟨-, hspan, -⟩ := sameValues_of_canonical_eq h rfl (by simp)
    rw [Span.eq_of_canonical_eq hspan]
  | _ => simp [formName] at hform

section

variable {arguments : List Expr} (harguments : ∀ e ∈ arguments, e.Told)

include harguments

/-- A type and arguments. -/
theorem told_create (type : TypeRef) (span : Span) : (create type arguments span).Told := by
  intro e' he' h
  have hform := formName_eq h
  cases e' with
  | create type' arguments' span' =>
    obtain ⟨-, htype, ha, hspan, -⟩ := sameValues_of_canonical_eq h rfl (by simp)
    have hdenoted : ∀ e ∈ arguments', e.All IsDenoted := by
      intro e he
      exact he'.child he
    rw [TypeRef.eq_of_canonical_eq htype, arguments_eq harguments hdenoted ha,
      Span.eq_of_canonical_eq hspan]
  | _ => simp [formName] at hform

theorem told_hostCall (path : String) (span : Span) : (hostCall path arguments span).Told := by
  intro e' he' h
  have hform := formName_eq h
  cases e' with
  | hostCall path' arguments' span' =>
    obtain ⟨-, hpath, ha, hspan, -⟩ := sameValues_of_canonical_eq h rfl (by simp)
    have hdenoted : ∀ e ∈ arguments', e.All IsDenoted := by
      intro e he
      exact he'.child he
    cases hpath
    rw [arguments_eq harguments hdenoted ha, Span.eq_of_canonical_eq hspan]
  | _ => simp [formName] at hform

theorem told_domCreate (element : String) (span : Span) :
    (domCreate element arguments span).Told := by
  intro e' he' h
  have hform := formName_eq h
  cases e' with
  | domCreate element' arguments' span' =>
    obtain ⟨-, helement, ha, hspan, -⟩ := sameValues_of_canonical_eq h rfl (by simp)
    have hdenoted : ∀ e ∈ arguments', e.All IsDenoted := by
      intro e he
      exact he'.child he
    cases helement
    rw [arguments_eq harguments hdenoted ha, Span.eq_of_canonical_eq hspan]
  | _ => simp [formName] at hform

theorem told_domCall {object : Expr} (hobject : object.Told) (method : String) (span : Span) :
    (domCall object method arguments span).Told := by
  intro e' he' h
  have hform := formName_eq h
  cases e' with
  | domCall object' method' arguments' span' =>
    obtain ⟨-, ho, hmethod, ha, hspan, -⟩ := sameValues_of_canonical_eq h rfl (by simp)
    have hdenoted : ∀ e ∈ arguments', e.All IsDenoted := by
      intro e he
      exact he'.child (by simp [children, he])
    cases hmethod
    rw [hobject object' (he'.child (by simp [children])) ho, arguments_eq harguments hdenoted ha,
      Span.eq_of_canonical_eq hspan]
  | _ => simp [formName] at hform

end

/-- The three parts of a host form. -/
theorem told_hostSet {object property value : Expr} {span : Span} (hobject : object.Told)
    (hproperty : property.Told) (hvalue : value.Told) :
    (hostSet object property value span).Told := by
  intro e' he' h
  have hform := formName_eq h
  cases e' with
  | hostSet object' property' value' span' =>
    obtain ⟨-, ho, hp, hv, hspan, -⟩ := sameValues_of_canonical_eq h rfl (by simp)
    rw [hobject object' (he'.child (by simp [children])) ho,
      hproperty property' (he'.child (by simp [children])) hp,
      hvalue value' (he'.child (by simp [children])) hv, Span.eq_of_canonical_eq hspan]
  | _ => simp [formName] at hform

theorem told_domProperty {object : Expr} (hobject : object.Told) (property : String)
    (span : Span) : (domProperty object property span).Told := by
  intro e' he' h
  have hform := formName_eq h
  cases e' with
  | domProperty object' property' span' =>
    obtain ⟨-, ho, hproperty, hspan, -⟩ := sameValues_of_canonical_eq h rfl (by simp)
    cases hproperty
    rw [hobject object' (he'.child (by simp [children])) ho, Span.eq_of_canonical_eq hspan]
  | _ => simp [formName] at hform

/-- By induction on the expression. Each form has its own lemma above. -/
theorem told (e : Expr) (he : e.All IsDenoted) : e.Told := by
  revert he
  induction e using induction_children with
  | step e ih =>
    intro he
    have ih : ∀ c ∈ e.children, c.Told := by
      intro c hc
      exact ih c hc (he.child hc)
    cases e with
    | identifier name span => exact told_identifier name span
    | literal value span => exact told_literal he.self
    | binary op left right span =>
      exact told_binary (ih left (by simp [children])) (ih right (by simp [children]))
    | unary op operand span => exact told_unary (ih operand (by simp [children]))
    | update op operand span => exact told_update (ih operand (by simp [children]))
    | assign op target value span =>
      exact told_assign (ih target (by simp [children])) (ih value (by simp [children]))
    | call callee arguments span =>
      obtain ⟨hcallee, harguments⟩ := List.forall_mem_cons.1 ih
      exact told_call hcallee harguments
    | member object name nameSpan span => exact told_member (ih object (by simp [children]))
    | index object key span =>
      exact told_index (ih object (by simp [children])) (ih key (by simp [children]))
    | this span => exact told_this span
    | base span => exact told_base span
    | create type arguments span => exact told_create ih type span
    | hostCall path arguments span => exact told_hostCall ih path span
    | hostSet object property value span =>
      exact told_hostSet (ih object (by simp [children])) (ih property (by simp [children]))
        (ih value (by simp [children]))
    | domCreate element arguments span => exact told_domCreate ih element span
    | domProperty object property span =>
      exact told_domProperty (ih object (by simp [children])) property span
    | domCall object method arguments span =>
      obtain ⟨hobject, harguments⟩ := List.forall_mem_cons.1 ih
      exact told_domCall harguments hobject method span

/-- The numbers in the expressions are ones that source text can denote. -/
abbrev AllDenoted (es : List Expr) : Prop :=
  ∀ e ∈ es, e.All IsDenoted

theorem told_of_mem {es : List Expr} (hes : AllDenoted es) : ∀ e ∈ es, e.Told := by
  intro e he
  exact told e (hes e he)

/-- A value that may be missing. -/
theorem option_eq {e? e?' : Option Expr} (he : AllDenoted e?.toList) (he' : AllDenoted e?'.toList)
    (h : (ofOption toJson e?).canonical = (ofOption toJson e?').canonical) : e? = e?' :=
  option_eq_of_toldApart canonical_toJson_ne_null (told_of_mem he) he' h

end Expr

/-! ### Statements -/

namespace Stmt

open ClassScript.Expr (AllDenoted)

/-- What is told apart among the statements that source text denotes. -/
abbrev Told (s : Stmt) : Prop :=
  ToldApart toJson (fun s' => AllDenoted s'.expressions) s

theorem toJsonList_eq_map (ss : List Stmt) : toJsonList ss = ss.map toJson := by
  induction ss with
  | nil => rfl
  | cons s ss ih => rw [toJsonList, ih, List.map_cons]

/-- Statements are compared one by one. -/
theorem body_eq {ss ss' : List Stmt} (hss : ∀ s ∈ ss, s.Told)
    (hss' : AllDenoted (expressionsOf ss'))
    (h : (Json.array (toJsonList ss)).canonical = (Json.array (toJsonList ss')).canonical) :
    ss = ss' := by
  rw [toJsonList_eq_map, toJsonList_eq_map] at h
  rw [expressionsOf_eq_flatMap] at hss'
  apply list_eq_of_toldApart hss _ h
  intro s hs e he
  exact hss' e (List.mem_flatMap.2 ⟨s, hs, he⟩)

/-- If the statements in it are told apart, so is a block. -/
theorem told_block {body : List Stmt} (hbody : ∀ s ∈ body, s.Told) (span : Span) :
    (block body span).Told := by
  intro s' hs' h
  cases s' with
  | block body' span' =>
    obtain ⟨-, hb, hspan, -⟩ := sameValues_of_canonical_eq h rfl (by simp)
    rw [body_eq hbody hs' hb, Span.eq_of_canonical_eq hspan]
  | _ => exact absurd (tag_eq h (by simp)) (by decide)

theorem told_expression {e : Expr} (he : e.All Expr.IsDenoted) (span : Span) :
    (expression e span).Told := by
  intro s' hs' h
  cases s' with
  | expression e' span' =>
    obtain ⟨-, hexpr, hspan, -⟩ := sameValues_of_canonical_eq h rfl (by simp)
    rw [Expr.told e he e' (hs' e' List.mem_cons_self) hexpr, Span.eq_of_canonical_eq hspan]
  | _ => exact absurd (tag_eq h (by simp)) (by decide)

/-- A local is told by its type, its name and its first value. -/
theorem told_variable {value : Option Expr} (hvalue : AllDenoted value.toList) (type : TypeRef)
    (name : String) (span : Span) : (Stmt.variable type name value span).Told := by
  intro s' hs' h
  cases s' with
  | «variable» type' name' value' span' =>
    obtain ⟨-, htype, hname, hv, hspan, -⟩ := sameValues_of_canonical_eq h rfl (by simp)
    cases hname
    rw [TypeRef.eq_of_canonical_eq htype, Expr.option_eq hvalue hs' hv,
      Span.eq_of_canonical_eq hspan]
  | _ => exact absurd (tag_eq h (by simp)) (by decide)

theorem told_return {value : Option Expr} (hvalue : AllDenoted value.toList) (span : Span) :
    (Stmt.return value span).Told := by
  intro s' hs' h
  cases s' with
  | «return» value' span' =>
    obtain ⟨-, hv, hspan, -⟩ := sameValues_of_canonical_eq h rfl (by simp)
    rw [Expr.option_eq hvalue hs' hv, Span.eq_of_canonical_eq hspan]
  | _ => exact absurd (tag_eq h (by simp)) (by decide)

theorem told_unsupported (construct : Unsupported) (span : Span) :
    (unsupported construct span).Told := by
  intro s' hs' h
  cases s' with
  | unsupported construct' span' =>
    obtain ⟨-, hconstruct, hspan, -⟩ := sameValues_of_canonical_eq h rfl (by simp)
    rw [Unsupported.name_inj (string.inj hconstruct), Span.eq_of_canonical_eq hspan]
  | _ => exact absurd (tag_eq h (by simp)) (by decide)

mutual

/-- By induction on the statement. -/
theorem told : (s : Stmt) → AllDenoted s.expressions → s.Told
  | .block body span, hs => told_block (told_of_mem body hs) span
  | .expression e span, hs => told_expression (hs e List.mem_cons_self) span
  | .variable type name _ span, hs => told_variable hs type name span
  | .return _ span, hs => told_return hs span
  | .unsupported construct span, _ => told_unsupported construct span

theorem told_of_mem : (ss : List Stmt) → AllDenoted (expressionsOf ss) → ∀ s ∈ ss, s.Told
  | [], _ => nofun
  | s :: ss, hss => by
    obtain ⟨hs, hss⟩ := List.forall_mem_append.1 hss
    exact List.forall_mem_cons.2 ⟨told s hs, told_of_mem ss hss⟩

end

end Stmt

/-! ### Members -/

open ClassScript.Expr (AllDenoted)

/-- The projection tells apart all nodes that source text denotes, where `inner` gives the
expressions of a node. -/
def Faithful {α : Type} (f : α → Json) (inner : α → List Expr) : Prop :=
  ∀ a, AllDenoted (inner a) → ToldApart f (fun b => AllDenoted (inner b)) a

section

variable {α : Type} {f : α → Json} {inner : α → List Expr} (hf : Faithful f inner)

include hf

omit hf in
/-- What is denoted as a whole is denoted in its parts. -/
theorem denoted_of_mem {as : List α} (has : AllDenoted (as.flatMap inner)) :
    ∀ a ∈ as, AllDenoted (inner a) := by
  intro a ha e he
  exact has e (List.mem_flatMap.2 ⟨a, ha, he⟩)

/-- The nodes of a list are told apart. -/
theorem Faithful.told_of_mem {as : List α} (has : AllDenoted (as.flatMap inner)) :
    ∀ a ∈ as, ToldApart f (fun b => AllDenoted (inner b)) a := by
  intro a ha
  exact hf a (denoted_of_mem has a ha)

/-- So is the list. -/
theorem Faithful.list_eq {as bs : List α} (has : AllDenoted (as.flatMap inner))
    (hbs : AllDenoted (bs.flatMap inner))
    (h : (Json.array (as.map f)).canonical = (Json.array (bs.map f)).canonical) : as = bs :=
  list_eq_of_toldApart (hf.told_of_mem has) (denoted_of_mem hbs) h

/-- So is a node that may be missing. -/
theorem Faithful.option_eq {a? b? : Option α} (hnull : ∀ a, (f a).canonical ≠ .null)
    (ha : AllDenoted (a?.toList.flatMap inner)) (hb : AllDenoted (b?.toList.flatMap inner))
    (h : (ofOption f a?).canonical = (ofOption f b?).canonical) : a? = b? :=
  option_eq_of_toldApart hnull (hf.told_of_mem ha) (denoted_of_mem hb) h

end

theorem faithful_block : Faithful Block.toJson Block.expressions := by
  intro ⟨body, span⟩ hb ⟨body', span'⟩ hb' h
  obtain ⟨hbody, hspan, -⟩ := sameValues_of_canonical_eq h rfl (by simp)
  have hbody : body = body' := Stmt.body_eq (Stmt.told_of_mem body hb) hb' hbody
  have hspan : span = span' := Span.eq_of_canonical_eq hspan
  rw [hbody, hspan]

/-- A parameter is told by its fields. -/
theorem faithful_parameter : Faithful Parameter.toJson (·.defaultValue.toList) := by
  intro ⟨name, type, value, span⟩ hp ⟨name', type', value', span'⟩ hp' h
  obtain ⟨hname, htype, hvalue, hspan, -⟩ := sameValues_of_canonical_eq h rfl (by simp)
  have hname : name = name' := string.inj hname
  have htype : type = type' := TypeRef.eq_of_canonical_eq htype
  have hvalue : value = value' := Expr.option_eq hp hp' hvalue
  have hspan : span = span' := Span.eq_of_canonical_eq hspan
  rw [hname, htype, hvalue, hspan]

theorem faithful_chain : Faithful ConstructorChain.toJson (·.arguments) := by
  intro ⟨target, arguments, span⟩ hc ⟨target', arguments', span'⟩ hc' h
  obtain ⟨htarget, harguments, hspan, -⟩ := sameValues_of_canonical_eq h rfl (by simp)
  have htarget : target = target' := ChainTarget.name_inj (string.inj htarget)
  have harguments : arguments = arguments' :=
    Expr.arguments_eq (Expr.told_of_mem hc) hc' harguments
  have hspan : span = span' := Span.eq_of_canonical_eq hspan
  rw [htarget, harguments, hspan]

/-- A method without a body has null in its place. -/
theorem faithful_method : Faithful Method.toJson fun m => (Member.method m).expressions := by
  intro ⟨name, type, parameters, body, access, isStatic, isVirtual, isOverride, isAbstract, span⟩
    hm ⟨name', type', parameters', body', access', isStatic', isVirtual', isOverride', isAbstract',
    span'⟩ hm' h
  obtain ⟨hparams, hbodyIn⟩ := List.forall_mem_append.1 hm
  obtain ⟨hparams', hbodyIn'⟩ := List.forall_mem_append.1 hm'
  obtain ⟨-, hname, htype, hparameters, hbody, haccess, hstatic, hvirtual, hoverride, habstract,
    hspan, -⟩ := sameValues_of_canonical_eq h rfl (by simp)
  cases hname
  cases hstatic
  cases hvirtual
  cases hoverride
  cases habstract
  have htype : type = type' := TypeRef.eq_of_canonical_eq htype
  have hparameters : parameters = parameters' :=
    faithful_parameter.list_eq hparams hparams' hparameters
  have hbody : body = body' := faithful_block.option_eq (fun _ => nofun) hbodyIn hbodyIn' hbody
  have haccess : access = access' := Accessibility.name_inj (string.inj haccess)
  have hspan : span = span' := Span.eq_of_canonical_eq hspan
  rw [htype, hparameters, hbody, haccess, hspan]

theorem faithful_property : Faithful Property.toJson (·.initializer.toList) := by
  intro ⟨name, type, hasGetter, hasSetter, value, access, isStatic, isVirtual, isOverride,
    isAbstract, span⟩ hp ⟨name', type', hasGetter', hasSetter', value', access', isStatic',
    isVirtual', isOverride', isAbstract', span'⟩ hp' h
  obtain ⟨-, hname, htype, hgetter, hsetter, hvalue, haccess, hstatic, hvirtual, hoverride,
    habstract, hspan, -⟩ := sameValues_of_canonical_eq h rfl (by simp)
  cases hname
  cases hgetter
  cases hsetter
  cases hstatic
  cases hvirtual
  cases hoverride
  cases habstract
  have htype : type = type' := TypeRef.eq_of_canonical_eq htype
  have hvalue : value = value' := Expr.option_eq hp hp' hvalue
  have haccess : access = access' := Accessibility.name_inj (string.inj haccess)
  have hspan : span = span' := Span.eq_of_canonical_eq hspan
  rw [htype, hvalue, haccess, hspan]

theorem faithful_field : Faithful Field.toJson (·.initializer.toList) := by
  intro ⟨name, type, value, access, isStatic, isReadonly, isConst, span⟩ hf
    ⟨name', type', value', access', isStatic', isReadonly', isConst', span'⟩ hf' h
  obtain ⟨-, hname, htype, hvalue, haccess, hstatic, hreadonly, hconst, hspan, -⟩ :=
    sameValues_of_canonical_eq h rfl (by simp)
  cases hname
  cases hstatic
  cases hreadonly
  cases hconst
  have htype : type = type' := TypeRef.eq_of_canonical_eq htype
  have hvalue : value = value' := Expr.option_eq hf hf' hvalue
  have haccess : access = access' := Accessibility.name_inj (string.inj haccess)
  have hspan : span = span' := Span.eq_of_canonical_eq hspan
  rw [htype, hvalue, haccess, hspan]

/-- A constructor may have a chained call, and always has a body. -/
theorem faithful_constructor :
    Faithful Constructor.toJson fun k => (Member.constructor k).expressions := by
  intro ⟨name, parameters, chain, body, access, isStatic, span⟩ hk
    ⟨name', parameters', chain', body', access', isStatic', span'⟩ hk' h
  obtain ⟨hfront, hbodyIn⟩ := List.forall_mem_append.1 hk
  obtain ⟨hparams, hchainIn⟩ := List.forall_mem_append.1 hfront
  obtain ⟨hfront', hbodyIn'⟩ := List.forall_mem_append.1 hk'
  obtain ⟨hparams', hchainIn'⟩ := List.forall_mem_append.1 hfront'
  obtain ⟨-, hname, hparameters, hchain, hbody, haccess, hstatic, hspan, -⟩ :=
    sameValues_of_canonical_eq h rfl (by simp)
  cases hname
  cases hstatic
  have hparameters : parameters = parameters' :=
    faithful_parameter.list_eq hparams hparams' hparameters
  have hchain : chain = chain' :=
    faithful_chain.option_eq (fun _ => nofun) hchainIn hchainIn' hchain
  have hbody : body = body' := faithful_block body hbodyIn body' hbodyIn' hbody
  have haccess : access = access' := Accessibility.name_inj (string.inj haccess)
  have hspan : span = span' := Span.eq_of_canonical_eq hspan
  rw [hparameters, hchain, hbody, haccess, hspan]

/-- The kinds of members have different tags. -/
theorem faithful_member : Faithful Member.toJson Member.expressions := by
  intro m hm m' hm' h
  cases m with
  | method a =>
    cases m' with
    | method b => rw [faithful_method a hm b hm' h]
    | _ => exact absurd (tag_eq h (by simp)) (by decide)
  | property a =>
    cases m' with
    | property b => rw [faithful_property a hm b hm' h]
    | _ => exact absurd (tag_eq h (by simp)) (by decide)
  | field a =>
    cases m' with
    | field b => rw [faithful_field a hm b hm' h]
    | _ => exact absurd (tag_eq h (by simp)) (by decide)
  | constructor a =>
    cases m' with
    | constructor b => rw [faithful_constructor a hm b hm' h]
    | _ => exact absurd (tag_eq h (by simp)) (by decide)

/-! ### Classes and units -/

theorem toldApart_string (s : String) : ToldApart Json.string (fun _ => True) s := by
  intro t _ h
  exact string.inj h

/-- Names are told by themselves. -/
theorem strings_eq {ss ts : List String}
    (h : (Json.array (ss.map Json.string)).canonical =
      (Json.array (ts.map Json.string)).canonical) : ss = ts :=
  list_eq_of_toldApart (fun s _ => toldApart_string s) (fun _ _ => trivial) h

theorem optionString_eq {s? t? : Option String}
    (h : (ofOption Json.string s?).canonical = (ofOption Json.string t?).canonical) : s? = t? :=
  option_eq_of_toldApart (by simp [canonical]) (fun s _ => toldApart_string s)
    (fun _ _ => trivial) h

/-- A class is told by its name, its base classes and its members. -/
theorem faithful_class : Faithful ClassDecl.toJson ClassDecl.expressions := by
  intro ⟨name, baseClass, interfaces, access, isStatic, isAbstract, isSealed, members, span⟩ hc
    ⟨name', baseClass', interfaces', access', isStatic', isAbstract', isSealed', members', span'⟩
    hc' h
  obtain ⟨hname, hbase, hinterfaces, haccess, hstatic, habstract, hsealed, hmembers, hspan, -⟩ :=
    sameValues_of_canonical_eq h rfl (by simp)
  cases hname
  cases hstatic
  cases habstract
  cases hsealed
  have hbase : baseClass = baseClass' := optionString_eq hbase
  have hinterfaces : interfaces = interfaces' := strings_eq hinterfaces
  have haccess : access = access' := Accessibility.name_inj (string.inj haccess)
  have hmembers : members = members' := faithful_member.list_eq hc hc' hmembers
  have hspan : span = span' := Span.eq_of_canonical_eq hspan
  rw [hbase, hinterfaces, haccess, hmembers, hspan]

/-- Of a unit nothing is lost but the order of fields. -/
theorem faithful_unit : Faithful CompilationUnit.toJson CompilationUnit.expressions := by
  intro ⟨imports, namespaceName, classes, span⟩ hu ⟨imports', namespaceName', classes', span'⟩
    hu' h
  obtain ⟨himports, hnamespace, hclasses, hspan, -⟩ := sameValues_of_canonical_eq h rfl (by simp)
  have himports : imports = imports' := strings_eq himports
  have hnamespace : namespaceName = namespaceName' := optionString_eq hnamespace
  have hclasses : classes = classes' := faithful_class.list_eq hu hu' hclasses
  have hspan : span = span' := Span.eq_of_canonical_eq hspan
  rw [himports, hnamespace, hclasses, hspan]

end ClassScript

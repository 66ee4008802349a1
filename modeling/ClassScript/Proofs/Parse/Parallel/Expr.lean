import ClassScript.Proofs.Parse.Parallel.Basic

/-!
# How types and expressions are read

The parsers of types and expressions are built alike on both sides: in whatever places
the operands at hand were found, they read the same tokens and make trees that differ
in places only.
-/

namespace ClassScript.Parse

variable {T : Token → Token → Prop} {K : Kind → Prop} {l : Level}

/-! ### Names and types -/

theorem text_eq {t t' : Token} (h : t.lexeme = t'.lexeme) : t.text = t'.text :=
  congrArg Lexeme.text h

/-- A dotted name is made of texts only, and not of the places where they stand. -/
theorem foldl_text_eq {ts ts' : List Token} (h : ts.map Token.lexeme = ts'.map Token.lexeme)
    (front : String) :
    ts.foldl (fun name t => name ++ "." ++ t.text) front =
      ts'.foldl (fun name t => name ++ "." ++ t.text) front := by
  have hmap (ts : List Token) : ts.foldl (fun name t => name ++ "." ++ t.text) front =
      (ts.map Token.lexeme).foldl (fun name w => name ++ "." ++ w.text) front := by
    rw [List.foldl_map]
    rfl
  rw [hmap, h, ← hmap]

theorem parallel_dottedName (expected : String) :
    Parallel T K l l id (dottedName expected) (dottedName expected) := by
  have hpart : Parallel T (fun x => decide (x = .dot) = true) l l Token.lexeme
      (advance >>= fun _ => expect .identifier) (advance >>= fun _ => expect .identifier) := by
    refine .advance (fun x hx => ?_) fun _ _ _ _ => .expect rfl
    rw [of_decide_eq_true hx]
    rfl
  unfold dottedName
  refine .bind (.described _ rfl) fun first first' hfirst => ?_
  refine .bind (.many (fun _ => rfl) hpart) fun others others' hothers => ?_
  refine .pure ?_
  rw [text_eq hfirst, foldl_text_eq hothers]

/-- A list between commas is read in step if its items are. -/
theorem parallel_commaSeparated {α β : Type} {view : α → β} {p q : Parse α}
    (h : Parallel T (fun _ => True) l l view p q) :
    Parallel T K l l (List.map view) (commaSeparated p) (commaSeparated q) := by
  have hpart : Parallel T (fun x => decide (x = .comma) = true) l l view
      (advance >>= fun _ => p) (advance >>= fun _ => q) := by
    refine .advance (fun x hx => ?_) fun _ _ _ _ => h
    rw [of_decide_eq_true hx]
    rfl
  unfold commaSeparated
  refine .bind h.any fun first first' hfirst => ?_
  refine .bind (.many (fun _ => rfl) hpart) fun others others' hothers => ?_
  exact .pure (by rw [List.map_cons, List.map_cons, hfirst, hothers])

theorem parallel_namedTypeOf {p : Parse TypeRef}
    (h : Parallel T (fun _ => True) l l TypeRef.unlocated p p) :
    Parallel T K l l TypeRef.unlocated (namedTypeOf p) (namedTypeOf p) := by
  unfold namedTypeOf
  refine .bind (.position ()) fun start start' _ => ?_
  refine .bind (parallel_dottedName _) fun name name' hname => ?_
  refine .bind (.accept rfl) fun b b' hb => ?_
  obtain rfl : name = name' := hname
  obtain rfl : b = b' := hb
  have hrest (ts ts' : List TypeRef) (hts : ts.map TypeRef.unlocated = ts'.map TypeRef.unlocated) :
      Parallel T (fun _ => True) l l TypeRef.unlocated
        (do return { name, nullable := false, arguments := ts, isArray := false,
                     span := ← spanFrom start })
        (do return { name, nullable := false, arguments := ts', isArray := false,
                     span := ← spanFrom start' }) := by
    refine .bind (.spanFrom () _ _) fun span span' _ => .pure ?_
    simp only [TypeRef.unlocated, TypeRef.unlocatedAll_eq_map, hts]
  simp only [pure_bind]
  split
  · refine .bind (parallel_commaSeparated h) fun ts ts' hts => ?_
    exact .bind (.expect rfl) fun _ _ _ => hrest ts ts' hts
  · exact hrest [] [] rfl

/-- A suffix is told by its kind; where it ends is not part of the view. -/
theorem parallel_typeSuffix : Parallel T K l l Prod.fst typeSuffix typeSuffix := by
  unfold typeSuffix
  refine .kind fun c => ?_
  split
  · rename_i hc
    subst hc
    refine .advance (fun x hx => ?_) fun _ _ _ _ => .pure rfl
    rw [hx]
    rfl
  · exact .bind (.expect rfl) fun _ _ _ => .bind (.expect rfl) fun _ _ _ => .pure rfl

/-- A suffix does the same to two types that differ in their spans. -/
theorem withSuffix_congr {t t' : TypeRef} {x x' : TypeSuffix × Position}
    (h : t.unlocated = t'.unlocated) (hx : x.1 = x'.1) :
    (withSuffix t x).unlocated = (withSuffix t' x').unlocated := by
  obtain ⟨name, nullable, arguments, isArray, span⟩ := t
  obtain ⟨name', nullable', arguments', isArray', span'⟩ := t'
  obtain ⟨suffix, stop⟩ := x
  obtain ⟨suffix', stop'⟩ := x'
  obtain rfl : suffix = suffix' := hx
  cases suffix <;> simp_all [withSuffix, TypeRef.unlocated]

theorem foldl_withSuffix_congr {xs xs' : List (TypeSuffix × Position)} {t t' : TypeRef}
    (h : t.unlocated = t'.unlocated) (hxs : xs.map Prod.fst = xs'.map Prod.fst) :
    (xs.foldl withSuffix t).unlocated = (xs'.foldl withSuffix t').unlocated := by
  induction xs generalizing xs' t t' with
  | nil =>
    obtain rfl := List.map_eq_nil_iff.1 hxs.symm
    exact h
  | cons x xs ih =>
    obtain ⟨x', xs', rfl, hx, hxs⟩ := List.map_eq_cons_iff.1 hxs.symm
    rw [List.foldl_cons, List.foldl_cons]
    exact ih (withSuffix_congr h hx.symm) hxs.symm

/-- Types are read in step, by induction on the levels that are left. -/
theorem parallel_typeWithin (budget : Nat) (power : Power) :
    Parallel T K l l TypeRef.unlocated (typeWithin budget power) (typeWithin budget power) := by
  induction budget generalizing power K l with
  | zero => exact .tooDeep
  | succ budget ih =>
    unfold typeWithin
    refine .bind .deepen fun _ _ _ => .kind fun c => ?_
    simp only [Parallel.fail_bind]
    split
    · exact .unexpected _
    · refine .bind (parallel_namedTypeOf (ih .default)) fun t t' ht => ?_
      refine .bind (.many
        (m := fun x => (x = .question || x = .openBracket) && power < .call) (fun _ => rfl)
        parallel_typeSuffix) fun xs xs' hxs => ?_
      exact .bind .surface fun _ _ _ => .pure (foldl_withSuffix_congr ht hxs)

theorem parallel_typeRef (power : Power) :
    Parallel T K l l TypeRef.unlocated (typeRef power) (typeRef power) :=
  .ask (typeWithin · power) (typeWithin · power) .budget fun budget =>
    parallel_typeWithin budget power

/-! ### Expressions -/

/-- What a single form of expression is made of: both fail at the same token or both
return. -/
inductive Agree (T : Token → Token → Prop) {α β : Type} (view : α → β) :
    Except CompileError α → Except CompileError α → Prop
  | ok {a a' : α} : view a = view a' → Agree T view (.ok a) (.ok a')
  | error {t t' : Token} (cause : CompileError.Cause) : T t t' →
      Agree T view (.error (.atToken cause t)) (.error (.atToken cause t'))

/-- A token is shown in messages by its text, so the place does not matter. -/
theorem display_eq {t t' : Token} (h : t.lexeme = t'.lexeme) : t.display = t'.display := by
  have hkind : t.kind = t'.kind := congrArg Lexeme.kind h
  simp only [Token.display, hkind, text_eq h]

/-- Two tokens that say the same are the same expression, or the same error at either. -/
theorem agree_primaryOf {t t' : Token} (ht : T t t') (h : t.lexeme = t'.lexeme) :
    Agree T Expr.unlocated (primaryOf t) (primaryOf t') := by
  obtain ⟨kind, text, span⟩ := t
  obtain ⟨kind', text', span'⟩ := t'
  obtain ⟨rfl, rfl⟩ := Lexeme.mk.inj h
  have hdisplay : Token.display ⟨kind, text, span⟩ = Token.display ⟨kind, text, span'⟩ :=
    display_eq rfl
  unfold primaryOf
  dsimp only
  split
  case h_1 | h_2 | h_3 =>
    split
    · exact .ok rfl
    · exact .error _ ht
  case h_10 =>
    rw [hdisplay]
    exact .error _ ht
  all_goals exact .ok rfl

theorem parallel_primary (hK : ∀ x, K x → x.isCurly = false) :
    Parallel T K l l Expr.unlocated primary primary := by
  refine .advance hK fun t t' ht h => ?_
  have hagree := agree_primaryOf ht h
  generalize primaryOf t = r, primaryOf t' = r' at hagree ⊢
  cases hagree with
  | ok he => exact .pure he
  | error cause ht => exact .throw cause ht

/-- No brace is an operator. -/
theorem binaryOp?_isCurly {x : Kind} {op : BinaryOp} (h : x.binaryOp? = some op) :
    x.isCurly = false := by
  cases x <;> first | rfl | cases h

/-- Which form a call has does not depend on spans. -/
theorem callOf_unlocated (callee : Expr) (es : List Expr) (span : Span) (paren first : Token) :
    callOf callee.unlocated (es.map Expr.unlocated) .none paren first =
      (callOf callee es span paren first).map Expr.unlocated := by
  unfold callOf
  rw [hostMember?_unlocated]
  split
  · cases es with
    | nil => rfl
    | cons e es =>
      cases e with
      | literal value span =>
        cases value <;> simp [Expr.unlocated, Expr.unlocatedAll_eq_map, Except.map]
      | _ => rfl
  · rcases es with _ | ⟨a, _ | ⟨b, _ | ⟨c, _ | ⟨d, es⟩⟩⟩⟩ <;>
      simp [Expr.unlocated, Except.map]
  · cases callee <;> simp [Expr.unlocated, Expr.unlocatedAll_eq_map, Except.map]

/-- The tokens that a call is given are used in its errors only. -/
theorem agree_callOf_tokens (callee : Expr) (es : List Expr) (span : Span)
    {paren paren' first first' : Token} (hparen : T paren paren') (hfirst : T first first')
    (h : first.lexeme = first'.lexeme) :
    Agree T id (callOf callee es span paren first) (callOf callee es span paren' first') := by
  unfold callOf
  rw [display_eq h]
  split
  · split
    · exact .ok rfl
    · exact .error _ hfirst
  · split
    · exact .ok rfl
    · exact .error _ hparen
  · split <;> exact .ok rfl

/-- Results agree under a view if their views agree. -/
theorem Agree.of_map {α β : Type} {view : α → β} {r r' : Except CompileError α}
    (h : Agree T id (r.map view) (r'.map view)) : Agree T view r r' := by
  cases r <;> cases r' <;> cases h
  · exact .error _ ‹_›
  · exact .ok ‹_›

/-- Calls of the same callee with the same arguments are the same, wherever they stand. -/
theorem agree_callOf {callee callee' : Expr} {es es' : List Expr} (span span' : Span)
    {paren paren' first first' : Token} (hcallee : callee.unlocated = callee'.unlocated)
    (hes : es.map Expr.unlocated = es'.map Expr.unlocated) (hparen : T paren paren')
    (hfirst : T first first') (h : first.lexeme = first'.lexeme) :
    Agree T Expr.unlocated (callOf callee es span paren first)
      (callOf callee' es' span' paren' first') := by
  refine .of_map ?_
  rw [← callOf_unlocated, ← callOf_unlocated, hcallee, hes]
  exact agree_callOf_tokens _ _ _ hparen hfirst h

section

variable {operand : Operand}
  (hoperand : ∀ power,
    Parallel T (fun _ => True) l l Expr.unlocated (operand power) (operand power))

include hoperand

theorem parallel_prefixed (hK : ∀ x, K x → x.isCurly = false) :
    Parallel T K l l Expr.unlocated (prefixed operand) (prefixed operand) := by
  refine .advance hK fun mark mark' _ hmark => ?_
  have hkind : mark.kind = mark'.kind := congrArg Lexeme.kind hmark
  refine .bind (hoperand _) fun e e' he => .pure ?_
  simp only [Expr.unlocated, hkind, he]

theorem parallel_grouping : Parallel T K l l Expr.unlocated (grouping operand) (grouping operand) :=
  .bind (.expect rfl) fun _ _ _ => .bind (hoperand _) fun _ _ he =>
    .bind (.expect rfl) fun _ _ _ => .pure he

/-- Arguments are read in step if the operands are. -/
theorem parallel_arguments :
    Parallel T K l l (List.map Expr.unlocated) (arguments operand) (arguments operand) :=
  .bind (.expect rfl) fun _ _ _ => .bind (.commaList _ (hoperand _)) fun _ _ hes =>
    .bind (.described _ rfl) fun _ _ _ => .pure hes

/-- An element is made or an object, by the type alone. -/
theorem parallel_creation :
    Parallel T K l l Expr.unlocated (creation operand) (creation operand) := by
  refine .bind (.expect rfl) fun mark mark' _ => ?_
  refine .bind (parallel_typeRef _) fun type type' htype => ?_
  refine .bind (parallel_arguments hoperand) fun es es' hes => ?_
  refine .bind (.spanFrom () _ _) fun span span' _ => .pure ?_
  have hplain : isPlainElement type = isPlainElement type' := by
    rw [← isPlainElement_unlocated, htype, isPlainElement_unlocated]
  have hname : type.name = type'.name := by
    rw [← TypeRef.name_unlocated, htype, TypeRef.name_unlocated]
  rw [hplain, hname]
  split <;> simp only [Expr.unlocated, Expr.unlocatedAll_eq_map, htype, hes]

theorem parallel_beginning :
    Parallel T K l l Expr.unlocated (beginning operand) (beginning operand) := by
  unfold beginning
  refine .kind fun c => ?_
  split
  case h_10 | h_11 => exact parallel_prefixed hoperand (by rintro _ rfl; rfl)
  case h_12 => exact parallel_grouping hoperand
  case h_13 => exact parallel_creation hoperand
  case h_14 => exact .unexpected _
  all_goals exact parallel_primary (by rintro _ rfl; rfl)

section

variable {left left' : Expr} (hleft : left.unlocated = left'.unlocated)

include hleft

/-- The left operands may stand in different places. -/
theorem parallel_binary (power : Power) :
    Parallel T K l l Expr.unlocated (binary operand left power) (binary operand left' power) := by
  unfold binary
  refine .kind fun c => ?_
  split
  · exact .unexpected _
  · rename_i op hop
    refine .advance (by rintro _ rfl; exact binaryOp?_isCurly hop) fun _ _ _ _ => ?_
    refine .bind (hoperand _) fun e e' he => .pure ?_
    simp only [Expr.unlocated, hleft, he]

theorem parallel_coalesce :
    Parallel T K l l Expr.unlocated (coalesce operand left) (coalesce operand left') := by
  refine .bind (.expect rfl) fun _ _ _ => .bind (hoperand _) fun e e' he => .pure ?_
  simp only [Expr.unlocated, hleft, he]

omit hoperand in
/-- An operator that assigns is refused or accepted by the form of its target. -/
theorem parallel_assigning (hK : ∀ x, K x → x.isCurly = false) :
    Parallel T K l l Token.lexeme (assigning left) (assigning left') := by
  have hassignable : left.isAssignable = left'.isAssignable := by
    rw [← Expr.isAssignable_unlocated, hleft, Expr.isAssignable_unlocated]
  refine .advance hK fun mark mark' ht hmark => ?_
  rw [hassignable, display_eq hmark]
  split
  · exact .pure hmark
  · exact .throw _ ht

theorem parallel_assignment (hK : ∀ x, K x → x.isCurly = false) :
    Parallel T K l l Expr.unlocated (assignment operand left) (assignment operand left') := by
  refine .bind (parallel_assigning hleft hK) fun mark mark' hmark => ?_
  have hkind : mark.kind = mark'.kind := congrArg Lexeme.kind hmark
  refine .bind (hoperand _) fun e e' he => .pure ?_
  simp only [Expr.unlocated, hkind, hleft, he]

omit hoperand in
theorem parallel_update (hK : ∀ x, K x → x.isCurly = false) :
    Parallel T K l l Expr.unlocated (update left) (update left') := by
  refine .bind (parallel_assigning hleft hK) fun mark mark' hmark => .pure ?_
  have hkind : mark.kind = mark'.kind := congrArg Lexeme.kind hmark
  simp only [Expr.unlocated, hkind, hleft]

/-- The call keeps the token at hand and the next one for its errors, so the former must not
end a declaration. -/
theorem parallel_call (hK : ∀ x, K x → x.isEnd = false) :
    Parallel T K l l Expr.unlocated (call operand left) (call operand left') := by
  let rest (left : Expr) (paren first : Token) : Parse Expr := do
    let es ← arguments operand
    let span ← spanFrom left.span.start
    MonadExcept.ofExcept (callOf left es span paren first)
  have hform (left : Expr) :
      call operand left = get >>= fun s => rest left s.current (s.peek 1) := by
    refine congrArg (get >>= ·) (funext fun s => ?_)
    refine congrArg (arguments operand >>= ·) (funext fun es => ?_)
    refine congrArg (spanFrom left.span.start >>= ·) (funext fun span => ?_)
    cases callOf left es span s.current (s.peek 1) <;> rfl
  rw [hform, hform]
  refine .hold (rest left) (rest left') hK fun paren paren' first first' hparen hfirst h => ?_
  refine .bind (parallel_arguments hoperand) fun es es' hes => ?_
  refine .bind (.spanFrom () _ _) fun span span' _ => ?_
  have hagree := agree_callOf span span' hleft hes hparen hfirst h
  generalize callOf left es span paren first = r,
    callOf left' es' span' paren' first' = r' at hagree ⊢
  cases hagree with
  | ok he => exact .pure he
  | error cause ht => exact .throw cause ht

omit hoperand in
/-- What is known about the names in scope is the same in both runs. -/
theorem parallel_member : Parallel T K l l Expr.unlocated (member left) (member left') := by
  refine .bind (.expect rfl) fun _ _ _ => .bind (.described _ rfl) fun name name' hname => ?_
  let form (left : Expr) (name : Token) (scope : Scope) : Expr :=
    if scope.isDomValue left then .domProperty left name.text ⟨left.span.start, name.span.stop⟩
    else .member left name.text name.span ⟨left.span.start, name.span.stop⟩
  refine .ask (fun scope => pure (form left name scope))
    (fun scope => pure (form left' name' scope)) .scope fun scope => .pure ?_
  have hdom : scope.isDomValue left = scope.isDomValue left' := by
    rw [← isDomValue_unlocated, hleft, isDomValue_unlocated]
  simp only [form, hdom, text_eq hname]
  split <;> simp only [Expr.unlocated, hleft]

theorem parallel_index :
    Parallel T K l l Expr.unlocated (index operand left) (index operand left') := by
  refine .bind (.expect rfl) fun _ _ _ => .bind (hoperand _) fun e e' he => ?_
  refine .bind (.expect rfl) fun _ _ _ => .bind (.spanFrom () _ _) fun _ _ _ => .pure ?_
  simp only [Expr.unlocated, hleft, he]

/-- The kind at hand chooses the form in both runs. -/
theorem parallel_continuation (power : Power) :
    Parallel T K l l Expr.unlocated (continuation operand left power)
      (continuation operand left' power) := by
  unfold continuation
  refine .kind fun c => ?_
  split
  case h_6 => exact parallel_coalesce hoperand hleft
  case h_7 => exact parallel_call hoperand hleft (by rintro _ rfl; rfl)
  case h_8 | h_9 => exact parallel_update hleft (by rintro _ rfl; rfl)
  case h_10 => exact parallel_member hleft
  case h_11 => exact parallel_index hoperand hleft
  case h_12 => exact parallel_binary hoperand hleft power
  all_goals exact parallel_assignment hoperand hleft (by rintro _ rfl; rfl)

end

end

/-- Precedence climbing, over the levels of nesting that are left. -/
theorem parallel_exprWithin_climb (budget : Nat) (power : Power) :
    (∀ {K : Kind → Prop} {l : Level},
      Parallel T K l l Expr.unlocated (exprWithin budget power) (exprWithin budget power)) ∧
    ∀ {K : Kind → Prop} {l : Level} {left left' : Expr}, left.unlocated = left'.unlocated →
      Parallel T K l l Expr.unlocated (climb budget power left) (climb budget power left') := by
  induction budget generalizing power with
  | zero =>
    refine ⟨.tooDeep, fun hleft => ?_⟩
    unfold climb
    refine .kind fun c => ?_
    split
    · exact .pure hleft
    · split
      · exact .tooDeep
      · exact .pure hleft
  | succ budget ih =>
    refine ⟨?_, fun hleft => ?_⟩
    · unfold exprWithin
      refine .bind .deepen fun _ _ _ => ?_
      refine .bind (parallel_beginning fun power => (ih power).1) fun left left' hleft => ?_
      refine .bind ((ih power).2 hleft) fun e e' he => ?_
      exact .bind .surface fun _ _ _ => .pure he
    · unfold climb
      refine .kind fun c => ?_
      split
      · exact .pure hleft
      · split
        · refine .bind .deepen fun _ _ _ => ?_
          refine .bind (parallel_continuation (fun power => (ih power).1) hleft _)
            fun longer longer' hlonger => ?_
          refine .bind ((ih power).2 hlonger) fun e e' he => ?_
          exact .bind .surface fun _ _ _ => .pure he
        · exact .pure hleft

/-- Two runs that agree have the same levels left. -/
theorem parallel_expr (power : Power) :
    Parallel T K l l Expr.unlocated (expr power) (expr power) :=
  .ask (exprWithin · power) (exprWithin · power) .budget fun budget =>
    (parallel_exprWithin_climb budget power).1

end ClassScript.Parse

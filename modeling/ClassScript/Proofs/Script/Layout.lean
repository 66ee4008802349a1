import ClassScript.Proofs.Parse.Layout
import ClassScript.Proofs.Script.Spelling
import ClassScript.Proofs.Token.Tiling
import ClassScript.Script.Program

/-!
# Layout independence

Where the tokens of a program stand has no effect on its script. What is emitted for a
tree does not depend on the spans in it (`program_unlocated`), and the parser makes the
same tree of the same lexemes up to spans, or fails at the same one for the same cause.
Together (`layout_independent`): blanks and comments between the tokens change neither
the script nor the error.
-/

namespace ClassScript

/-! ### The members of a rewritten class -/

namespace Member

variable (r : Rewriting) (m : Member)

@[simp] theorem name_rewrite : (m.rewrite r).name = m.name := by
  cases m <;> rfl

@[simp] theorem isStatic_rewrite : (m.rewrite r).isStatic = m.isStatic := by
  cases m <;> rfl

end Member

namespace ClassDecl

variable (r : Rewriting) (c : ClassDecl)

@[simp] theorem name_rewrite : (c.rewrite r).name = c.name := rfl

/-- Rewriting keeps the sort of each member, so the methods are rewritten one by one. -/
theorem methods_rewrite : (c.rewrite r).methods = c.methods.map (Method.rewrite r) := by
  rw [methods, rewrite, methods, List.filterMap_map, List.map_filterMap]
  refine congrArg (List.filterMap · c.members) (funext fun m => ?_)
  cases m <;> rfl

theorem properties_rewrite : (c.rewrite r).properties = c.properties.map (Property.rewrite r) := by
  rw [properties, rewrite, properties, List.filterMap_map, List.map_filterMap]
  refine congrArg (List.filterMap · c.members) (funext fun m => ?_)
  cases m <;> rfl

theorem constructors_rewrite :
    (c.rewrite r).constructors = c.constructors.map (Constructor.rewrite r) := by
  rw [constructors, rewrite, constructors, List.filterMap_map, List.map_filterMap]
  refine congrArg (List.filterMap · c.members) (funext fun m => ?_)
  cases m <;> rfl

end ClassDecl

namespace Script

/-! ### Expressions and statements -/

/-- Where parentheses are needed does not depend on spans. -/
theorem sameShape_unlocated (e : Expr) : SameShape e.unlocated e := by
  cases e with
  | binary op left right span => cases op <;> exact ⟨rfl, rfl, rfl⟩
  | literal value span => cases value <;> exact ⟨rfl, rfl, rfl⟩
  | _ => exact ⟨rfl, rfl, rfl⟩

/-- What is to be shown for a list of expressions, for each of them. -/
theorem exprTexts_unlocated_iff {scope : Option Scope} {es : List Expr} :
    exprTexts scope (Expr.unlocatedAll es) = exprTexts scope es ↔
      ∀ e ∈ es, exprText scope e.unlocated = exprText scope e := by
  rw [Expr.unlocatedAll_eq_map, exprTexts_eq_map, exprTexts_eq_map, List.map_map, List.map_inj_left]
  rfl

/-- The text of an expression does not depend on spans, by induction on the expression. -/
@[simp] theorem exprText_unlocated (scope : Option Scope) (e : Expr) :
    exprText scope e.unlocated = exprText scope e := by
  induction e using Expr.induction_children with
  | step e ih =>
    cases e <;>
      simp only [Expr.children, List.forall_mem_cons, ← exprTexts_unlocated_iff] at ih <;>
      simp only [Expr.unlocated, exprText, (sameShape_unlocated _).wrapsLeft,
        (sameShape_unlocated _).wrapsRight, (sameShape_unlocated _).wrapsObject,
        (sameShape_unlocated _).precedence, TypeRef.name_unlocated, ih]

@[simp] theorem exprTexts_unlocated (scope : Option Scope) (es : List Expr) :
    exprTexts scope (es.map Expr.unlocated) = exprTexts scope es := by
  rw [← Expr.unlocatedAll_eq_map]
  exact exprTexts_unlocated_iff.2 fun e _ => exprText_unlocated scope e

mutual

/-- Nor do the lines of a statement, or the names that are known after it. -/
theorem stmtLines_unlocated (level : Nat) (scope : Scope) (s : Stmt) :
    stmtLines level scope (s.rewrite .unlocating) = stmtLines level scope s := by
  cases s with
  | block body span => simp [Stmt.rewrite, stmtLines, stmtsLines_unlocated]
  | expression e span => simp [Stmt.rewrite, stmtLines]
  | «variable» type name value span => cases value <;> simp [Stmt.rewrite, stmtLines]
  | «return» value span => cases value <;> simp [Stmt.rewrite, stmtLines]
  | unsupported construct span => rfl

theorem stmtsLines_unlocated (level : Nat) (scope : Scope) (ss : List Stmt) :
    stmtsLines level scope (Stmt.rewriteAll .unlocating ss) = stmtsLines level scope ss := by
  cases ss with
  | nil => rfl
  | cons s ss => simp [Stmt.rewriteAll, stmtsLines, stmtLines_unlocated, stmtsLines_unlocated]

end

/-- The statements of a body are emitted under the names of its surroundings. -/
@[simp] theorem bodyLines_unlocated (level : Nat) (scope : Scope) (b : Block) :
    bodyLines level scope (b.rewrite .unlocating) = bodyLines level scope b := by
  rw [bodyLines, Block.rewrite, stmtsLines_unlocated, bodyLines]

/-! ### Classes -/

/-- A parameter is declared by its name. -/
@[simp] theorem declareParameters_unlocated (scope : Scope) (ps : List Parameter) :
    scope.declareParameters (ps.map (Parameter.rewrite .unlocating)) =
      scope.declareParameters ps := by
  rw [Scope.declareParameters, List.foldl_map]
  rfl

@[simp] theorem parametersText_unlocated (scope : Scope) (ps : List Parameter) :
    parametersText scope (ps.map (Parameter.rewrite .unlocating)) = parametersText scope ps := by
  have hparameter (p : Parameter) :
      parameterText scope (p.rewrite .unlocating) = parameterText scope p := by
    obtain ⟨name, type, value, span⟩ := p
    cases value <;> simp [parameterText, Parameter.rewrite]
  rw [parametersText, List.map_map]
  exact congrArg commaJoined (List.map_congr_left fun p _ => hparameter p)

section

variable (c : ClassDecl)

/-- The names that a class brings into scope are those of its members. -/
@[simp] theorem ofClass_unlocated : Scope.ofClass (c.rewrite .unlocating) = Scope.ofClass c := by
  have hnamed (m : Member) : Scope.isNamed (m.rewrite .unlocating) = Scope.isNamed m := by
    cases m <;> rfl
  simp [Scope.ofClass, ClassDecl.rewrite, List.filter_map, Function.comp_def, hnamed]

theorem methodLines_unlocated (level : Nat) (m : Method) :
    methodLines level (c.rewrite .unlocating) (m.rewrite .unlocating) = methodLines level c m := by
  cases hbody : m.body <;>
    simp [methodLines, Method.rewrite, hbody]

theorem constructorLines_unlocated (level : Nat) (k : Constructor) :
    constructorLines level (c.rewrite .unlocating) (k.rewrite .unlocating) =
      constructorLines level c k := by
  have hchain (scope : Scope) (hasBase : Bool) :
      chainLines (level + 1) scope hasBase (k.chain.map (ConstructorChain.rewrite .unlocating)) =
        chainLines (level + 1) scope hasBase k.chain := by
    rcases k.chain with _ | ⟨target, es, span⟩
    · rfl
    · cases target <;> simp [ConstructorChain.rewrite, chainLines]
  simp [constructorLines, Constructor.rewrite, hchain]
  rfl

/-- A slot without the spans in its type and in its first value. -/
def Slot.unlocated (s : Slot) : Slot :=
  { s with type := s.type.unlocated, initializer := s.initializer.map Expr.unlocated }

@[simp] theorem Slot.name_unlocated (s : Slot) : s.unlocated.name = s.name := rfl

@[simp] theorem Slot.value_unlocated (s : Slot) (scope : Scope) :
    s.unlocated.value scope = s.value scope := by
  obtain ⟨name, type, value, isStatic⟩ := s
  cases value <;> simp [Slot.value, Slot.unlocated, defaultValue]

/-- A slot is made of a name, a type and a first value, so it only loses the spans in these. -/
theorem slots_unlocated : (c.rewrite .unlocating).members.filterMap slot? =
    (c.members.filterMap slot?).map Slot.unlocated := by
  rw [ClassDecl.rewrite, List.filterMap_map, List.map_filterMap]
  refine congrArg (List.filterMap · c.members) (funext fun m => ?_)
  cases m <;> rfl

theorem slotSection_unlocated (level : Nat) :
    slotSection level (c.rewrite .unlocating) = slotSection level c := by
  have hslots : instanceSlots (c.rewrite .unlocating) = (instanceSlots c).map Slot.unlocated := by
    rw [instanceSlots, slots_unlocated, List.filter_map]
    rfl
  rw [slotSection, slotSection, hslots, ofClass_unlocated]
  cases instanceSlots c with
  | nil => rfl
  | cons s slots => simp

/-- The same of what is emitted behind the class for its static part. -/
theorem staticLines_unlocated : staticLines (c.rewrite .unlocating) = staticLines c := by
  have hslots : staticSlots (c.rewrite .unlocating) = (staticSlots c).map Slot.unlocated := by
    rw [staticSlots, slots_unlocated, List.filter_map]
    rfl
  have hconstructor : staticConstructor? (c.rewrite .unlocating) =
      (staticConstructor? c).map (Constructor.rewrite .unlocating) := by
    rw [staticConstructor?, ClassDecl.constructors_rewrite, List.find?_map]
    rfl
  rw [staticLines, staticLines, hslots, hconstructor, ofClass_unlocated]
  cases staticConstructor? c <;>
    simp [Constructor.rewrite, Function.comp_def]

theorem classSections_unlocated (level : Nat) :
    classSections level (c.rewrite .unlocating) = classSections level c := by
  have haccessors (p : Property) :
      accessorLines level (p.rewrite .unlocating) = accessorLines level p :=
    rfl
  have hconstructor : instanceConstructor? (c.rewrite .unlocating) =
      (instanceConstructor? c).map (Constructor.rewrite .unlocating) := by
    rw [instanceConstructor?, ClassDecl.constructors_rewrite, List.find?_map]
    rfl
  rw [classSections, classSections, slotSection_unlocated, hconstructor,
    ClassDecl.properties_rewrite, ClassDecl.methods_rewrite]
  cases instanceConstructor? c <;>
    simp [Function.comp_def, constructorLines_unlocated, methodLines_unlocated, haccessors]

/-- The lines of a class, put together from its sections. -/
theorem classLines_unlocated : classLines (c.rewrite .unlocating) = classLines c := by
  rw [classLines, classSections_unlocated, staticLines_unlocated]
  rfl

end

/-! ### Programs -/

namespace Features

mutual

/-- Which parts of the runtime are needed does not depend on spans either. -/
theorem ofExpr_unlocated (e : Expr) : ofExpr e.unlocated = ofExpr e := by
  cases e <;> simp only [Expr.unlocated, ofExpr, ofExpr_unlocated, ofExprs_unlocated]

theorem ofExprs_unlocated (es : List Expr) : ofExprs (Expr.unlocatedAll es) = ofExprs es := by
  cases es with
  | nil => rfl
  | cons e es => simp only [Expr.unlocatedAll, ofExprs, ofExpr_unlocated, ofExprs_unlocated]

end

theorem ofExpr?_unlocated (value : Option Expr) :
    ofExpr? (value.map Expr.unlocated) = ofExpr? value := by
  cases value with
  | none => rfl
  | some e => exact ofExpr_unlocated e

mutual

/-- By induction on the statement, like the expressions in it. -/
theorem ofStmt_unlocated (s : Stmt) : ofStmt (s.rewrite .unlocating) = ofStmt s := by
  cases s with
  | block body span => exact ofStmts_unlocated body
  | expression e span => exact ofExpr_unlocated e
  | «variable» type name value span => exact ofExpr?_unlocated value
  | «return» value span => exact ofExpr?_unlocated value
  | unsupported construct span => rfl

theorem ofStmts_unlocated (ss : List Stmt) :
    ofStmts (Stmt.rewriteAll .unlocating ss) = ofStmts ss := by
  cases ss with
  | nil => rfl
  | cons s ss => simp only [Stmt.rewriteAll, ofStmts, ofStmt_unlocated, ofStmts_unlocated]

end

theorem ofParameters_unlocated (ps : List Parameter) :
    ofParameters (ps.map (Parameter.rewrite .unlocating)) = ofParameters ps := by
  simp [ofParameters, Function.comp_def, Parameter.rewrite, ofExpr?_unlocated]

theorem ofMember_unlocated (m : Member) : ofMember (m.rewrite .unlocating) = ofMember m := by
  cases m with
  | method m =>
    have hbody : ofBlock? (m.body.map (Block.rewrite .unlocating)) = ofBlock? m.body := by
      cases m.body with
      | none => rfl
      | some b => exact ofStmts_unlocated b.body
    simp [Member.rewrite, Method.rewrite, ofMember, ofParameters_unlocated, hbody]
  | property p => exact ofExpr?_unlocated p.initializer
  | field f => exact ofExpr?_unlocated f.initializer
  | constructor k =>
    have hchain :
        ofChain? (k.chain.map (ConstructorChain.rewrite .unlocating)) = ofChain? k.chain := by
      cases k.chain with
      | none => rfl
      | some chain =>
        show ofExprs (chain.arguments.map Expr.unlocated) = ofExprs chain.arguments
        rw [← Expr.unlocatedAll_eq_map, ofExprs_unlocated]
    simp [Member.rewrite, Constructor.rewrite, Block.rewrite, ofMember, ofParameters_unlocated,
      hchain, ofStmts_unlocated]

/-- The features of a unit are those of its members. -/
theorem ofUnit_unlocated (u : CompilationUnit) : ofUnit u.unlocated = ofUnit u := by
  simp [ofUnit, CompilationUnit.unlocated, CompilationUnit.rewrite, ClassDecl.rewrite,
    List.flatMap_map, Function.comp_def, ofMember_unlocated]

end Features

/-- The script of a unit does not depend on the spans in it. -/
theorem program_unlocated (o : Options) (u : CompilationUnit) :
    program o u.unlocated = program o u := by
  have hclasses : classesLines u.unlocated.classes = classesLines u.classes := by
    simp [classesLines, CompilationUnit.unlocated, CompilationUnit.rewrite, List.flatMap_map,
      classLines_unlocated]
  have hentry : entryLines u.unlocated = entryLines u := by
    have hclass :
        entryClass? u.unlocated = (entryClass? u).map (ClassDecl.rewrite .unlocating) := by
      simp only [entryClass?, CompilationUnit.unlocated, CompilationUnit.rewrite, List.find?_map,
        Function.comp_def, ClassDecl.methods_rewrite, List.any_map]
      rfl
    rw [entryLines, hclass, entryLines]
    cases entryClass? u <;> rfl
  have hheader : headerLines u.unlocated = headerLines u := rfl
  rw [program, hclasses, hentry, hheader, Features.ofUnit_unlocated, program]

end Script

/-! ### Reading the same lexemes -/

namespace Parse

/-- The end of the input is added in both lists or in none. -/
theorem terminate_lexemes {ts ts' : List Token} (h : ts.map Token.lexeme = ts'.map Token.lexeme)
    (p p' : Position) :
    ((State.terminate p ts).1 :: (State.terminate p ts).2).map Token.lexeme =
      ((State.terminate p' ts').1 :: (State.terminate p' ts').2).map Token.lexeme := by
  induction ts generalizing ts' p p' with
  | nil =>
    obtain rfl := List.map_eq_nil_iff.1 h.symm
    rfl
  | cons t ts ih =>
    obtain ⟨t', ts', rfl, ht, hts⟩ := List.map_eq_cons_iff.1 h.symm
    have hkind : t'.kind = t.kind := congrArg Lexeme.kind ht
    have hempty : ts'.isEmpty = ts.isEmpty := by
      rw [← List.isEmpty_map (f := Token.lexeme), hts, List.isEmpty_map]
    simp only [State.terminate, hkind, hempty]
    split
    · simp [ht]
    · simp only [List.map_cons, ht]
      exact congrArg (t.lexeme :: ·) (ih hts.symm _ _)

/-- A scan ends with the end of the input, so no other is added. -/
theorem ofTokens_tokens_of_tokenize {source : String} {ts : List Token}
    (h : tokenize source = .ok ts) : (State.ofTokens ts).tokens = ts := by
  obtain ⟨words, stop, hts, -, hstop, -⟩ := (Lexes.of_tokensFrom h).tiles.ends
  exact State.terminate_tokens .none ⟨words, stop, hts, hstop⟩

/-- Token lists with the same lexemes give the same unit up to spans, or an error for
the same cause at the same index. -/
theorem parseTokens_agrees {ts ts' : List Token} (h : ts.map Token.lexeme = ts'.map Token.lexeme) :
    (∃ u u', parseTokens ts = .ok u ∧ parseTokens ts' = .ok u' ∧ u.unlocated = u'.unlocated) ∨
    ∃ cause t t', SameIndex (State.ofTokens ts).tokens (State.ofTokens ts').tokens t t' ∧
      parseTokens ts = .error (.atToken cause t) ∧
      parseTokens ts' = .error (.atToken cause t') := by
  have hL : (State.ofTokens ts).tokens.map Token.lexeme =
      (State.ofTokens ts').tokens.map Token.lexeme :=
    terminate_lexemes h .none .none
  have hstart : InStep (State.ofTokens ts).tokens (State.ofTokens ts').tokens (.ofTokens ts)
      (.ofTokens ts') :=
    ⟨⟨0, rfl, rfl⟩, rfl, rfl⟩
  have hrun :=
    (parallel_compilationUnit (K := fun _ => True) (l := ⟨0, 0⟩)).agrees hL _ _ hstart trivial
  unfold parseTokens
  generalize compilationUnit (.ofTokens ts) = r, compilationUnit (.ofTokens ts') = r' at hrun ⊢
  cases hrun with
  | ok hu _ => exact .inl ⟨_, _, rfl, rfl, hu⟩
  | error cause ht => exact .inr ⟨cause, _, _, ht, rfl, rfl⟩

end Parse

open Parse (State)

/-- Layout has no effect. Of two token lists with the same lexemes, either both give a
unit, the same one up to spans and with the same script under all options, or both fail
for the same cause at the same index of the lists with the end of the input. So two
sources with the same lexemes have the same script or the same error. -/
theorem layout_independent {ts ts' : List Token} (h : ts.map Token.lexeme = ts'.map Token.lexeme) :
    ((∃ u u', parseTokens ts = .ok u ∧ parseTokens ts' = .ok u' ∧ u.unlocated = u'.unlocated ∧
        ∀ o, Script.program o u = Script.program o u') ∨
      ∃ (cause : CompileError.Cause) (i : Nat) (t t' : Token),
        (State.ofTokens ts).tokens[i]? = some t ∧ (State.ofTokens ts').tokens[i]? = some t' ∧
        parseTokens ts = .error (.atToken cause t) ∧
        parseTokens ts' = .error (.atToken cause t')) ∧
    ∀ source source', tokenize source = .ok ts → tokenize source' = .ok ts' →
      (∃ text, compileToScript source = .ok text ∧ compileToScript source' = .ok text) ∨
      ∃ (cause : CompileError.Cause) (i : Nat) (t t' : Token), ts[i]? = some t ∧ ts'[i]? = some t' ∧
        compileToScript source = .error (.atToken cause t) ∧
        compileToScript source' = .error (.atToken cause t') := by
  have hscript {source : String} {ts : List Token} (hsource : tokenize source = .ok ts) :
      compileToScript source = (parseTokens ts).map (Script.program .default) := by
    rw [compileToScript, compile, hsource]
    rfl
  rcases Parse.parseTokens_agrees h with
    ⟨u, u', hu, hu', htree⟩ | ⟨cause, t, t', ⟨i, ht, ht'⟩, he, he'⟩
  · have hprogram (o : Script.Options) : Script.program o u = Script.program o u' := by
      rw [← Script.program_unlocated, htree, Script.program_unlocated]
    refine ⟨.inl ⟨u, u', hu, hu', htree, hprogram⟩, fun source source' hs hs' => .inl ?_⟩
    refine ⟨Script.program .default u, ?_, ?_⟩
    · rw [hscript hs, hu]
      rfl
    · rw [hscript hs', hu', hprogram]
      rfl
  · refine ⟨.inr ⟨cause, i, t, t', ht, ht', he, he'⟩, fun source source' hs hs' => .inr ?_⟩
    rw [Parse.ofTokens_tokens_of_tokenize hs] at ht
    rw [Parse.ofTokens_tokens_of_tokenize hs'] at ht'
    refine ⟨cause, i, t, t', ht, ht', ?_, ?_⟩
    · rw [hscript hs, he]
      rfl
    · rw [hscript hs', he']
      rfl

/-- A class on one line, and the same class on three lines with comments. -/
theorem layout_independent_comments :
    ∃ ts ts', tokenize "class C{int x=1+2;}" = .ok ts ∧
      tokenize "class C // first\n\x7b int x = 1 /* one */ + 2;\n\x7d" = .ok ts' ∧
      ts.map Token.lexeme = ts'.map Token.lexeme ∧ ts ≠ ts' ∧
      ∃ text, compileToScript "class C{int x=1+2;}" = .ok text ∧
        compileToScript "class C // first\n\x7b int x = 1 /* one */ + 2;\n\x7d" = .ok text := by
  have hscript : (compileToScript "class C{int x=1+2;}").isOk = true := by decide +kernel
  have hfound : ∃ ts, tokenize "class C{int x=1+2;}" = .ok ts ∧
      (tokenize "class C // first\n\x7b int x = 1 /* one */ + 2;\n\x7d").toOption.any
        (fun ts' => decide (ts.map Token.lexeme = ts'.map Token.lexeme ∧ ts ≠ ts')) = true :=
    exists_eq_ok (by decide +kernel)
  obtain ⟨ts, hs, hfound⟩ := hfound
  obtain ⟨ts', hs', hlexemes, hne⟩ := exists_eq_ok hfound
  refine ⟨ts, ts', hs, hs', hlexemes, hne, ?_⟩
  rcases (layout_independent hlexemes).2 _ _ hs hs' with hok | ⟨cause, i, t, t', -, -, he, -⟩
  · exact hok
  · rw [he] at hscript
    cases hscript

end ClassScript

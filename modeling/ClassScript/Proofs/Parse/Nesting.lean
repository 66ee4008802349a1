import ClassScript.Proofs.Parse.Placement
import ClassScript.Proofs.Script.Layout
import ClassScript.Proofs.Token.Tiling

/-!
# Spans nest like the tree

The spans of statements and declarations are followed through their parsers. `Placed` says of
a parser that the spans of what it returns lie in the tokens it has read. A block, a
parameter, a member and a class begin with their first token and end with their last one; an
expression as a statement begins where the expression does. The tokens of a text are in order
(`ordered_of_tokenize`), so the spans of a compiled unit nest.
-/

namespace ClassScript

namespace Parse

variable {α : Type}

/-- The spans of what the parser returns lie in the tokens that it has read. -/
def Placed (trees : α → List SpanTree) (p : Parse α) : Prop :=
  ∀ {K : Kind → Prop}, Takes K (fun a w => Fits (trees a) w) p

/-! ### Statements -/

/-- The grammar of expressions knows where each node begins and ends. -/
theorem placed_expr (power : Power) : Placed (fun e => [e.spanTree]) (expr power) :=
  (spells_expr power).mono fun _ _ h => fits_of_spells h

theorem placed_typeRef (power : Power) : Placed (fun t => [t.spanTree]) (typeRef power) :=
  (spells_typeRef power).mono fun _ _ h => h.fits

theorem placed_arguments : Placed (fun es => es.map Expr.spanTree) (arguments expr) := by
  refine (spells_arguments fun power _ => spells_expr power).mono fun es w h => ?_
  obtain ⟨parts, hparts, hparens⟩ := h
  exact hparens.fits fun p hp => fits_of_spells (hparts p hp)

/-- A first value lies behind its equals sign, if there is one. -/
theorem placed_initialValue :
    Placed (fun value => value.toList.map Expr.spanTree) initialValue := by
  refine .of_after (.accept (by decide) (fun t _ => ?_) ?_)
  · exact .bind (placed_expr .default) (runs_expr _) fun e w he => .pure (he.after [t])
  · exact .pure (.nil [])

/-- What is repeated lies side by side. -/
theorem placed_many {tree : α → SpanTree} {p : Parse α} {more : State → Bool} {m : Kind → Bool}
    (hm : ∀ s, more s = m s.kind) (h : Placed (fun a => [tree a]) p) :
    Placed (fun as => as.map tree) (many more p) :=
  (Takes.many hm h).mono fun _ _ heach => heach.fits

theorem placed_braced {tree : α → SpanTree} {p : Parse α} (h : Placed (fun a => [tree a]) p) :
    Placed (fun as => as.map tree) (many beforeCloseCurly p) :=
  placed_many (m := fun c => c ≠ .eof && c ≠ .closeCurly) (fun _ => rfl) h

/-- The span goes from the expression to the semicolon. -/
theorem placed_expressionStmt : Placed (fun s => [s.spanTree]) expressionStmt := by
  refine .of_after (.bind (placed_expr .default) (runs_expr _) fun e w he => ?_)
  refine .expect (by decide) fun c _ => .spanFrom (stopOf?_concat _ _) (.pure ?_)
  have hfits := he.before [c]
  have hnode := hfits.node hfits.startsAt_first (stopOf?_concat w c)
  rwa [Expr.span_spanTree] at hnode

/-- A local begins with its type. -/
theorem placed_localStmt : Placed (fun s => [s.spanTree]) localStmt := by
  refine .of_after (.position fun start => ?_)
  refine .bind (placed_typeRef .default) (runs_typeRef _) fun type u htype => ?_
  refine .expectDescribed (by decide) fun n _ => ?_
  refine .bind placed_initialValue runs_initialValue fun value v hvalue => ?_
  refine .expect (by decide) fun c _ => .modifyScope ?_
  refine .spanFrom (stopOf?_concat _ _) (.pure fun hstart => ?_)
  have hfits := ((htype.before [n]).append hvalue).before [c]
  exact hfits.node (hfits.startsAt (hstart (by simp))) (stopOf?_concat _ _)

/-- A local or an expression, whichever it looks like. -/
theorem placed_plainStmt : Placed (fun s => [s.spanTree]) plainStmt := by
  refine .get fun s => ?_
  split
  · exact placed_localStmt
  · exact placed_expressionStmt

theorem placed_returnStmt : Placed (fun s => [s.spanTree]) returnStmt := by
  refine .of_after (.expect (by decide) fun t _ => ?_)
  have hrest {K : Kind → Prop} (value : Option Expr) {w : List Token}
      (h : Fits (value.toList.map Expr.spanTree) w) :
      TakesAfter ([t] ++ w) K (fun s w => Fits [s.spanTree] w)
        (do let _ ← expect .semicolon; return Stmt.return value (← spanFrom t.span.start)) := by
    refine .expect (by decide) fun c _ => .spanFrom (stopOf?_concat _ _) (.pure ?_)
    have hfits := (h.after [t]).before [c]
    exact hfits.node (hfits.startsAt (startOf?_cons t _)) (stopOf?_concat _ _)
  refine .kind fun c => ?_
  simp only [pure_bind, bind_map_left]
  refine .ite (hrest none (.nil [])) ?_
  exact .bind (placed_expr .default) (runs_expr _) fun e w he => hrest (some e) he

/-- The mark of a branch or loop spans all that was read of it. -/
theorem placed_unsupported {K : Kind → Prop} {front : List Token} {start : Position}
    (hstart : startOf? front = some start) (construct : Unsupported) :
    TakesAfter front K (fun s w => Fits [s.spanTree] w)
      (do return Stmt.unsupported construct (← spanFrom start)) := by
  obtain ⟨stop, hstop⟩ : ∃ stop, stopOf? front = some stop := by
    refine exists_stopOf? ?_
    rintro rfl
    cases hstart
  have hfits := Fits.nil front
  exact .spanFrom hstop (.pure (hfits.node (hfits.startsAt hstart) hstop))

section

variable {item : Parse Stmt} (hruns : Runs item)

include hruns

/-- From the word to the end of the last branch. -/
theorem placed_ifStmt : Placed (fun s => [s.spanTree]) (ifStmt item) := by
  refine .of_after (.expect (by decide) fun t _ => ?_)
  refine .bind (.of_runs runs_condition) runs_condition fun _ u _ => ?_
  refine .bind (.of_runs hruns) hruns fun _ v _ => .accept (by decide) (fun e _ => ?_) ?_
  · exact .bind (.of_runs hruns) hruns fun _ v' _ => placed_unsupported rfl .ifElse
  · exact placed_unsupported rfl .ifElse

theorem placed_whileStmt : Placed (fun s => [s.spanTree]) (whileStmt item) := by
  refine .of_after (.expect (by decide) fun t _ => ?_)
  refine .bind (.of_runs runs_condition) runs_condition fun _ u _ => ?_
  exact .bind (.of_runs hruns) hruns fun _ v _ => placed_unsupported rfl .whileLoop

theorem placed_forStmt : Placed (fun s => [s.spanTree]) (forStmt item) := by
  refine .of_after (.expect (by decide) fun t _ => .expect (by decide) fun o _ => ?_)
  have hrest {K : Kind → Prop} (front : List Token) :
      TakesAfter (t :: front) K (fun s w => Fits [s.spanTree] w) (do
        optionalBefore .semicolon
        optionalBefore .closeParen
        let _ ← item
        return Stmt.unsupported .forLoop (← spanFrom t.span.start)) := by
    refine .bind (.of_runs (runs_optionalBefore _)) (runs_optionalBefore _) fun _ u _ => ?_
    refine .bind (.of_runs (runs_optionalBefore _)) (runs_optionalBefore _) fun _ v _ => ?_
    exact .bind (.of_runs hruns) hruns fun _ w _ => placed_unsupported rfl .forLoop
  refine .accept (by decide) (fun c _ => hrest _) ?_
  exact .bind (.of_runs runs_plainStmt) runs_plainStmt fun _ w _ => hrest _

variable (h : Placed (fun s => [s.spanTree]) item)

include h

/-- From one brace to the other. -/
theorem placed_blockOf : Placed (fun b => [b.spanTree]) (blockOf item) := by
  refine .of_after (.expect (by decide) fun o _ => ?_)
  refine .bind (placed_braced h) hruns.many fun body w hbody => ?_
  refine .expect (by decide) fun c _ => .spanFrom (stopOf?_concat _ _) (.pure ?_)
  have hfits := (hbody.after [o]).before [c]
  exact hfits.node (hfits.startsAt (startOf?_cons o _)) (stopOf?_concat _ _)

/-- Every form of a statement, given what holds of those inside. -/
theorem placed_stmtOf : Placed (fun s => [s.spanTree]) (stmtOf item) := by
  refine .kind fun c => ?_
  split
  · exact placed_returnStmt
  · exact placed_ifStmt hruns
  · exact placed_whileStmt hruns
  · exact placed_forStmt hruns
  · refine (placed_blockOf hruns h).bind fun block w hblock => .pure ?_
    simp only [List.append_nil, Stmt.spanTree, Stmt.spanTrees_eq_map]
    exact hblock
  · exact placed_plainStmt

end

/-- By induction on the depth that is left. -/
theorem placed_stmtWithin (budget : Nat) : Placed (fun s => [s.spanTree]) (stmtWithin budget) := by
  induction budget with
  | zero => exact .tooDeep
  | succ budget ih =>
    refine .after .deepen fun _ => ?_
    refine (placed_stmtOf (runs_stmtWithin budget) ih).bind fun s w hs => ?_
    refine .after (.surface 1) fun _ => .pure ?_
    rwa [List.append_nil]

theorem placed_block : Placed (fun b => [b.spanTree]) block :=
  placed_blockOf (.of_rule fun hP => hP.stmt) fun s => placed_stmtWithin s.budget s

/-! ### Members -/

theorem placed_parameter : Placed (fun p => [p.spanTree]) parameter := by
  refine .of_after (.position fun start => ?_)
  refine .bind (placed_typeRef .default) (runs_typeRef _) fun type u htype => ?_
  refine .expectDescribed (by decide) fun n _ => ?_
  refine .bind placed_initialValue runs_initialValue fun value v hvalue => .modifyScope ?_
  have hfits := (htype.before [n]).append hvalue
  obtain ⟨stop, hstop⟩ := exists_stopOf? (w := u ++ [n] ++ v) (by simp)
  refine .spanFrom hstop (.pure fun hstart => ?_)
  exact hfits.node (hfits.startsAt (hstart (by simp))) hstop

/-- The parameters lie between the parentheses, one after another. -/
theorem placed_parameters : Placed (fun ps => ps.map Parameter.spanTree) parameters := by
  refine .of_after (.expect (by decide) fun o _ => ?_)
  refine .bind (takes_items placed_parameter) (.of_rule fun hP => hP.commaList hP.parameter)
    fun ps w hps => ?_
  refine .expectDescribed (by decide) fun c _ => .pure ?_
  obtain ⟨parts, hparts, hitems⟩ := hps
  exact ((hitems.fits hparts).after [o]).before [c]

/-- A chained call begins with its colon. -/
theorem placed_constructorChain :
    Placed (fun chain => chain.toList.map ConstructorChain.spanTree) constructorChain := by
  refine .of_after (.kind fun c => ?_)
  split
  · exact .pure (.nil [])
  · rename_i hcolon
    have hcolon := Classical.not_not.1 hcolon
    refine .advance (by rintro _ rfl; simp [hcolon]) fun t _ => ?_
    have hrest (target : ChainTarget) {c : Kind} (hc : c ≠ .eof) :
        TakesAfter [t] (· = c)
          (fun (chain : Option ConstructorChain) w =>
            Fits (chain.toList.map ConstructorChain.spanTree) w) (do
          let _ ← advance
          let arguments ← arguments expr
          return some (ConstructorChain.mk target arguments (← spanFrom t.span.start))) := by
      refine .advance (by rintro _ rfl; exact hc) fun b _ => ?_
      refine .bind placed_arguments (runs_arguments runs_expr) fun arguments w harguments => ?_
      have hfits := harguments.after ([t] ++ [b])
      obtain ⟨stop, hstop⟩ := exists_stopOf? (w := [t] ++ [b] ++ w) (by simp)
      exact .spanFrom hstop (.pure (hfits.node (hfits.startsAt rfl) hstop))
    refine .kind fun c => ?_
    simp only [pure_bind]
    split
    · exact hrest .base (by decide)
    · exact hrest .this (by decide)
    · exact .fail _

/-- If what was read begins at `start`, the spans of the member lie in it. -/
def PlacedFrom (start : Position) (k : Member) (w : List Token) : Prop :=
  (w ≠ [] → startOf? w = some start) → Fits [k.spanTree] w

/-- The name, the parameters, the chained call and the body lie behind the modifiers. -/
theorem placed_constructor {K : Kind → Prop} {front : List Token} (m : Modifiers)
    (start : Position) : TakesAfter front K (PlacedFrom start) (constructor m start) := by
  refine .expect (by decide) fun n _ => ?_
  refine .bind placed_parameters runs_parameters fun ps u hps => ?_
  refine .bind placed_constructorChain (.of_rule fun hP => hP.constructorChain)
    fun chain v hchain => ?_
  refine .bind placed_block runs_block fun body w hbody => ?_
  have hfits := ((hps.after (front ++ [n])).append hchain).append hbody
  obtain ⟨stop, hstop⟩ := exists_stopOf? (w := front ++ [n] ++ u ++ v ++ w) (by simp)
  refine .spanFrom hstop (.pure fun hstart => ?_)
  exact hfits.node (hfits.startsAt (hstart (by simp))) hstop

/-- A body behind an arrow has the span of a block. -/
theorem placed_expressionBody (isVoid : Bool) :
    Placed (fun b => [b.spanTree]) (expressionBody isVoid) := by
  refine .of_after (.expect (by decide) fun t _ => ?_)
  refine .bind (placed_expr .default) (runs_expr _) fun e w he => .expect (by decide) fun c _ => ?_
  -- The statement and the block have one span.
  have hnode {parts : List SpanTree} (h : Fits parts ([t] ++ w ++ [c])) :
      Fits [.node ⟨t.span.start, c.span.stop⟩ parts] ([t] ++ w ++ [c]) :=
    h.node (h.startsAt (startOf?_cons t _)) (stopOf?_concat _ _)
  have hfits := hnode (hnode ((he.after [t]).before [c]))
  refine .spanFrom (stopOf?_concat _ _) (.pure ?_)
  cases isVoid <;> exact hfits

/-- Without a body there is nothing to place. -/
theorem placed_methodBody (isVoid : Bool) :
    Placed (fun b => b.toList.map Block.spanTree) (methodBody isVoid) := by
  refine .of_after (.kind fun c => ?_)
  split
  · exact .advance (by simp) fun t _ => .pure (.nil [t])
  · exact .bind (placed_expressionBody isVoid) (.of_rule fun hP => hP.expressionBody isVoid)
      fun b w hb => .pure hb
  · exact .bind placed_block runs_block fun b w hb => .pure hb

section

variable {K : Kind → Prop} {front : List Token} {type : TypeRef}
  (htype : Fits [type.spanTree] front) (m : Modifiers) (name : String) (start : Position)

include htype

/-- The type and the name of a method stand in `front`. -/
theorem placed_method : TakesAfter front K (PlacedFrom start) (method m type name start) := by
  refine .bind placed_parameters runs_parameters fun ps u hps => ?_
  refine .bind (placed_methodBody _) (.of_rule fun hP => hP.methodBody _) fun body v hbody => ?_
  have hfits := (htype.append hps).append hbody
  obtain ⟨stop, hstop⟩ := exists_stopOf? (w := front ++ u ++ v) (by simp [htype.ne_nil])
  refine .spanFrom hstop (.pure fun hstart => ?_)
  exact hfits.node (hfits.startsAt (hstart (by simp [htype.ne_nil]))) hstop

theorem placed_property : TakesAfter front K (PlacedFrom start) (property m type name start) := by
  have haccessors : Runs (many beforeCloseCurly accessor) :=
    .of_rule fun hP => hP.many hP.accessor
  refine .expect (by decide) fun o _ => .bind (.of_runs haccessors) haccessors fun _ w _ => ?_
  refine .expect (by decide) fun c _ => ?_
  refine .bind placed_initialValue runs_initialValue fun value v hvalue => ?_
  have hfits := (htype.before [o] |>.before w |>.before [c]).append hvalue
  have hne : front ++ [o] ++ w ++ [c] ++ v ≠ [] := by simp
  refine .ite (.expect (by decide) fun d _ => ?_) ?_
  · refine .spanFrom (stopOf?_concat _ _) (.pure fun hstart => ?_)
    have hfits := hfits.before [d]
    exact hfits.node (hfits.startsAt (hstart (by simp))) (stopOf?_concat _ _)
  · obtain ⟨stop, hstop⟩ := exists_stopOf? hne
    exact .spanFrom hstop (.pure fun hstart => hfits.node (hfits.startsAt (hstart hne)) hstop)

theorem placed_field : TakesAfter front K (PlacedFrom start) (field m type name start) := by
  refine .bind placed_initialValue runs_initialValue fun value v hvalue => ?_
  refine .expect (by decide) fun c _ => .spanFrom (stopOf?_concat _ _) (.pure fun hstart => ?_)
  have hfits := (htype.append hvalue).before [c]
  exact hfits.node (hfits.startsAt (hstart (by simp))) (stopOf?_concat _ _)

end

/-- A member begins with its first modifier, or with its type or name. -/
theorem placed_classMember (className : String) :
    Placed (fun k => [k.spanTree]) (classMember className) := by
  refine .of_after (.position fun start => ?_)
  refine .bind (.of_runs runs_modifiers) runs_modifiers fun m u _ => .modifyScope (.get fun _ => ?_)
  refine .ite (placed_constructor m start) ?_
  refine .bind (placed_typeRef .default) (runs_typeRef _) fun type v htype => ?_
  refine .expectDescribed (by decide) fun n _ => .kind fun c => ?_
  have hfits : Fits [type.spanTree] ([] ++ u ++ v ++ [n]) := (htype.after u).before [n]
  split
  · exact placed_method hfits m n.text start
  · exact placed_property hfits m n.text start
  · exact placed_field hfits m n.text start
  · exact placed_field hfits m n.text start
  · exact .fail _

/-! ### Declarations -/

/-- The members of a class lie between its braces. -/
theorem placed_classDecl : Placed (fun c => [c.spanTree]) classDecl := by
  refine .of_after (.position fun start => ?_)
  refine .bind (.of_runs runs_modifiers) runs_modifiers fun m u _ => ?_
  refine .expect (by decide) fun t _ => ?_
  have hbases : Runs baseNames := .of_rule fun hP => hP.baseNames
  refine .expectDescribed (by decide) fun n _ => .bind (.of_runs hbases) hbases fun bases v _ => ?_
  refine .expect (by decide) fun o _ => .after (.nothing fun _ => rfl) (.beginClass _) fun _ => ?_
  refine .bind (placed_braced (placed_classMember _)) (runs_classMember _).many
    fun members w hmembers => ?_
  refine .expect (by decide) fun c _ => .modifyScope ?_
  refine .spanFrom (stopOf?_concat _ _) (.pure fun hstart => ?_)
  have hfits := (hmembers.after ([] ++ u ++ [t] ++ [n] ++ v ++ [o])).before [c]
  exact hfits.node (hfits.startsAt (hstart (by simp))) (stopOf?_concat _ _)

/-- The spans of what a declaration adds to its unit. -/
def Contribution.spanTrees (c : Contribution) : List SpanTree := c.classes.map ClassDecl.spanTree

theorem Contribution.spanTrees_append (a b : Contribution) :
    (a.append b).spanTrees = a.spanTrees ++ b.spanTrees :=
  List.map_append

/-- What declarations add one after another. -/
theorem fits_concat {parts : List Contribution} {w : List Token}
    (h : Each (fun c w => Fits c.spanTrees w) parts w) :
    Fits (Contribution.concat parts).spanTrees w := by
  induction h with
  | nil => exact .nil []
  | @cons c parts w ws hc _ ih =>
    show Fits (c.append (.concat parts)).spanTrees (w ++ ws)
    rw [Contribution.spanTrees_append]
    exact hc.append ih

section

variable {body : Parse (List Contribution)}
  (h : Placed (fun parts => (Contribution.concat parts).spanTrees) body) (hruns : Runs body)

include h hruns

theorem placed_namespaceOf : Placed Contribution.spanTrees (namespaceOf body) := by
  have hname : Runs (dottedName Kind.identifier.describe) := .of_rule fun hP => hP.dottedName _
  intro K
  unfold namespaceOf
  refine .of_after (.expect (by decide) fun t _ => ?_)
  refine .bind (.of_runs hname) hname fun name u _ => ?_
  refine .accept (by decide) (fun c _ => .pure (.nil _)) ?_
  refine .expectDescribed (by decide) fun o _ => ?_
  refine .bind h hruns fun parts v hparts => .expect (by decide) fun c _ => .pure ?_
  rw [Contribution.spanTrees_append]
  exact (hparts.after ([] ++ [t] ++ u ++ [o])).before [c]

/-- The classes of a namespace lie in it. -/
theorem placed_topLevelOf : Placed Contribution.spanTrees (topLevelOf body) := by
  refine .kind fun c => ?_
  split
  · have husing : Runs usingDirective := .of_rule fun hP => hP.usingDirective
    exact (Takes.of_runs husing).bind fun name w _ => .pure (.nil _)
  · exact placed_namespaceOf h hruns
  · refine placed_classDecl.bind fun c w hc => .pure ?_
    rwa [List.append_nil]

end

/-- By induction on the depth that is left. -/
theorem placed_topLevelWithin (budget : Nat) :
    Placed Contribution.spanTrees (topLevelWithin budget) := by
  induction budget with
  | zero => exact placed_topLevelOf .tooDeep .tooDeep
  | succ budget ih =>
    refine placed_topLevelOf ?_ ?_
    · refine .after .deepen fun _ => ?_
      refine (Takes.many (m := fun c => c ≠ .eof && c ≠ .closeCurly) (fun _ => rfl) ih).bind
        fun parts w hparts => .after (.surface 1) fun _ => .pure ?_
      rw [List.append_nil]
      exact fits_concat hparts
    · refine Runs.deepen.bind fun _ => (runs_topLevelWithin budget).many.bind fun _ => ?_
      exact (Runs.surface 1).bind fun _ => .pure _

theorem placed_topLevel : Placed Contribution.spanTrees topLevel :=
  fun {_} s => placed_topLevelWithin s.budget s

/-- The spans of a unit lie in the tokens that were read. If there were none, its span is empty
and stands at the token at hand. -/
theorem fits_compilationUnit {s : State} (hs : s.Ended) (hlast : s.lastStop = none) :
    Outcome (fun unit t => ∃ w, s.tokens = w ++ t.tokens ∧
      (Fits [unit.spanTree] w ∨
        w = [] ∧ unit.spanTree = .node ⟨s.current.span.start, s.current.span.start⟩ [])) anyError
      (compilationUnit s) := by
  have hparts : Placed (fun parts => (Contribution.concat parts).spanTrees)
      (many State.hasTokens topLevel) := by
    intro K
    exact (Takes.many (m := fun c => c ≠ .eof) (fun _ => rfl) placed_topLevel).mono
      fun _ _ => fits_concat
  unfold compilationUnit
  rw [outcome_bind, outcome_position, outcome_bind]
  have hruns : Runs (many State.hasTokens topLevel) := .of_rule fun hP => hP.many hP.topLevel
  have hsteps := hruns.returns (s := s) (t := s) .refl
  refine ((hparts (K := fun _ => True) s hs trivial).and hsteps).mono fun parts t h => ?_
  obtain ⟨⟨w, hw, hfits⟩, hsteps⟩ := h
  obtain ⟨w', hw', hlast'⟩ := hsteps.lastStop
  obtain rfl : w = w' := List.append_cancel_right (hw.symm.trans hw')
  rw [outcome_bind, outcome_spanFrom, outcome_pure, State.spanFrom, hlast', hlast]
  refine ⟨w, hw, ?_⟩
  by_cases hnil : w = []
  · subst hnil
    refine .inr ⟨rfl, ?_⟩
    have hempty : (Contribution.concat parts).spanTrees = [] :=
      Classical.byContradiction fun hne => hfits.ne_nil hne rfl
    exact congrArg (SpanTree.node _) hempty
  · obtain ⟨stop, hstop⟩ := exists_stopOf? hnil
    obtain ⟨x, v, rfl⟩ := List.exists_cons_of_ne_nil hnil
    have hx : s.current = x := (List.cons.inj hw).1
    rw [hstop, hx]
    exact .inl (hfits.node (hfits.startsAt (startOf?_cons x v)) hstop)

end Parse

open Parse

/-- Tokens lie side by side in the source, with blanks between them. -/
theorem ordered_of_tokenize {source : String} {tokens : List Token}
    (h : tokenize source = .ok tokens) : Ordered tokens := by
  have htiles := (Lexes.of_tokensFrom h).tiles
  refine ⟨fun t ht => ?_, htiles.ordered⟩
  obtain ⟨words, stop, rfl, hwords, -, hstop, -⟩ := htiles.ends
  rcases List.mem_append.1 ht with hword | hend
  · have hempty : Text.byteLength [] = Position.start.offset := rfl
    obtain ⟨-, hlt, -⟩ := htiles.slices hempty t ht (hwords t hword)
    exact Nat.le_of_lt hlt
  · obtain rfl := List.mem_singleton.1 hend
    exact Nat.le_of_eq (congrArg Position.offset hstop)

/-- No span of a compiled unit ends before it begins, every span lies within the one of the
node above it, and the spans below one node follow one another. -/
theorem nested_of_compile {source : String} {unit : CompilationUnit}
    (h : compile source = .ok unit) : unit.spanTree.Nested := by
  obtain ⟨tokens, s, htokens, hunit⟩ := compile_eq_ok_iff.1 h
  have hfits := (fits_compilationUnit (ended_ofTokens tokens) rfl).of_eq_ok hunit
  obtain ⟨w, hw, hfits⟩ := hfits
  rcases hfits with hfits | ⟨-, hempty⟩
  · rw [ofTokens_tokens_of_tokenize htokens] at hw
    have hordered := ordered_of_tokenize htokens
    rw [hw] at hordered
    exact hfits.nested hordered.left _ List.mem_cons_self
  · rw [hempty]
    exact .node (Nat.le_refl _) (by simp) List.Pairwise.nil (by simp)

/-- Operands in parentheses, a type with a suffix, a default value, a call to another
constructor, a method on an element across parentheses, and a body that is an expression. -/
theorem nested_of_compile_members :
    ∃ unit, compile
        ("class T : B { HTMLElement e; T(int x = (2)) : base(x, (x)) { (e.Add)((f)++); } } "
          ++ "class U { List<int>? f = (a + (b)).c[(1)]; int G() => -(1) * 2; }") = .ok unit ∧
      (unit.classes.flatMap (·.members)).length = 4 ∧ unit.spanTree.Nested := by
  have hfound : ∃ unit, compile
      ("class T : B { HTMLElement e; T(int x = (2)) : base(x, (x)) { (e.Add)((f)++); } } "
        ++ "class U { List<int>? f = (a + (b)).c[(1)]; int G() => -(1) * 2; }") = .ok unit ∧
      (unit.classes.flatMap (·.members)).length = 4 :=
    exists_eq_ok (by decide +kernel)
  obtain ⟨unit, hunit, hlength⟩ := hfound
  exact ⟨unit, hunit, hlength, nested_of_compile hunit⟩

end ClassScript

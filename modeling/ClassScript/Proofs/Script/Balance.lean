import ClassScript.Proofs.Parse.Declarations
import ClassScript.Proofs.Script.Brackets
import ClassScript.Proofs.Script.Spelling
import ClassScript.Script.Program

/-!
# Emitted programs are balanced

The script of every source that compiles has its brackets balanced
(`neutral_program`). Expressions are neutral form by form. A statement, a member or
a class is emitted as lines of which one opens a brace and another closes it, so
for lines it is lists of them that are neutral, whatever the width of the
indentation.
-/

namespace ClassScript.Script

open Brackets

/-! ### Names -/

/-- A name has neither brackets nor quotes. -/
theorem neutral_of_isName {name : String} (h : IsName name) : Neutral name :=
  neutral_of_isInert (isInert_of_isName h)

theorem neutral_of_isDottedName {name : String} (h : IsDottedName name) : Neutral name :=
  neutral_of_isInert (isInert_of_isDottedName h)

/-- A name that is escaped only gets an underscore. -/
theorem neutral_bindingName {name : String} (h : Neutral name) : Neutral (bindingName name) := by
  unfold bindingName
  split
  · exact Neutral.append (leads_ofList rfl) h
  · exact h

/-- The names that a scope puts in front of members are neutral. -/
def NeutralScope (scope : Option Scope) : Prop :=
  ∀ s, scope = some s → Neutral s.className

/-- A bare name may be written behind the instance or the class. -/
theorem neutral_resolve {scope : Option Scope} {name : String} (hscope : NeutralScope scope)
    (h : Neutral name) : Neutral (resolve scope name) := by
  cases scope with
  | none => exact h
  | some s =>
    show Neutral (s.resolve name)
    unfold Scope.resolve
    split
    · exact neutral_bindingName h
    split
    · exact Neutral.append (leads_ofList rfl) h
    split
    · exact ((hscope s rfl).append (leads_ofList rfl)).append h
    · exact h

/-- Of the ASCII characters only the capital letters have other lower-case letters. -/
theorem caseRuns_ascii : ∀ run ∈ Text.caseRuns.toList,
    0x80 ≤ run.first ∨ (run.first = 0x41 ∧ run.last = 0x5A ∧ run.shift = 32) := by
  decide +kernel

/-- Lower case makes no bracket of a letter. -/
theorem isInert_lowercase {c : Char} (h : Pattern.isWordPart c = true) :
    ∀ d ∈ Text.lowercase c, isInert d = true := by
  obtain ⟨-, hle⟩ := toNat_of_isWordPart h
  unfold Text.lowercase
  rw [if_neg (by omega)]
  split
  · rename_i run hrun
    have hmem := Array.mem_of_find?_eq_some hrun
    have hcontains := Array.find?_some hrun
    simp only [Text.CaseRun.contains, Bool.and_eq_true, decide_eq_true_eq] at hcontains
    rcases caseRuns_ascii run (Array.mem_toList_iff.2 hmem) with hfirst | ⟨hfirst, hlast, hshift⟩
    · omega
    · have hletters : ∀ n < 0x5B, 0x41 ≤ n → isInert (Char.ofNat (n + 32)) = true := by decide
      have hshifted : (c.toNat + run.shift).toNat = c.toNat + 32 := by omega
      intro d hd
      rw [List.mem_singleton.1 hd, hshifted]
      exact hletters c.toNat (by omega) (by omega)
  · simpa using isInert_of_isWordPart h

/-- The member of an element is a name, with its first letter in lower case. -/
theorem neutral_memberName {name : String} (h : IsName name) : Neutral (Dom.memberName name) := by
  obtain ⟨c, cs, hcs, hc, hrest⟩ := h.1
  refine neutral_of_isInert ?_
  rw [Dom.memberName, hcs, String.toList_ofList]
  intro d hd
  rcases List.mem_append.1 hd with hd | hd
  · exact isInert_lowercase (isWordPart_of_isWordStart hc) d hd
  · exact isInert_of_isWordPart (hrest d hd)

/-! ### Expressions -/

/-- A call: what is called and an opening parenthesis, the arguments, and a closing
parenthesis. -/
theorem neutral_call {front : String} {texts : List String}
    (hfront : Leads front (outside []) (outside ['('])) (h : ∀ text ∈ texts, Neutral text) :
    Neutral (front ++ commaJoined texts ++ ")") :=
  .between ['('] hfront (neutral_commaJoined h) (leads_ofList rfl)

/-- Two texts with an operator between them. -/
theorem neutral_operation {left op right : String} (hleft : Neutral left) (hop : Neutral op)
    (hright : Neutral right) : Neutral (left ++ " " ++ op ++ " " ++ right) := by
  have hspace : Neutral " " := leads_ofList rfl
  exact (((hleft.append hspace).append hop).append hspace).append hright

theorem neutral_exprTexts {scope : Option Scope} {es : List Expr}
    (h : ∀ e ∈ es, Neutral (exprText scope e)) : ∀ text ∈ exprTexts scope es, Neutral text := by
  intro text htext
  rw [exprTexts_eq_map] at htext
  obtain ⟨e, he, rfl⟩ := List.mem_map.1 htext
  exact h e he

/-- The text of an expression that was read is balanced, by induction on the expression. -/
theorem neutral_exprText {scope : Option Scope} {e : Expr} (hscope : NeutralScope scope)
    (h : e.All Expr.WellRead) : Neutral (exprText scope e) := by
  revert h
  induction e using Expr.induction_children with
  | step e ih =>
    intro h
    have hread := h.self
    have ih : ∀ c ∈ e.children, Neutral (exprText scope c) := fun c hc => ih c hc (h.child hc)
    have hopen : ∀ {text : String}, Neutral text →
        Leads (text ++ "(") (outside []) (outside ['(']) :=
      fun htext => Leads.append htext (leads_ofList rfl)
    cases e with
    | identifier name span => exact neutral_resolve hscope (neutral_of_isName hread)
    | literal value span => exact neutral_literalText value
    | binary op left right span =>
      have hop : Neutral op.spelling := by cases op <;> decide
      exact neutral_operation
        (neutral_parenthesized (wrapsLeft op left) (ih left (by simp [Expr.children]))) hop
        (neutral_parenthesized (wrapsRight op right) (ih right (by simp [Expr.children])))
    | unary op operand span =>
      have hop : Neutral op.spelling := by cases op <;> decide
      exact hop.append (neutral_parenthesized _
        (neutral_parenthesized _ (ih operand (by simp [Expr.children]))))
    | update op operand span =>
      have hop : Neutral op.spelling := by cases op <;> decide
      exact (neutral_parenthesized _ (ih operand (by simp [Expr.children]))).append hop
    | assign op target value span =>
      have hop : Neutral op.spelling := by cases op <;> decide
      exact neutral_operation (ih target (by simp [Expr.children])) hop
        (ih value (by simp [Expr.children]))
    | call callee arguments span =>
      have hcallee := neutral_parenthesized (wrapsObject callee)
        (ih callee (by simp [Expr.children]))
      exact neutral_call (hopen hcallee)
        (neutral_exprTexts fun e he => ih e (by simp [Expr.children, he]))
    | member object name nameSpan span =>
      have hobject := neutral_parenthesized (wrapsObject object)
        (ih object (by simp [Expr.children]))
      exact (hobject.append (leads_ofList rfl : Neutral ".")).append (neutral_of_isName hread)
    | index object key span =>
      have hobject := neutral_parenthesized (wrapsObject object)
        (ih object (by simp [Expr.children]))
      have hfront : Leads (parenthesized (wrapsObject object) (exprText scope object) ++ "[")
        (outside []) (outside ['[']) := Leads.append hobject (leads_ofList rfl)
      exact .between ['['] hfront (ih key (by simp [Expr.children])) (leads_ofList rfl)
    | this span => exact (leads_ofList rfl : Neutral "this")
    | base span => exact (leads_ofList rfl : Neutral "super")
    | create type arguments span =>
      have hnew : Neutral "new " := leads_ofList rfl
      have hname := hnew.append (neutral_of_isDottedName hread.1)
      exact neutral_call (hopen hname) (neutral_exprTexts ih)
    | hostCall path arguments span =>
      exact neutral_call (leads_ofList rfl : Leads "__Interop.call(" (outside []) (outside ['(']))
        (List.forall_mem_cons.2 ⟨neutral_quoted path, neutral_exprTexts ih⟩)
    | hostSet object property value span =>
      exact neutral_call (leads_ofList rfl : Leads "__Interop.set(" (outside []) (outside ['(']))
        (neutral_exprTexts (show ∀ e ∈ [object, property, value], _ from ih))
    | domCreate element arguments span =>
      have hnew : Neutral "new __Dom." := leads_ofList rfl
      have hname := hnew.append (neutral_of_isDottedName hread)
      exact neutral_call (hopen hname) (neutral_exprTexts ih)
    | domProperty object property span =>
      have hfront : Leads "__Dom.unwrap(" (outside []) (outside ['(']) := leads_ofList rfl
      have hback : Leads ")." (outside ['(']) (outside []) := leads_ofList rfl
      have hunwrap := Neutral.between ['('] hfront (ih object (by simp [Expr.children])) hback
      exact hunwrap.append (neutral_memberName hread)
    | domCall object method arguments span =>
      exact neutral_call (leads_ofList rfl : Leads "__Dom.invoke(" (outside []) (outside ['(']))
        (List.forall_mem_cons.2 ⟨ih object (by simp [Expr.children]),
          List.forall_mem_cons.2 ⟨neutral_quoted _,
            neutral_exprTexts fun e he => ih e (by simp [Expr.children, he])⟩⟩)

/-! ### Lines -/

/-- The text of the lines is neutral, however wide a level of indentation is. -/
def NeutralLines (lines : List Line) : Prop :=
  ∀ width, Neutral (renderLines width lines)

theorem neutralLines_nil : NeutralLines [] := fun _ => neutral_empty

/-- Blocks of lines are put together. -/
theorem NeutralLines.append {lines lines' : List Line} (h : NeutralLines lines)
    (h' : NeutralLines lines') : NeutralLines (lines ++ lines') := by
  intro width
  rw [renderLines_append]
  exact (h width).append (h' width)

theorem NeutralLines.cons {line : Line} {lines : List Line} (h : NeutralLines [line])
    (h' : NeutralLines lines) : NeutralLines (line :: lines) :=
  h.append h'

theorem neutral_blanks (n : Nat) : Neutral (blanks n) := by
  refine neutral_of_isInert ?_
  rw [blanks, String.toList_ofList]
  intro c hc
  rw [List.eq_of_mem_replicate hc]
  decide

theorem neutral_lineEnd : Neutral "\n" := leads_ofList rfl

/-- Indentation and the end of the line add nothing to what the text of a line does. -/
theorem leads_render {text : String} {opened opened' : List Char} (level width : Nat)
    (h : Leads text (outside opened) (outside opened')) :
    Leads ((Line.code level text).render width) (outside opened) (outside opened') :=
  (((neutral_blanks _).leads opened).append h).append (neutral_lineEnd.leads opened')

theorem neutralLines_blank : NeutralLines [.blank] := by
  intro width
  exact neutral_lineEnd.append neutral_empty

/-- The indentation of a line does not matter. -/
theorem neutralLines_code {text : String} (level : Nat) (h : Neutral text) :
    NeutralLines [.code level text] := by
  intro width
  exact Neutral.append (leads_render level width h) neutral_empty

/-- Lines between one that ends in an opening brace and a closing brace. -/
theorem neutralLines_block {header : String} {body : List Line} (level level' : Nat)
    (hheader : Leads header (outside []) (outside ['{'])) (hbody : NeutralLines body) :
    NeutralLines (.code level header :: body ++ [.code level' "\x7d"]) := by
  intro width
  rw [List.cons_append, renderLines, renderLines_append]
  have hclose : Leads (renderLines width [.code level' "\x7d"]) (outside ['{']) (outside []) :=
    (leads_render level' width (leads_ofList rfl)).append neutral_empty
  exact (leads_render level width hheader).append (((hbody width).leads _).append hclose)

theorem neutralLines_flatMap {α : Type} {f : α → List Line} {xs : List α}
    (h : ∀ x ∈ xs, NeutralLines (f x)) : NeutralLines (xs.flatMap f) := by
  induction xs with
  | nil => exact neutralLines_nil
  | cons x xs ih =>
    obtain ⟨hx, hxs⟩ := List.forall_mem_cons.1 h
    exact hx.append (ih hxs)

theorem neutralLines_map {α : Type} {f : α → Line} {xs : List α}
    (h : ∀ x ∈ xs, NeutralLines [f x]) : NeutralLines (xs.map f) := by
  rw [List.map_eq_flatMap]
  exact neutralLines_flatMap h

/-- Blank lines between sections change nothing. -/
theorem neutralLines_separated {sections : List (List Line)}
    (h : ∀ lines ∈ sections, NeutralLines lines) : NeutralLines (separated sections) := by
  induction sections with
  | nil => exact neutralLines_nil
  | cons lines sections ih =>
    obtain ⟨hlines, hsections⟩ := List.forall_mem_cons.1 h
    cases sections with
    | nil => exact hlines
    | cons lines' sections => exact hlines.append (neutralLines_blank.append (ih hsections))

/-! ### Statements -/

/-- What is known of the expressions and the names of a part of a unit. -/
structure Emittable (es : List Expr) (ns : List String) : Prop where
  expressions : ∀ e ∈ es, e.All Expr.WellRead
  names : ∀ n ∈ ns, ∀ c ∈ n.toList, isInert c = true

/-- What is known of a whole is known of its parts. -/
theorem Emittable.mono {es es' : List Expr} {ns ns' : List String} (h : Emittable es ns)
    (hes : es' ⊆ es) (hns : ns' ⊆ ns) : Emittable es' ns' :=
  ⟨fun e he => h.expressions e (hes he), fun n hn => h.names n (hns hn)⟩

theorem Emittable.neutral {es : List Expr} {ns : List String} (h : Emittable es ns) {n : String}
    (hn : n ∈ ns) : Neutral n :=
  neutral_of_isInert (h.names n hn)

/-- The text of an expression of the part is neutral, in any class of the part. -/
theorem Emittable.neutral_exprText {es : List Expr} {ns : List String} {scope : Scope} {e : Expr}
    (h : Emittable es ns) (hscope : Neutral scope.className) (he : e ∈ es) :
    Neutral (exprText scope e) := by
  refine Script.neutral_exprText ?_ (h.expressions e he)
  intro s hs
  cases hs
  exact hscope

mutual

/-- By induction on the statement. The scope changes from statement to statement, but not the
name of its class. -/
theorem neutralLines_stmt (level : Nat) (scope : Scope) (hscope : Neutral scope.className) :
    (s : Stmt) → Emittable s.expressions s.names →
      NeutralLines (stmtLines level scope s).1 ∧
        (stmtLines level scope s).2.className = scope.className
  | .block body _, h => by
    obtain ⟨hlines, hname⟩ := neutralLines_stmts (level + 1) scope hscope body h
    exact ⟨neutralLines_block level level (leads_ofList rfl) hlines, hname⟩
  | .expression e _, h => by
    have he := h.neutral_exprText hscope (show e ∈ [e] by simp)
    exact ⟨neutralLines_code level (he.append (leads_ofList rfl)), rfl⟩
  | .variable _ name none _, h => by
    have hname := neutral_bindingName (h.neutral (show name ∈ [name] by simp))
    refine ⟨neutralLines_code level ?_, rfl⟩
    exact ((leads_ofList rfl : Neutral "let ").append hname).append (leads_ofList rfl)
  | .variable _ name (some value) _, h => by
    have hname := neutral_bindingName (h.neutral (show name ∈ [name] by simp))
    have hvalue := h.neutral_exprText hscope (show value ∈ [value] by simp)
    refine ⟨neutralLines_code level ?_, rfl⟩
    exact ((((leads_ofList rfl : Neutral "let ").append hname).append
      (leads_ofList rfl : Neutral " = ")).append hvalue).append (leads_ofList rfl)
  | .return none _, _ => ⟨neutralLines_code level (leads_ofList rfl), rfl⟩
  | .return (some value) _, h => by
    have hvalue := h.neutral_exprText hscope (show value ∈ [value] by simp)
    exact ⟨neutralLines_code level (((leads_ofList rfl : Neutral "return ").append hvalue).append
      (leads_ofList rfl)), rfl⟩
  | .unsupported construct _, _ => by
    refine ⟨neutralLines_code level ?_, rfl⟩
    cases construct <;> decide

theorem neutralLines_stmts (level : Nat) (scope : Scope) (hscope : Neutral scope.className) :
    (ss : List Stmt) → Emittable (Stmt.expressionsOf ss) (Stmt.namesOf ss) →
      NeutralLines (stmtsLines level scope ss).1 ∧
        (stmtsLines level scope ss).2.className = scope.className
  | [], _ => ⟨neutralLines_nil, rfl⟩
  | s :: ss, h => by
    obtain ⟨hfirst, hname⟩ := neutralLines_stmt level scope hscope s
      (h.mono (List.subset_append_left _ _) (List.subset_append_left _ _))
    have hothers := neutralLines_stmts level (stmtLines level scope s).2
      (by rw [hname]; exact hscope) ss
      (h.mono (List.subset_append_right _ _) (List.subset_append_right _ _))
    exact ⟨hfirst.append hothers.1, hothers.2.trans hname⟩

end

/-! ### Members -/

/-- The line that opens the body of a member with parameters. -/
theorem leads_signature {front parameters : String}
    (hfront : Leads front (outside []) (outside ['('])) (h : Neutral parameters) :
    Leads (front ++ parameters ++ ") \x7b") (outside []) (outside ['{']) :=
  (hfront.append (h.leads _)).append (leads_ofList rfl)

theorem className_declareParameters (scope : Scope) (parameters : List Parameter) :
    (scope.declareParameters parameters).className = scope.className := by
  unfold Scope.declareParameters
  induction parameters generalizing scope with
  | nil => rfl
  | cons p parameters ih =>
    rw [List.foldl_cons, ih]
    rfl

section

variable {es : List Expr} {ns : List String} {scope : Scope} {c : ClassDecl}

/-- Parameters are names with first values behind some of them. -/
theorem neutral_parametersText {parameters : List Parameter} (h : Emittable es ns)
    (hscope : Neutral scope.className)
    (hes : parameters.flatMap (·.defaultValue.toList) ⊆ es)
    (hns : parameters.map Parameter.name ⊆ ns) : Neutral (parametersText scope parameters) := by
  refine neutral_commaJoined ?_
  intro text htext
  obtain ⟨p, hp, rfl⟩ := List.mem_map.1 htext
  have hname := neutral_bindingName (h.neutral (hns (List.mem_map_of_mem hp)))
  unfold parameterText
  split
  · rename_i e he
    have hmem : e ∈ es := hes (List.mem_flatMap.2 ⟨p, hp, by simp [he]⟩)
    exact (hname.append (leads_ofList rfl)).append (h.neutral_exprText hscope hmem)
  · exact hname

/-- The lines of a body, between the braces that belong to the line before them. -/
theorem neutralLines_body (level : Nat) {block : Block} (h : Emittable es ns)
    (hscope : Neutral scope.className) (hes : block.expressions ⊆ es) (hns : block.names ⊆ ns) :
    NeutralLines (bodyLines level scope block) :=
  (neutralLines_stmts level scope hscope block.body (h.mono hes hns)).1

/-- The call of the base class's constructor, or the comment in the place of another call. -/
theorem neutralLines_chain (level : Nat) (hasBase : Bool) {chain : Option ConstructorChain}
    (h : Emittable es ns) (hscope : Neutral scope.className)
    (hes : chain.toList.flatMap (·.arguments) ⊆ es) :
    NeutralLines (chainLines level scope hasBase chain) := by
  have hsuper : NeutralLines (if hasBase then [Line.code level "super();"] else []) := by
    split
    · exact neutralLines_code level (leads_ofList rfl)
    · exact neutralLines_nil
  unfold chainLines
  split
  · exact hsuper
  · rename_i arguments span
    split
    · have harguments : ∀ e ∈ arguments, Neutral (exprText scope e) := fun e he =>
        h.neutral_exprText hscope (hes (by simpa using he))
      refine neutralLines_code level (.between ['('] (leads_ofList rfl) ?_ (leads_ofList rfl))
      exact neutral_commaJoined (neutral_exprTexts harguments)
    · exact neutralLines_nil
  · exact hsuper.append (neutralLines_code level (leads_ofList rfl))

/-- What is known of a class is known of each of its members. -/
theorem Emittable.member {m : Member} (h : Emittable c.expressions c.names) (hm : m ∈ c.members) :
    Emittable m.expressions m.names := by
  refine h.mono (fun e he => List.mem_flatMap.2 ⟨m, hm, he⟩) fun n hn => ?_
  exact List.mem_append_right _ (List.mem_flatMap.2 ⟨m, hm, hn⟩)

/-- A class is one of the names of its part. -/
theorem Emittable.className (h : Emittable c.expressions c.names) :
    Neutral (Scope.ofClass c).className :=
  h.neutral List.mem_cons_self

/-- The signature of a constructor opens the brace that its last line closes. -/
theorem neutralLines_constructor {level : Nat} {k : Constructor}
    (h : Emittable c.expressions c.names) (hk : Member.constructor k ∈ c.members) :
    NeutralLines (constructorLines level c k) := by
  have hmember := h.member hk
  have hscope : Neutral ((Scope.ofClass c).declareParameters k.parameters).className := by
    rw [className_declareParameters]
    exact h.className
  have hparameters := neutral_parametersText hmember hscope
    (fun e he => by simp only [Member.expressions, List.mem_append]; exact .inl (.inl he))
    (fun n hn => by simp only [Member.names, List.mem_append, List.mem_cons]; exact .inl (.inr hn))
  have hchain := neutralLines_chain (level + 1) c.baseClass.isSome hmember hscope
    (fun e he => by simp only [Member.expressions, List.mem_append]; exact .inl (.inr he))
  have hbody := neutralLines_body (level + 1) hmember hscope
    (fun e he => by simp only [Member.expressions, List.mem_append]; exact .inr he)
    (fun n hn => by simp only [Member.names, List.mem_append]; exact .inr hn)
  exact neutralLines_block level level (leads_signature (leads_ofList rfl) hparameters)
    (hchain.append hbody)

theorem neutral_staticWord (isStatic : Bool) : Neutral (staticWord isStatic) := by
  cases isStatic <;> decide

/-- The same of a method. -/
theorem neutralLines_method {level : Nat} {m : Method} (h : Emittable c.expressions c.names)
    (hm : Member.method m ∈ c.members) : NeutralLines (methodLines level c m) := by
  have hmember := h.member hm
  have hname : m.name ∈ (Member.method m).names := List.mem_cons_self
  have hscope : Neutral ((Scope.ofClass c).declareParameters m.parameters).className := by
    rw [className_declareParameters]
    exact h.className
  have hparameters := neutral_parametersText hmember hscope
    (fun e he => by simp only [Member.expressions, List.mem_append]; exact .inl he)
    (fun n hn => by simp only [Member.names, List.mem_append, List.mem_cons]; exact .inl (.inr hn))
  have hfront : Leads (staticWord m.isStatic ++ m.name ++ "(") (outside []) (outside ['(']) :=
    Leads.append ((neutral_staticWord _).append (hmember.neutral hname)) (leads_ofList rfl)
  refine neutralLines_block level level (leads_signature hfront hparameters) ?_
  split
  · rename_i block hblock
    exact neutralLines_body (level + 1) hmember hscope
      (fun e he => by simp [Member.expressions, hblock, he])
      (fun n hn => by simp [Member.names, hblock, hn])
  · -- The names of the class and the method stand inside of a string.
    refine neutralLines_code (level + 1) ?_
    have hclass := (scan_of_isInert (h.names c.name List.mem_cons_self) ['(']).2
    have hmethod := (scan_of_isInert (hmember.names m.name hname) ['(']).2
    have hopen : Leads "throw new Error(\"" (outside []) (inString ['(']) := leads_ofList rfl
    have hpoint : Leads "." (inString ['(']) (inString ['(']) := leads_ofList rfl
    have hclose : Leads " is not implemented\");" (inString ['(']) (outside []) := leads_ofList rfl
    exact (((hopen.append hclass).append hpoint).append hmethod).append hclose

/-- A property has up to two accessors, each with its own braces. -/
theorem neutralLines_accessor {level : Nat} {p : Property} (h : Neutral p.name) :
    NeutralLines (accessorLines level p) := by
  have hheader : ∀ {word parameters : String}, Neutral word →
      Leads parameters (outside []) (outside ['{']) →
      Leads (staticWord p.isStatic ++ word ++ p.name ++ parameters) (outside []) (outside ['{']) :=
    fun hword hparameters =>
      Leads.append (((neutral_staticWord p.isStatic).append hword).append h) hparameters
  have hget : Leads (staticWord p.isStatic ++ "get " ++ p.name ++ "() \x7b") (outside [])
      (outside ['{']) := hheader (leads_ofList rfl) (leads_ofList rfl)
  have hset : Leads (staticWord p.isStatic ++ "set " ++ p.name ++ "(value) \x7b") (outside [])
      (outside ['{']) := hheader (leads_ofList rfl) (leads_ofList rfl)
  have hslot : Neutral (backingSlot p.name) := (leads_ofList rfl : Neutral "__").append h
  have hreturn : Neutral ("return this." ++ backingSlot p.name ++ ";") :=
    ((leads_ofList rfl : Neutral "return this.").append hslot).append (leads_ofList rfl)
  have hassign : Neutral ("this." ++ backingSlot p.name ++ " = value;") :=
    ((leads_ofList rfl : Neutral "this.").append hslot).append (leads_ofList rfl)
  have hgetter := neutralLines_block level level hget (neutralLines_code (level + 1) hreturn)
  have hsetter := neutralLines_block level level hset (neutralLines_code (level + 1) hassign)
  have hall := hgetter.append (neutralLines_blank.append hsetter)
  simp only [List.cons_append, List.nil_append] at hall
  exact hall

/-! ### Classes -/

/-- The value of a field without one is a literal. -/
theorem neutral_defaultValue (type : TypeRef) : Neutral (defaultValue type) := by
  unfold defaultValue
  split
  · decide
  split <;> decide

/-- A slot has the name of its member, or one made from it. -/
theorem neutral_slot {slot : Slot} (h : Emittable c.expressions c.names)
    (hslot : slot ∈ c.members.filterMap slot?) :
    Neutral slot.name ∧ Neutral (slot.value (Scope.ofClass c)) := by
  obtain ⟨m, hm, hmslot⟩ := List.mem_filterMap.1 hslot
  have hmember := h.member hm
  have hvalue : slot.initializer.toList ⊆ m.expressions →
      Neutral (slot.value (Scope.ofClass c)) := by
    intro hsubset
    unfold Slot.value
    split
    · rename_i e he
      exact hmember.neutral_exprText h.className (hsubset (by simp [he]))
    · exact neutral_defaultValue _
  cases m with
  | field f =>
    cases hmslot
    exact ⟨hmember.neutral List.mem_cons_self, hvalue fun e he => he⟩
  | property p =>
    cases hmslot
    have hname := hmember.neutral (List.mem_cons_self (a := p.name) (l := []))
    exact ⟨(leads_ofList rfl : Neutral "__").append hname, hvalue fun e he => he⟩
  | method m => cases hmslot
  | constructor k => cases hmslot

/-- Each section of a class is neutral by itself. -/
theorem neutralLines_classSections (level : Nat) (h : Emittable c.expressions c.names) :
    ∀ lines ∈ classSections level c, NeutralLines lines := by
  intro lines hlines
  simp only [classSections, List.mem_append] at hlines
  rcases hlines with ((hlines | hlines) | hlines) | hlines
  · -- The slots of the instances.
    unfold slotSection at hlines
    split at hlines
    · cases hlines
    · rw [List.mem_singleton.1 hlines]
      refine neutralLines_map fun slot hslot => neutralLines_code level ?_
      obtain ⟨hname, hvalue⟩ := neutral_slot h (List.mem_filter.1 hslot).1
      exact ((hname.append (leads_ofList rfl)).append hvalue).append (leads_ofList rfl)
  · -- The first constructor that is not static.
    obtain ⟨k, hk, rfl⟩ := List.mem_map.1 hlines
    have hfound := List.mem_of_find?_eq_some (Option.mem_toList.1 hk)
    obtain ⟨m, hm, hmk⟩ := List.mem_filterMap.1 hfound
    cases m <;> cases hmk
    exact neutralLines_constructor h hm
  · obtain ⟨p, hp, rfl⟩ := List.mem_map.1 hlines
    obtain ⟨m, hm, hmp⟩ := List.mem_filterMap.1 hp
    cases m <;> cases hmp
    exact neutralLines_accessor ((h.member hm).neutral List.mem_cons_self)
  · obtain ⟨m, hm, rfl⟩ := List.mem_map.1 hlines
    obtain ⟨m', hm', hmm⟩ := List.mem_filterMap.1 hm
    cases m' <;> cases hmm
    exact neutralLines_method h hm'

theorem neutralLines_static (h : Emittable c.expressions c.names) :
    NeutralLines (staticLines c) := by
  refine NeutralLines.append ?_ ?_
  · refine neutralLines_map fun slot hslot => neutralLines_code 0 ?_
    obtain ⟨hname, hvalue⟩ := neutral_slot h (List.mem_filter.1 hslot).1
    exact ((((h.className.append (leads_ofList rfl : Neutral ".")).append hname).append
      (leads_ofList rfl : Neutral " = ")).append hvalue).append (leads_ofList rfl)
  · split
    · rename_i k hk
      obtain ⟨m, hm, hmk⟩ := List.mem_filterMap.1 (List.mem_of_find?_eq_some hk)
      cases m <;> cases hmk
      refine neutralLines_block 0 0 (leads_ofList rfl)
        (neutralLines_body 1 (h.member hm) h.className ?_ ?_)
      · intro e he
        simp only [Member.expressions, List.mem_append]
        exact .inr he
      · intro n hn
        simp only [Member.names, List.mem_append]
        exact .inr hn
    · exact neutralLines_nil

/-- The header of a class leaves its brace open. -/
theorem leads_classHeader (h : Emittable c.expressions c.names) :
    Leads (classHeader c) (outside []) (outside ['{']) := by
  have hclass := (leads_ofList rfl : Neutral "class ").append h.className
  unfold classHeader
  split
  · rename_i base hbase
    have hmem : base ∈ c.names := by simp [ClassDecl.names, hbase]
    have hextends : Neutral " extends " := leads_ofList rfl
    exact Leads.append ((hclass.append hextends).append (h.neutral hmem)) (leads_ofList rfl)
  · exact Leads.append hclass (leads_ofList rfl)

/-- The last line of a class closes the brace of its header. -/
theorem neutralLines_class (h : Emittable c.expressions c.names) :
    NeutralLines (classLines c) := by
  have hblock := neutralLines_block 0 0 (leads_classHeader h)
    (neutralLines_separated (neutralLines_classSections 1 h))
  have hall := hblock.append (neutralLines_static h)
  rw [List.append_assoc] at hall
  exact hall

end

/-! ### Programs -/

/-- Lines of fixed text, each with a line end, take a scan from `a` to `b`. -/
inductive LeadsLines : List String → Brackets → Brackets → Prop
  | nil (a : Brackets) : LeadsLines [] a a
  | cons {line : String} {lines : List String} {a b c d : Brackets} : Leads line a b →
      step b '\n' = some c → LeadsLines lines c d → LeadsLines (line :: lines) a d

theorem LeadsLines.append {lines lines' : List String} {a b c : Brackets} (h : LeadsLines lines a b)
    (h' : LeadsLines lines' b c) : LeadsLines (lines ++ lines') a c := by
  induction h with
  | nil => exact h'
  | cons hline hend _ ih => exact .cons hline hend (ih h')

/-- Fixed lines are checked one by one, and so the text they make is not scanned as a whole. -/
theorem LeadsLines.unlines {lines : List String} {a b : Brackets} (h : LeadsLines lines a b) :
    Leads (unlines lines) a b := by
  induction h with
  | nil a => exact rfl
  | cons hline hend _ ih =>
    have hfeed : ∀ b c, step b '\n' = some c → Leads "\n" b c :=
      fun b c h => leads_ofList (by simpa [scan] using h)
    exact (hline.append (hfeed _ _ hend)).append ih

/-- The lines for the element types are alike, so they need no scan of their own. -/
theorem leadsLines_elements {opened : List Char} {entries : List (String × String)}
    (h : ∀ entry ∈ entries,
      entry.1.toList.all isInert = true ∧ entry.2.toList.all isInert = true) :
    LeadsLines (entries.map domElementLine) (outside opened) (outside opened) := by
  induction entries with
  | nil => exact .nil _
  | cons entry entries ih =>
    obtain ⟨⟨htype, htag⟩, hentries⟩ := List.forall_mem_cons.1 h
    have hopen : Leads ": element(\"" (outside []) (inString ['(']) := leads_ofList rfl
    have hclose : Leads "\")," (inString ['(']) (outside []) := leads_ofList rfl
    have hindent : Neutral "        " := leads_ofList rfl
    have htype := neutral_of_isInert (List.all_eq_true.1 htype)
    have hfront := Leads.append (hindent.append htype) hopen
    have hline : Neutral (domElementLine entry) :=
      (hfront.append (scan_of_isInert (List.all_eq_true.1 htag) ['(']).2).append hclose
    exact .cons (hline.leads opened) rfl (ih hentries)

theorem neutral_consoleSupport : Neutral consoleSupport := by
  have hlines : LeadsLines consoleLines (outside []) (outside []) := by
    unfold consoleLines
    repeat refine .cons (leads_ofList rfl) rfl ?_
    exact .nil _
  exact hlines.unlines

theorem neutral_interopSupport : Neutral interopSupport := by
  have hlines : LeadsLines interopLines (outside []) (outside []) := by
    unfold interopLines
    repeat refine .cons (leads_ofList rfl) rfl ?_
    exact .nil _
  exact hlines.unlines

/-- The part of the runtime that builds elements, with a line for each element type. -/
theorem neutral_domSupport : Neutral domSupport := by
  have helements : ∀ entry ∈ Dom.elements,
      entry.1.toList.all isInert = true ∧ entry.2.toList.all isInert = true := by decide +kernel
  -- The element types are listed inside of three brackets.
  have hhead : LeadsLines domHeadLines (outside []) (outside ['{', '{', '(']) := by
    unfold domHeadLines
    repeat refine .cons (leads_ofList rfl) rfl ?_
    exact .nil _
  have htail : LeadsLines domTailLines (outside ['{', '{', '(']) (outside []) := by
    unfold domTailLines
    repeat refine .cons (leads_ofList rfl) rfl ?_
    exact .nil _
  exact ((hhead.append (leadsLines_elements helements)).append htail).unlines

/-- Each part of the runtime is neutral, so any choice of them is. -/
theorem neutral_supportText (features : Features) : Neutral (supportText features) := by
  unfold supportText
  refine (neutral_consoleSupport.append ?_).append ?_
  · split
    · exact neutral_lineEnd.append neutral_interopSupport
    · exact neutral_empty
  · split
    · exact neutral_lineEnd.append neutral_domSupport
    · exact neutral_empty

theorem neutralLines_header {unit : CompilationUnit}
    (h : ∀ name, unit.namespaceName = some name → Neutral name) :
    NeutralLines (headerLines unit) := by
  have hheading : NeutralLines [.code 0 "// Generated by sharpjs. Do not edit."] :=
    neutralLines_code 0 (by decide +kernel)
  refine (hheading.cons ?_).append neutralLines_blank
  cases hname : unit.namespaceName with
  | none => exact neutralLines_nil
  | some name =>
    have hspace : Neutral "// namespace " := leads_ofList rfl
    exact neutralLines_code 0 (hspace.append (h name hname))

theorem neutralLines_entry {unit : CompilationUnit} (h : ∀ c ∈ unit.classes, Neutral c.name) :
    NeutralLines (entryLines unit) := by
  unfold entryLines
  split
  · rename_i c hc
    have hname := h c (List.mem_of_find?_eq_some hc)
    exact neutralLines_blank.append (neutralLines_code 0 (hname.append (leads_ofList rfl)))
  · exact neutralLines_nil

/-- A program is its header, the runtime, its classes and the call of its entry. -/
theorem neutral_program {unit : CompilationUnit} (options : Options)
    (h : Emittable unit.expressions unit.names) : Neutral (program options unit) := by
  have hclass : ∀ c ∈ unit.classes, Emittable c.expressions c.names := by
    intro c hc
    refine h.mono (fun e he => List.mem_flatMap.2 ⟨c, hc, he⟩) fun n hn => ?_
    exact List.mem_append_right _ (List.mem_flatMap.2 ⟨c, hc, hn⟩)
  have hheader : NeutralLines (headerLines unit) := neutralLines_header fun name hname =>
    h.neutral (by simp [CompilationUnit.names, hname])
  have hclasses : NeutralLines (classesLines unit.classes) :=
    neutralLines_flatMap fun c hc => neutralLines_blank.append (neutralLines_class (hclass c hc))
  have hentry := neutralLines_entry fun c hc => (hclass c hc).className
  unfold program
  refine ((Neutral.append ?_ (neutral_supportText _)).append (hclasses _)).append ?_
  · split
    · exact hheader _
    · exact neutral_empty
  · split
    · exact hentry _
    · exact neutral_empty

/-- What was compiled was read, and names have no brackets. -/
theorem emittable_of_compile {source : String} {unit : CompilationUnit}
    (h : compile source = .ok unit) : Emittable unit.expressions unit.names := by
  obtain ⟨tokens, s, htokens, hunit⟩ := compile_eq_ok_iff.1 h
  have hmade := (Parse.returns_compilationUnit
    (fun p s hs => Parse.wellRead_exprWithin s.budget p hs)
    (Parse.over_ofTokens htokens)).of_eq_ok hunit
  refine ⟨hmade.expressions, fun n hn => ?_⟩
  exact isInert_of_isDottedName (Parse.isDottedName_of_dotted (hmade.names n hn))

/-- The script of a source that compiles has its brackets balanced, whatever the
options. -/
theorem balanced_program {source : String} {unit : CompilationUnit} (options : Options)
    (h : compile source = .ok unit) : balanced (program options unit) = true :=
  balanced_of_neutral (neutral_program options (emittable_of_compile h))

/-- Brackets and a quote in a string, and a method without a body. -/
theorem balanced_program_strings :
    ∃ unit, compile "class C \x7b static string s = \"\x7d]\\\"(\"; void M(); \x7d" = .ok unit ∧
      balanced (program ⟨2, true, true⟩ unit) = true := by
  obtain ⟨unit, h, -⟩ : ∃ unit,
      compile "class C \x7b static string s = \"\x7d]\\\"(\"; void M(); \x7d" = .ok unit ∧ True :=
    exists_eq_ok (by decide +kernel)
  exact ⟨unit, h, balanced_program _ h⟩

end ClassScript.Script

import ClassScript.Proofs.Parse.Declarations
import ClassScript.Proofs.Tree.Rewriting
import ClassScript.Script.Program

/-!
# Support code and the forms that need it

Two parts of the support code are written only for units that need them. A part
serves certain nodes: their script text calls into it. Whether a unit needs a part
is found by a walk over its members that knows nothing of how they are written.

The two agree. The walk asks for a part exactly if a node that it serves occurs in
an expression of the unit (`flag_ofUnit`). And if the classes of the script show
such a node at all, the part was asked for, so it stands before them
(`support_precedes_shown`).
-/

namespace ClassScript.Script

/-- The parts of the support code that not every script has. -/
inductive Bridge where
  | interop
  | dom
deriving DecidableEq

namespace Bridge

/-- Does the script text of the node call into this part? -/
def serves : Bridge → Expr → Bool
  | .interop, .hostCall .. | .interop, .hostSet .. => true
  | .dom, .domCreate .. | .dom, .domProperty .. | .dom, .domCall .. => true
  | _, _ => false

/-- Is the part among the features? -/
def flag : Bridge → Features → Bool
  | .interop, features => features.interop
  | .dom, features => features.dom

/-- The code of the part. -/
def support : Bridge → String
  | .interop => interopSupport
  | .dom => domSupport

variable (b : Bridge)

/-! ### What the walk finds -/

@[simp] theorem flag_none : b.flag .none = false := by
  cases b <;> rfl

@[simp] theorem flag_or (x y : Features) : b.flag (x.or y) = (b.flag x || b.flag y) := by
  cases b <;> rfl

theorem flag_any (parts : List Features) : b.flag (.any parts) = parts.any b.flag := by
  induction parts with
  | nil => exact b.flag_none
  | cons part parts ih =>
    rw [List.any_cons, ← ih]
    exact b.flag_or part (.any parts)

/-- Does an expression need the part? -/
def needs (e : Expr) : Bool := b.flag (.ofExpr e)

theorem flag_ofExpr (e : Expr) : b.flag (.ofExpr e) = b.needs e := rfl

theorem flag_ofExprs (es : List Expr) : b.flag (.ofExprs es) = es.any b.needs := by
  induction es with
  | nil => exact b.flag_none
  | cons e es ih => rw [Features.ofExprs, flag_or, ih, List.any_cons, flag_ofExpr]

theorem flag_ofExpr? (value : Option Expr) :
    b.flag (.ofExpr? value) = value.toList.any b.needs := by
  cases value with
  | none => exact b.flag_none
  | some e => simp [Features.ofExpr?, flag_ofExpr]

/-- An expression needs the part if it is served by it or one of its children needs it. -/
theorem needs_eq (e : Expr) : b.needs e = (b.serves e || e.children.any b.needs) := by
  rw [needs]
  cases e <;> simp only [Features.ofExpr, flag_or, flag_none, flag_ofExprs, flag_ofExpr] <;>
    cases b <;> simp [serves, Expr.children, flag, Features.ofInterop, Features.ofDom]

/-- An expression needs the part exactly if a node that the part serves occurs in it. -/
theorem needs_iff (e : Expr) : b.needs e = true ↔ ∃ d, d.Occurs e ∧ b.serves d = true := by
  induction e using Expr.induction_children with
  | step e ih =>
    rw [needs_eq, Bool.or_eq_true, List.any_eq_true]
    constructor
    · rintro (hself | ⟨c, hc, hneeds⟩)
      · exact ⟨e, .self e, hself⟩
      · obtain ⟨d, hd, hserves⟩ := (ih c hc).1 hneeds
        exact ⟨d, .inside hc hd, hserves⟩
    · rintro ⟨d, hd, hserves⟩
      cases hd with
      | self => exact .inl hserves
      | inside hc hd => exact .inr ⟨_, hc, (ih _ hc).2 ⟨d, hd, hserves⟩⟩

mutual

theorem flag_ofStmt (s : Stmt) : b.flag (.ofStmt s) = s.expressions.any b.needs := by
  cases s with
  | block body span => exact flag_ofStmts body
  | expression e span => simp [Features.ofStmt, Stmt.expressions, flag_ofExpr]
  | «variable» type name value span => exact b.flag_ofExpr? value
  | «return» value span => exact b.flag_ofExpr? value
  | unsupported construct span => exact b.flag_none

theorem flag_ofStmts (ss : List Stmt) :
    b.flag (.ofStmts ss) = (Stmt.expressionsOf ss).any b.needs := by
  cases ss with
  | nil => exact b.flag_none
  | cons s ss =>
    rw [Features.ofStmts, flag_or, flag_ofStmt s, flag_ofStmts ss, Stmt.expressionsOf,
      List.any_append]

end

theorem flag_ofParameters (ps : List Parameter) :
    b.flag (.ofParameters ps) = (ps.flatMap (·.defaultValue.toList)).any b.needs := by
  rw [Features.ofParameters, flag_any, List.any_map, List.any_flatMap]
  exact congrArg ps.any (funext fun p => b.flag_ofExpr? p.defaultValue)

theorem flag_ofMember (m : Member) : b.flag (.ofMember m) = m.expressions.any b.needs := by
  cases m with
  | method m =>
    rw [Features.ofMember, flag_or, flag_ofParameters, Member.expressions, List.any_append]
    cases m.body with
    | none => simp [Features.ofBlock?]
    | some body => simp [Features.ofBlock?, flag_ofStmts, Block.expressions]
  | property p => exact b.flag_ofExpr? p.initializer
  | field f => exact b.flag_ofExpr? f.initializer
  | constructor k =>
    rw [Features.ofMember, flag_or, flag_or, flag_ofParameters, flag_ofStmts, Member.expressions,
      List.any_append, List.any_append, Bool.or_assoc, Block.expressions]
    cases k.chain with
    | none => simp [Features.ofChain?]
    | some chain => simp [Features.ofChain?, flag_ofExprs]

/-- A unit needs the part exactly if a node that the part serves occurs in one of
its expressions. -/
theorem flag_ofUnit (u : CompilationUnit) :
    b.flag (.ofUnit u) = true ↔ ∃ e ∈ u.expressions, ∃ d, d.Occurs e ∧ b.serves d = true := by
  have hmembers : b.flag (.ofUnit u) = u.expressions.any b.needs := by
    simp only [Features.ofUnit, flag_any, CompilationUnit.expressions, ClassDecl.expressions,
      List.any_flatMap, List.any_map, Function.comp_def, flag_ofMember]
  rw [hmembers, List.any_eq_true]
  simp only [needs_iff]

end Bridge

/-! ### What the classes of a script show -/

/-- The classes of the script show a node that `form` picks: if such nodes are
rewritten, and no others, what is written of the classes can change. -/
def Shows (form : Expr → Bool) (u : CompilationUnit) : Prop :=
  ∃ f : Expr → Expr, (∀ d, form d = false → f d = d) ∧
    classesLines (u.rewrite (.ofExpr (Expr.mapNodes f))).classes ≠ classesLines u.classes

/-- What is shown occurs. -/
theorem Shows.occurs {form : Expr → Bool} {u : CompilationUnit} (h : Shows form u) :
    ∃ e ∈ u.expressions, ∃ d, d.Occurs e ∧ form d = true := by
  obtain ⟨f, hf, hlines⟩ := h
  refine Classical.byContradiction fun hnone => hlines ?_
  rw [CompilationUnit.rewrite_eq_self]
  intro e he
  refine Expr.mapNodes_eq_self fun d hd => hf d ?_
  rw [← Bool.not_eq_true]
  exact fun hform => hnone ⟨e, he, d, hd, hform⟩

/-- A part of the support code that is asked for stands before the classes. -/
theorem support_precedes {b : Bridge} {u : CompilationUnit} (o : Options)
    (h : b.flag (.ofUnit u) = true) :
    ∃ front back rest, program o u =
      front ++ b.support ++ back ++ renderLines o.indentWidth (classesLines u.classes) ++ rest := by
  obtain ⟨front, back, hsupport⟩ :
      ∃ front back, supportText (.ofUnit u) = front ++ b.support ++ back := by
    unfold supportText
    cases b with
    | interop =>
      have h : (Features.ofUnit u).interop = true := h
      refine ⟨consoleSupport ++ "\n",
        if (Features.ofUnit u).dom then "\n" ++ domSupport else "", ?_⟩
      simp only [h, if_true, Bridge.support, String.append_assoc]
    | dom =>
      have h : (Features.ofUnit u).dom = true := h
      refine ⟨consoleSupport ++
        (if (Features.ofUnit u).interop then "\n" ++ interopSupport else "") ++ "\n", "", ?_⟩
      simp only [h, if_true, Bridge.support, String.append_empty, String.append_assoc]
  refine ⟨(if o.emitHeader then renderLines o.indentWidth (headerLines u) else "") ++ front, back,
    if o.invokeMain then renderLines o.indentWidth (entryLines u) else "", ?_⟩
  simp only [program, hsupport, String.append_assoc]

/-- A part of the support code is asked for exactly if a node that it serves occurs
in the unit. If the classes of the script show such a node, the part stands before
them. -/
theorem support_precedes_shown (b : Bridge) (u : CompilationUnit) (o : Options) :
    (Shows b.serves u → b.flag (.ofUnit u) = true ∧
      ∃ front back rest, program o u = front ++ b.support ++ back ++
        renderLines o.indentWidth (classesLines u.classes) ++ rest) ∧
    (b.flag (.ofUnit u) = true ↔ ∃ e ∈ u.expressions, ∃ d, d.Occurs e ∧ b.serves d = true) := by
  refine ⟨fun hshows => ?_, b.flag_ofUnit u⟩
  have hflag := (b.flag_ofUnit u).2 hshows.occurs
  exact ⟨hflag, support_precedes o hflag⟩

/-- A call of the host as the default value of a parameter is shown. -/
theorem support_precedes_shown_default :
    ∃ u, compile "class C \x7b void M(int n = 1 + JS.Call(\"f\")) \x7b \x7d \x7d" = .ok u ∧
      Shows Bridge.interop.serves u ∧ Bridge.interop.flag (.ofUnit u) = true ∧
      ∃ front back rest, program .default u = front ++ Bridge.interop.support ++ back ++
        renderLines 4 (classesLines u.classes) ++ rest := by
  let hide : Expr → Expr := fun d => if Bridge.interop.serves d then .this .none else d
  have hfound : ∃ u,
      compile "class C \x7b void M(int n = 1 + JS.Call(\"f\")) \x7b \x7d \x7d" = .ok u ∧
      classesLines (u.rewrite (.ofExpr (Expr.mapNodes hide))).classes ≠ classesLines u.classes :=
    exists_eq_ok (by decide +kernel)
  obtain ⟨u, hu, hlines⟩ := hfound
  have hshows : Shows Bridge.interop.serves u := ⟨hide, fun d hd => by simp [hide, hd], hlines⟩
  exact ⟨u, hu, hshows, (support_precedes_shown .interop u .default).1 hshows⟩

end ClassScript.Script

import ClassScript.Proofs.Tree.Subexpression

/-!
# Rewriting trees

`Expr.mapNodes f` puts every node of an expression through `f`, the leaves first.
Above the level of expressions a tree is rewritten by a `Rewriting`, which says what
becomes of the expressions, the types and the spans that stand in it; names, flags
and the order of things stay.

A tree is what it was if nothing that stands in it is changed (`mapNodes_eq_self`,
`CompilationUnit.rewrite_eq_self`).
-/

namespace ClassScript

namespace Expr

mutual

/-- Rewrites every node of an expression, after the nodes below it. -/
def mapNodes (f : Expr → Expr) : Expr → Expr
  | .identifier name span => f (.identifier name span)
  | .literal value span => f (.literal value span)
  | .binary op left right span => f (.binary op (mapNodes f left) (mapNodes f right) span)
  | .unary op operand span => f (.unary op (mapNodes f operand) span)
  | .update op operand span => f (.update op (mapNodes f operand) span)
  | .assign op target value span => f (.assign op (mapNodes f target) (mapNodes f value) span)
  | .call callee arguments span => f (.call (mapNodes f callee) (mapNodesAll f arguments) span)
  | .member object name nameSpan span => f (.member (mapNodes f object) name nameSpan span)
  | .index object key span => f (.index (mapNodes f object) (mapNodes f key) span)
  | .this span => f (.this span)
  | .base span => f (.base span)
  | .create type arguments span => f (.create type (mapNodesAll f arguments) span)
  | .hostCall path arguments span => f (.hostCall path (mapNodesAll f arguments) span)
  | .hostSet object property value span =>
    f (.hostSet (mapNodes f object) (mapNodes f property) (mapNodes f value) span)
  | .domCreate element arguments span => f (.domCreate element (mapNodesAll f arguments) span)
  | .domProperty object property span => f (.domProperty (mapNodes f object) property span)
  | .domCall object method arguments span =>
    f (.domCall (mapNodes f object) method (mapNodesAll f arguments) span)

/-- Rewrites every node of several expressions. -/
def mapNodesAll (f : Expr → Expr) : List Expr → List Expr
  | [] => []
  | e :: es => mapNodes f e :: mapNodesAll f es

end

/-- Each of several expressions is rewritten by itself. -/
theorem mapNodesAll_eq_map (f : Expr → Expr) (es : List Expr) :
    mapNodesAll f es = es.map (mapNodes f) := by
  induction es with
  | nil => rfl
  | cons e es ih => rw [mapNodesAll, ih, List.map_cons]

theorem mapNodesAll_eq_self {f : Expr → Expr} {es : List Expr} :
    mapNodesAll f es = es ↔ ∀ e ∈ es, mapNodes f e = e := by
  induction es with
  | nil => simp [mapNodesAll]
  | cons e es ih => simp [mapNodesAll, ih]

/-- An expression is what it was if no node that occurs in it is changed. -/
theorem mapNodes_eq_self {f : Expr → Expr} {e : Expr} (h : e.All fun d => f d = d) :
    mapNodes f e = e := by
  revert h
  induction e using induction_children with
  | step e ih =>
    intro h
    have hself : f e = e := h.self
    have hbelow : ∀ c ∈ e.children, mapNodes f c = c := fun c hc => ih c hc (h.child hc)
    cases e <;> simp only [children, List.forall_mem_cons, ← mapNodesAll_eq_self] at hbelow <;>
      simp only [mapNodes, hbelow, hself]

end Expr

/-- What becomes of the expressions, types and spans that stand in a tree. -/
structure Rewriting where
  expr : Expr → Expr
  type : TypeRef → TypeRef
  span : Span → Span

variable (r : Rewriting)

namespace Stmt

mutual

/-- A statement after a rewriting. -/
def rewrite (r : Rewriting) : Stmt → Stmt
  | .block body span => .block (rewriteAll r body) (r.span span)
  | .expression e span => .expression (r.expr e) (r.span span)
  | .variable type name value span =>
    .variable (r.type type) name (value.map r.expr) (r.span span)
  | .return value span => .return (value.map r.expr) (r.span span)
  | .unsupported construct span => .unsupported construct (r.span span)

/-- Statements after a rewriting. -/
def rewriteAll (r : Rewriting) : List Stmt → List Stmt
  | [] => []
  | s :: ss => rewrite r s :: rewriteAll r ss

end

end Stmt

/-- A body after a rewriting. -/
def Block.rewrite (b : Block) : Block :=
  ⟨Stmt.rewriteAll r b.body, r.span b.span⟩

/-- A parameter after a rewriting. -/
def Parameter.rewrite (p : Parameter) : Parameter :=
  { p with
    type := r.type p.type
    defaultValue := p.defaultValue.map r.expr
    span := r.span p.span }

/-- The call to another constructor after a rewriting. -/
def ConstructorChain.rewrite (c : ConstructorChain) : ConstructorChain :=
  { c with arguments := c.arguments.map r.expr, span := r.span c.span }

/-- A method after a rewriting. -/
def Method.rewrite (m : Method) : Method :=
  { m with
    returnType := r.type m.returnType
    parameters := m.parameters.map (Parameter.rewrite r)
    body := m.body.map (Block.rewrite r)
    span := r.span m.span }

/-- A property after a rewriting. -/
def Property.rewrite (p : Property) : Property :=
  { p with
    type := r.type p.type
    initializer := p.initializer.map r.expr
    span := r.span p.span }

/-- A field after a rewriting. -/
def Field.rewrite (f : Field) : Field :=
  { f with
    type := r.type f.type
    initializer := f.initializer.map r.expr
    span := r.span f.span }

/-- A constructor after a rewriting. -/
def Constructor.rewrite (k : Constructor) : Constructor :=
  { k with
    parameters := k.parameters.map (Parameter.rewrite r)
    chain := k.chain.map (ConstructorChain.rewrite r)
    body := Block.rewrite r k.body
    span := r.span k.span }

/-- A member after a rewriting. -/
def Member.rewrite : Member → Member
  | .method m => .method (Method.rewrite r m)
  | .property p => .property (Property.rewrite r p)
  | .field f => .field (Field.rewrite r f)
  | .constructor k => .constructor (Constructor.rewrite r k)

/-- A class after a rewriting. -/
def ClassDecl.rewrite (c : ClassDecl) : ClassDecl :=
  { c with members := c.members.map (Member.rewrite r), span := r.span c.span }

/-- A unit after a rewriting. -/
def CompilationUnit.rewrite (u : CompilationUnit) : CompilationUnit :=
  { u with classes := u.classes.map (ClassDecl.rewrite r), span := r.span u.span }

theorem Stmt.rewriteAll_eq_map (ss : List Stmt) :
    Stmt.rewriteAll r ss = ss.map (Stmt.rewrite r) := by
  induction ss with
  | nil => rfl
  | cons s ss ih => rw [Stmt.rewriteAll, ih, List.map_cons]

/-! ### Rewriting expressions only -/

/-- Types and spans stay. -/
def Rewriting.ofExpr (f : Expr → Expr) : Rewriting := ⟨f, id, id⟩

section

variable {f : Expr → Expr}

@[simp] theorem Rewriting.ofExpr_expr : (Rewriting.ofExpr f).expr = f := rfl

@[simp] theorem Rewriting.ofExpr_type (t : TypeRef) : (Rewriting.ofExpr f).type t = t := rfl

@[simp] theorem Rewriting.ofExpr_span (s : Span) : (Rewriting.ofExpr f).span s = s := rfl

/-- A list stays if each of its items does. -/
theorem map_eq_self {α : Type} {g : α → α} {xs : List α} (h : ∀ x ∈ xs, g x = x) :
    xs.map g = xs :=
  (List.map_congr_left h).trans (List.map_id xs)

theorem option_map_eq_self {α : Type} {g : α → α} {value : Option α}
    (h : ∀ x ∈ value.toList, g x = x) : value.map g = value := by
  cases value with
  | none => rfl
  | some x => rw [Option.map_some, h x (by simp)]

mutual

/-- By induction on the statement, over the expressions that stand in it. -/
theorem Stmt.rewrite_eq_self {s : Stmt} (h : ∀ e ∈ s.expressions, f e = e) :
    s.rewrite (.ofExpr f) = s := by
  cases s with
  | block body span => simp [Stmt.rewrite, Stmt.rewriteAll_eq_self h]
  | expression e span => simp [Stmt.rewrite, h e (List.mem_singleton_self e)]
  | «variable» type name value span => simp [Stmt.rewrite, option_map_eq_self h]
  | «return» value span => simp [Stmt.rewrite, option_map_eq_self h]
  | unsupported construct span => rfl

theorem Stmt.rewriteAll_eq_self {ss : List Stmt} (h : ∀ e ∈ Stmt.expressionsOf ss, f e = e) :
    Stmt.rewriteAll (.ofExpr f) ss = ss := by
  cases ss with
  | nil => rfl
  | cons s ss =>
    rw [Stmt.expressionsOf, List.forall_mem_append] at h
    rw [Stmt.rewriteAll, Stmt.rewrite_eq_self h.1, Stmt.rewriteAll_eq_self h.2]

end

/-- The same of the statements of a body. -/
theorem Block.rewrite_eq_self {b : Block} (h : ∀ e ∈ b.expressions, f e = e) :
    b.rewrite (.ofExpr f) = b := by
  simp [Block.rewrite, Stmt.rewriteAll_eq_self h]

/-- A parameter has at most one expression, its first value. -/
theorem Parameter.rewrite_eq_self {p : Parameter} (h : ∀ e ∈ p.defaultValue.toList, f e = e) :
    p.rewrite (.ofExpr f) = p := by
  simp [Parameter.rewrite, option_map_eq_self h]

theorem Parameter.map_rewrite_eq_self {ps : List Parameter}
    (h : ∀ e ∈ ps.flatMap (·.defaultValue.toList), f e = e) :
    ps.map (Parameter.rewrite (.ofExpr f)) = ps :=
  map_eq_self fun p hp => Parameter.rewrite_eq_self fun e he => h e (List.mem_flatMap.2 ⟨p, hp, he⟩)

/-- Every sort of member stays if its expressions do. -/
theorem Member.rewrite_eq_self {m : Member} (h : ∀ e ∈ m.expressions, f e = e) :
    m.rewrite (.ofExpr f) = m := by
  cases m with
  | method m =>
    obtain ⟨hps, hbody⟩ := List.forall_mem_append.1 h
    have hbody : m.body.map (Block.rewrite (.ofExpr f)) = m.body :=
      option_map_eq_self fun b hb =>
        Block.rewrite_eq_self fun e he => hbody e (List.mem_flatMap.2 ⟨b, hb, he⟩)
    simp [Member.rewrite, Method.rewrite, Parameter.map_rewrite_eq_self hps, hbody]
  | property p => simp [Member.rewrite, Property.rewrite, option_map_eq_self h]
  | field d => simp [Member.rewrite, Field.rewrite, option_map_eq_self h]
  | constructor k =>
    obtain ⟨hfront, hbody⟩ := List.forall_mem_append.1 h
    obtain ⟨hps, hchain⟩ := List.forall_mem_append.1 hfront
    have hchain : k.chain.map (ConstructorChain.rewrite (.ofExpr f)) = k.chain := by
      refine option_map_eq_self fun c hc => ?_
      have harguments : c.arguments.map f = c.arguments :=
        map_eq_self fun e he => hchain e (List.mem_flatMap.2 ⟨c, hc, he⟩)
      simp [ConstructorChain.rewrite, harguments]
    simp [Member.rewrite, Constructor.rewrite, Parameter.map_rewrite_eq_self hps, hchain,
      Block.rewrite_eq_self hbody]

/-- A unit is what it was if none of its expressions is changed. -/
theorem CompilationUnit.rewrite_eq_self {u : CompilationUnit}
    (h : ∀ e ∈ u.expressions, f e = e) : u.rewrite (.ofExpr f) = u := by
  have hclass : ∀ c ∈ u.classes, c.rewrite (.ofExpr f) = c := by
    intro c hc
    have hmembers : c.members.map (Member.rewrite (.ofExpr f)) = c.members :=
      map_eq_self fun m hm => Member.rewrite_eq_self fun e he =>
        h e (List.mem_flatMap.2 ⟨c, hc, List.mem_flatMap.2 ⟨m, hm, he⟩⟩)
    simp [ClassDecl.rewrite, hmembers]
  simp [CompilationUnit.rewrite, map_eq_self hclass]

end

end ClassScript

import ClassScript.Tree.Decl

/-!
# The spans of a tree

A `SpanTree` is what is left of a tree if only the spans of its nodes are kept. Below a node
stand those of its parts that have a span of their own, in the order in which they are
written: types, expressions, statements, parameters, members, classes, and the name of a
member that is accessed.

A span tree is `Nested` if every span lies within the one above it, and the spans below one
node follow one another.
-/

namespace ClassScript

/-- The spans of the nodes of a tree, in its shape. -/
inductive SpanTree where
  | node (span : Span) (parts : List SpanTree)

namespace SpanTree

/-- The span of the whole. -/
def span : SpanTree → Span
  | .node span _ => span

/-- `Holds tree span` says that `span` stands somewhere in `tree`. -/
inductive Holds : SpanTree → Span → Prop
  | self (span : Span) (parts : List SpanTree) : Holds (.node span parts) span
  | inside {span span' : Span} {parts : List SpanTree} {p : SpanTree} : p ∈ parts →
      Holds p span' → Holds (.node span parts) span'

/-- Each tree ends before the next ones begin. -/
def InOrder (trees : List SpanTree) : Prop :=
  trees.Pairwise fun a b => a.span.stop.offset ≤ b.span.start.offset

/-- The inner span begins and ends within the outer one. -/
def Within (inner outer : Span) : Prop :=
  outer.start.offset ≤ inner.start.offset ∧ inner.stop.offset ≤ outer.stop.offset

/-- No span of the tree ends before it begins, the parts of a node lie within it, and they
follow one another. -/
inductive Nested : SpanTree → Prop
  | node {span : Span} {parts : List SpanTree} : span.start.offset ≤ span.stop.offset →
      (∀ p ∈ parts, Within p.span span) → InOrder parts → (∀ p ∈ parts, Nested p) →
      Nested (.node span parts)

/-- No span ends before it begins. -/
theorem Nested.start_le_stop {tree : SpanTree} (h : tree.Nested) :
    tree.span.start.offset ≤ tree.span.stop.offset := by
  cases h with
  | node hspan => exact hspan

end SpanTree

namespace TypeRef

mutual

/-- The spans of a type and of its arguments. -/
def spanTree : TypeRef → SpanTree
  | ⟨_, _, arguments, _, span⟩ => .node span (spanTrees arguments)

/-- The spans of several types. -/
def spanTrees : List TypeRef → List SpanTree
  | [] => []
  | t :: ts => spanTree t :: spanTrees ts

end

theorem spanTrees_eq_map (ts : List TypeRef) : spanTrees ts = ts.map spanTree := by
  induction ts with
  | nil => rfl
  | cons t ts ih => rw [spanTrees, ih, List.map_cons]

/-- The spans of a type, with those of its arguments below. -/
theorem spanTree_eq (t : TypeRef) : t.spanTree = .node t.span (t.arguments.map spanTree) := by
  rw [← spanTrees_eq_map]
  cases t
  rfl

end TypeRef

namespace Expr

mutual

/-- The spans of an expression and of what stands below it. -/
def spanTree : Expr → SpanTree
  | .identifier _ span | .literal _ span | .this span | .base span => .node span []
  | .binary _ left right span => .node span [spanTree left, spanTree right]
  | .unary _ operand span | .update _ operand span => .node span [spanTree operand]
  | .assign _ target value span => .node span [spanTree target, spanTree value]
  | .call callee arguments span => .node span (spanTree callee :: spanTrees arguments)
  | .member object _ nameSpan span => .node span [spanTree object, .node nameSpan []]
  | .index object key span => .node span [spanTree object, spanTree key]
  | .create type arguments span => .node span (type.spanTree :: spanTrees arguments)
  | .hostCall _ arguments span | .domCreate _ arguments span => .node span (spanTrees arguments)
  | .hostSet object property value span =>
    .node span [spanTree object, spanTree property, spanTree value]
  | .domProperty object _ span => .node span [spanTree object]
  | .domCall object _ arguments span => .node span (spanTree object :: spanTrees arguments)

/-- The spans of several expressions. -/
def spanTrees : List Expr → List SpanTree
  | [] => []
  | e :: es => spanTree e :: spanTrees es

end

theorem spanTrees_eq_map (es : List Expr) : spanTrees es = es.map spanTree := by
  induction es with
  | nil => rfl
  | cons e es ih => rw [spanTrees, ih, List.map_cons]

/-- The span of the whole is that of the node. -/
@[simp] theorem span_spanTree (e : Expr) : e.spanTree.span = e.span := by
  cases e <;> rfl

end Expr

namespace Stmt

mutual

/-- The spans of a statement and of what stands below it. -/
def spanTree : Stmt → SpanTree
  | .block body span => .node span (spanTrees body)
  | .expression e span => .node span [e.spanTree]
  | .variable type _ value span => .node span (type.spanTree :: value.toList.map Expr.spanTree)
  | .return value span => .node span (value.toList.map Expr.spanTree)
  | .unsupported _ span => .node span []

/-- The spans of several statements. -/
def spanTrees : List Stmt → List SpanTree
  | [] => []
  | s :: ss => spanTree s :: spanTrees ss

end

theorem spanTrees_eq_map (ss : List Stmt) : spanTrees ss = ss.map spanTree := by
  induction ss with
  | nil => rfl
  | cons s ss ih => rw [spanTrees, ih, List.map_cons]

end Stmt

/-- The spans of a body. -/
def Block.spanTree (b : Block) : SpanTree := .node b.span (b.body.map Stmt.spanTree)

/-- The spans of a parameter. -/
def Parameter.spanTree (p : Parameter) : SpanTree :=
  .node p.span (p.type.spanTree :: p.defaultValue.toList.map Expr.spanTree)

/-- The spans of a call to another constructor. -/
def ConstructorChain.spanTree (c : ConstructorChain) : SpanTree :=
  .node c.span (c.arguments.map Expr.spanTree)

/-- The spans of a member. -/
def Member.spanTree : Member → SpanTree
  | .method m =>
    .node m.span
      (m.returnType.spanTree :: m.parameters.map Parameter.spanTree
        ++ m.body.toList.map Block.spanTree)
  | .property p => .node p.span (p.type.spanTree :: p.initializer.toList.map Expr.spanTree)
  | .field f => .node f.span (f.type.spanTree :: f.initializer.toList.map Expr.spanTree)
  | .constructor k =>
    .node k.span
      (k.parameters.map Parameter.spanTree ++ k.chain.toList.map ConstructorChain.spanTree
        ++ [k.body.spanTree])

/-- The spans of a class. -/
def ClassDecl.spanTree (c : ClassDecl) : SpanTree := .node c.span (c.members.map Member.spanTree)

/-- The spans of a unit. -/
def CompilationUnit.spanTree (u : CompilationUnit) : SpanTree :=
  .node u.span (u.classes.map ClassDecl.spanTree)

end ClassScript

import ClassScript.Proofs.Parse.Nodes
import ClassScript.Proofs.Tree.Rewriting

/-!
# Trees without places

Two texts of one expression give trees that differ in their spans only. `unlocated`
takes the spans out of a tree, so that trees can be compared up to spans. Above the
level of expressions, `Rewriting.unlocating` does so.

What the parser asks about a tree that it has built, it asks about the shape and
never about a span. The lemmas say so: each question has the same answer for a tree
and for the tree without its spans.
-/

namespace ClassScript

namespace TypeRef

mutual

/-- A type without its spans. -/
def unlocated : TypeRef → TypeRef
  | ⟨name, nullable, arguments, isArray, _⟩ =>
    ⟨name, nullable, unlocatedAll arguments, isArray, .none⟩

/-- Types without their spans. -/
def unlocatedAll : List TypeRef → List TypeRef
  | [] => []
  | t :: ts => unlocated t :: unlocatedAll ts

end

/-- Each of several types loses its spans by itself. -/
theorem unlocatedAll_eq_map (ts : List TypeRef) : unlocatedAll ts = ts.map unlocated := by
  induction ts with
  | nil => rfl
  | cons t ts ih => rw [unlocatedAll, ih, List.map_cons]

/-- The name of a type is no span. -/
@[simp] theorem name_unlocated (t : TypeRef) : t.unlocated.name = t.name := by
  cases t
  rfl

@[simp] theorem isVoid_unlocated (t : TypeRef) : t.unlocated.isVoid = t.isVoid := by
  cases t
  rfl

/-- What a type is like is asked of its name and suffixes. -/
@[simp] theorem isNumeric_unlocated (t : TypeRef) : t.unlocated.isNumeric = t.isNumeric := by
  cases t
  rfl

@[simp] theorem isBool_unlocated (t : TypeRef) : t.unlocated.isBool = t.isBool := by
  cases t
  rfl

end TypeRef

namespace Expr

mutual

/-- An expression without its spans. -/
def unlocated : Expr → Expr
  | .identifier name _ => .identifier name .none
  | .literal value _ => .literal value .none
  | .binary op left right _ => .binary op (unlocated left) (unlocated right) .none
  | .unary op operand _ => .unary op (unlocated operand) .none
  | .update op operand _ => .update op (unlocated operand) .none
  | .assign op target value _ => .assign op (unlocated target) (unlocated value) .none
  | .call callee arguments _ => .call (unlocated callee) (unlocatedAll arguments) .none
  | .member object name _ _ => .member (unlocated object) name .none .none
  | .index object key _ => .index (unlocated object) (unlocated key) .none
  | .this _ => .this .none
  | .base _ => .base .none
  | .create type arguments _ => .create type.unlocated (unlocatedAll arguments) .none
  | .hostCall path arguments _ => .hostCall path (unlocatedAll arguments) .none
  | .hostSet object property value _ =>
    .hostSet (unlocated object) (unlocated property) (unlocated value) .none
  | .domCreate element arguments _ => .domCreate element (unlocatedAll arguments) .none
  | .domProperty object property _ => .domProperty (unlocated object) property .none
  | .domCall object method arguments _ =>
    .domCall (unlocated object) method (unlocatedAll arguments) .none

/-- Expressions without their spans. -/
def unlocatedAll : List Expr → List Expr
  | [] => []
  | e :: es => unlocated e :: unlocatedAll es

end

-- This makes the equations of `unlocated` here, once. Proofs that unfold it are elaborated side
-- by side, and would otherwise all wait for the first of them to make the equations.
attribute [local simp] unlocated

/-- The same of expressions. -/
theorem unlocatedAll_eq_map (es : List Expr) : unlocatedAll es = es.map unlocated := by
  induction es with
  | nil => rfl
  | cons e es ih => rw [unlocatedAll, ih, List.map_cons]

/-- What can be assigned to is told by its form. -/
@[simp] theorem isAssignable_unlocated (e : Expr) : e.unlocated.isAssignable = e.isAssignable := by
  cases e <;> rfl

end Expr

/-- Takes the spans out of a tree. -/
def Rewriting.unlocating : Rewriting := ⟨Expr.unlocated, TypeRef.unlocated, fun _ => .none⟩

@[simp] theorem Rewriting.unlocating_expr : Rewriting.unlocating.expr = Expr.unlocated := rfl

@[simp] theorem Rewriting.unlocating_type : Rewriting.unlocating.type = TypeRef.unlocated := rfl

@[simp] theorem Rewriting.unlocating_span (s : Span) : Rewriting.unlocating.span s = .none := rfl

/-- A unit without its spans. -/
def CompilationUnit.unlocated (u : CompilationUnit) : CompilationUnit := u.rewrite .unlocating

namespace Parse

@[simp] theorem isPlainElement_unlocated (t : TypeRef) :
    isPlainElement t.unlocated = isPlainElement t := by
  obtain ⟨name, nullable, arguments, isArray, span⟩ := t
  cases arguments <;> rfl

/-- A host form is known by its names. -/
@[simp] theorem hostMember?_unlocated (e : Expr) : hostMember? e.unlocated = hostMember? e := by
  cases e with
  | member object name nameSpan span => cases object <;> rfl
  | _ => rfl

@[simp] theorem isPlainCallee_unlocated (e : Expr) :
    isPlainCallee e.unlocated = isPlainCallee e := by
  cases e with
  | member object name nameSpan span => cases object <;> rfl
  | _ => rfl

/-- What is known of an element is known of names. -/
@[simp] theorem isDomValue_unlocated (scope : Scope) (e : Expr) :
    scope.isDomValue e.unlocated = scope.isDomValue e := by
  cases e with
  | member object name nameSpan span => cases object <;> rfl
  | _ => rfl

end Parse

end ClassScript

import ClassScript.Tree.Decl

/-!
# The parts of a tree

The expressions directly below an expression, the expressions that occur
anywhere in it, and its height. For a unit, the expressions that stand in it as a
whole (`expressions`) and the names that it declares or extends (`names`).

A property of all that occurs in an expression is a property of the expression
itself and of all that occurs in its children (`all_iff`), and a height is
bounded by the heights of the children (`height_le_succ`), so neither needs a
case for every form of expression again.
-/

namespace ClassScript

namespace Expr

/-! ### Children and occurrences -/

/-- The expressions directly below an expression, in order. -/
def children : Expr → List Expr
  | .identifier .. | .literal .. | .this .. | .base .. => []
  | .binary _ left right _ => [left, right]
  | .unary _ operand _ | .update _ operand _ => [operand]
  | .assign _ target value _ => [target, value]
  | .call callee arguments _ => callee :: arguments
  | .member object _ _ _ => [object]
  | .index object key _ => [object, key]
  | .create _ arguments _ => arguments
  | .hostCall _ arguments _ => arguments
  | .hostSet object property value _ => [object, property, value]
  | .domCreate _ arguments _ => arguments
  | .domProperty object _ _ => [object]
  | .domCall object _ arguments _ => object :: arguments

/-- `Occurs d e` says that `d` is `e` or stands somewhere below it. -/
inductive Occurs : Expr → Expr → Prop
  | self (e : Expr) : Occurs e e
  | inside {c d e : Expr} : c ∈ e.children → Occurs d c → Occurs d e

/-- Everything that occurs in `e` satisfies `P`. -/
def All (P : Expr → Prop) (e : Expr) : Prop :=
  ∀ d, Occurs d e → P d

variable {P Q : Expr → Prop} {e : Expr}

/-- A property of all nodes, taken apart at the root. -/
theorem all_iff : All P e ↔ P e ∧ ∀ c ∈ e.children, All P c := by
  constructor
  · intro h
    exact ⟨h e (.self e), fun c hc d hd => h d (.inside hc hd)⟩
  · rintro ⟨hself, hbelow⟩ d hd
    cases hd with
    | self => exact hself
    | inside hc hd => exact hbelow _ hc d hd

theorem All.self (h : All P e) : P e := (all_iff.1 h).1

theorem All.child {c : Expr} (h : All P e) (hc : c ∈ e.children) : All P c := (all_iff.1 h).2 c hc

/-- A weaker property holds as well. -/
theorem All.imp (h : All P e) (hPQ : ∀ d, P d → Q d) : All Q e :=
  fun d hd => hPQ d (h d hd)

/-- Two properties of all nodes together. -/
theorem All.and (hP : All P e) (hQ : All Q e) : All (fun d => P d ∧ Q d) e :=
  fun d hd => ⟨hP d hd, hQ d hd⟩

/-! ### Height -/

mutual

/-- The number of nodes on the longest way from an expression down to a leaf. -/
def height : Expr → Nat
  | .identifier .. | .literal .. | .this .. | .base .. => 1
  | .binary _ left right _ => max (height left) (height right) + 1
  | .unary _ operand _ | .update _ operand _ => height operand + 1
  | .assign _ target value _ => max (height target) (height value) + 1
  | .call callee arguments _ => max (height callee) (heights arguments) + 1
  | .member object _ _ _ => height object + 1
  | .index object key _ => max (height object) (height key) + 1
  | .create _ arguments _ | .hostCall _ arguments _ | .domCreate _ arguments _ =>
    heights arguments + 1
  | .hostSet object property value _ =>
    max (height object) (max (height property) (height value)) + 1
  | .domProperty object _ _ => height object + 1
  | .domCall object _ arguments _ => max (height object) (heights arguments) + 1

/-- The height of the highest of several expressions. -/
def heights : List Expr → Nat
  | [] => 0
  | e :: es => max (height e) (heights es)

end

/-- Also a leaf has a height. -/
theorem height_pos (e : Expr) : 1 ≤ e.height := by
  cases e <;> simp only [height] <;> omega

/-- A bound on several heights is one on each. -/
theorem heights_le {n : Nat} (es : List Expr) : heights es ≤ n ↔ ∀ e ∈ es, e.height ≤ n := by
  induction es with
  | nil => simp [heights]
  | cons e es ih => rw [heights, Nat.max_le, ih, List.forall_mem_cons]

/-- The children of an expression are lower than it, and nothing else bounds it. -/
theorem height_le_succ {n : Nat} : e.height ≤ n + 1 ↔ ∀ c ∈ e.children, c.height ≤ n := by
  cases e <;>
    simp only [height, children, Nat.add_le_add_iff_right, Nat.le_add_left, Nat.max_le, heights_le,
      List.forall_mem_cons, List.not_mem_nil, false_implies, implies_true, and_true]

/-- What is below an expression is not as high. -/
theorem height_lt_of_mem {c : Expr} (h : c ∈ e.children) : c.height < e.height := by
  obtain ⟨n, hn⟩ : ∃ n, e.height = n + 1 := ⟨e.height - 1, by have := e.height_pos; omega⟩
  rw [hn]
  exact Nat.lt_succ_of_le (height_le_succ.1 (Nat.le_of_eq hn) c h)

/-- Induction over an expression: what follows from the children holds of all. -/
theorem induction_children (step : ∀ e : Expr, (∀ c ∈ e.children, P c) → P e) (e : Expr) : P e := by
  generalize hn : e.height = n
  induction n using Nat.strongRecOn generalizing e with
  | ind n ih =>
    refine step e fun c hc => ih c.height ?_ c rfl
    rw [← hn]
    exact height_lt_of_mem hc

/-- A property of single nodes can be checked on all that occurs. -/
instance decidableAll [DecidablePred P] (e : Expr) : Decidable (e.All P) :=
  have : ∀ c : { c // c ∈ e.children }, Decidable (All P c.1) := fun c => decidableAll c.1
  decidable_of_iff (P e ∧ ∀ c ∈ e.children.attach, All P c.1) (by
    rw [all_iff]
    simp)
termination_by e.height
decreasing_by exact height_lt_of_mem c.2

end Expr

/-! ### What stands in a unit -/

namespace Stmt

mutual

/-- The expressions of a statement. -/
def expressions : Stmt → List Expr
  | .block body _ => expressionsOf body
  | .expression e _ => [e]
  | .variable _ _ value _ => value.toList
  | .return value _ => value.toList
  | .unsupported .. => []

/-- The expressions of statements. -/
def expressionsOf : List Stmt → List Expr
  | [] => []
  | s :: ss => expressions s ++ expressionsOf ss

end

mutual

/-- The names of the locals that a statement declares. -/
def names : Stmt → List String
  | .block body _ => namesOf body
  | .variable _ name _ _ => [name]
  | .expression .. | .return .. | .unsupported .. => []

/-- The names of the locals that statements declare. -/
def namesOf : List Stmt → List String
  | [] => []
  | s :: ss => names s ++ namesOf ss

end

theorem expressionsOf_eq_flatMap (ss : List Stmt) : expressionsOf ss = ss.flatMap expressions := by
  induction ss with
  | nil => rfl
  | cons s ss ih => simp [expressionsOf, ih]

theorem namesOf_eq_flatMap (ss : List Stmt) : namesOf ss = ss.flatMap names := by
  induction ss with
  | nil => rfl
  | cons s ss ih => simp [namesOf, ih]

end Stmt

namespace Block

/-- The expressions of a body. -/
def expressions (b : Block) : List Expr := Stmt.expressionsOf b.body

/-- The names of the locals of a body. -/
def names (b : Block) : List String := Stmt.namesOf b.body

end Block

namespace Member

/-- The expressions of a member: first values, default values of parameters,
arguments for another constructor, and those of its body. -/
def expressions : Member → List Expr
  | .method m =>
    m.parameters.flatMap (·.defaultValue.toList) ++ m.body.toList.flatMap Block.expressions
  | .property p => p.initializer.toList
  | .field f => f.initializer.toList
  | .constructor k =>
    k.parameters.flatMap (·.defaultValue.toList) ++ k.chain.toList.flatMap (·.arguments)
      ++ k.body.expressions

/-- The names of a member, its parameters and its locals. -/
def names : Member → List String
  | .method m => m.name :: m.parameters.map Parameter.name ++ m.body.toList.flatMap Block.names
  | .property p => [p.name]
  | .field f => [f.name]
  | .constructor k => k.name :: k.parameters.map Parameter.name ++ k.body.names

end Member

namespace ClassDecl

/-- The expressions of the members of a class. -/
def expressions (c : ClassDecl) : List Expr := c.members.flatMap Member.expressions

/-- The names of a class, its base class and its members. -/
def names (c : ClassDecl) : List String :=
  c.name :: c.baseClass.toList ++ c.members.flatMap Member.names

end ClassDecl

namespace CompilationUnit

/-- The expressions of a unit. -/
def expressions (u : CompilationUnit) : List Expr := u.classes.flatMap ClassDecl.expressions

/-- The names of a unit: its namespace, and those of its classes. -/
def names (u : CompilationUnit) : List String :=
  u.namespaceName.toList ++ u.classes.flatMap ClassDecl.names

end CompilationUnit

end ClassScript

import ClassScript.Tree.Expr

/-!
# Statements

Branches and loops are read for their shape only: their conditions and bodies
are dropped, and an `unsupported` statement marks the place.
-/

namespace ClassScript

/-- The statements that are recognised but have no lowering. -/
inductive Unsupported where
  | ifElse | whileLoop | forLoop
deriving DecidableEq

/-- The words for an unsupported statement. -/
def Unsupported.describe : Unsupported → String
  | .ifElse => "if statement"
  | .whileLoop => "while loop"
  | .forLoop => "for loop"

/-- A statement. -/
inductive Stmt where
  | block (body : List Stmt) (span : Span)
  | expression (expression : Expr) (span : Span)
  /-- A local variable, with its first value if it has one. -/
  | variable (type : TypeRef) (name : String) (value : Option Expr) (span : Span)
  | return (value : Option Expr) (span : Span)
  | unsupported (construct : Unsupported) (span : Span)
deriving Inhabited

/-- The span that a statement was read from. -/
def Stmt.span : Stmt → Span
  | .block _ span | .expression _ span | .variable _ _ _ span | .return _ span
  | .unsupported _ span => span

/-- The body of a method or constructor. -/
structure Block where
  body : List Stmt
  span : Span
deriving Inhabited

end ClassScript

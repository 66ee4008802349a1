import ClassScript.Script.Expr

/-!
# Emitting statements

The lines of a statement depend on the scope, and a declaration adds to it: a
local is known to the statements after its own. A block hands the scope at its
end on to the statements after it.
-/

namespace ClassScript.Script

mutual

/-- The lines of a statement at a level of indentation, and the scope after it. -/
def stmtLines (level : Nat) (scope : Scope) : Stmt → List Line × Scope
  | .block body _ =>
    let (lines, scope) := stmtsLines (level + 1) scope body
    (.code level "\x7b" :: lines ++ [.code level "\x7d"], scope)
  | .expression e _ => ([.code level (exprText scope e ++ ";")], scope)
  | .variable _ name none _ =>
    ([.code level ("let " ++ bindingName name ++ ";")], scope.declare name)
  | .variable _ name (some value) _ =>
    ([.code level ("let " ++ bindingName name ++ " = " ++ exprText scope value ++ ";")],
      scope.declare name)
  | .return none _ => ([.code level "return;"], scope)
  | .return (some value) _ => ([.code level ("return " ++ exprText scope value ++ ";")], scope)
  | .unsupported construct _ =>
    ([.code level ("/* unsupported: " ++ construct.describe ++ " */")], scope)

/-- The lines of statements one after another, and the scope after them. -/
def stmtsLines (level : Nat) (scope : Scope) : List Stmt → List Line × Scope
  | [] => ([], scope)
  | s :: ss =>
    let (first, scope) := stmtLines level scope s
    let (others, scope) := stmtsLines level scope ss
    (first ++ others, scope)

end

/-- The lines of a body, without braces. -/
def bodyLines (level : Nat) (scope : Scope) (block : Block) : List Line :=
  (stmtsLines level scope block.body).1

end ClassScript.Script

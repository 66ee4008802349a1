import ClassScript.Dom
import ClassScript.Script.Line
import ClassScript.Script.Literal
import ClassScript.Script.Name

/-!
# Emitting expressions

The script text of an expression. The tree holds no parentheses, so they are put
back where the precedence of an operand asks for them.
-/

namespace ClassScript.Script

/-- The precedence of an emitted expression, weakest first. -/
inductive Precedence where
  | assignment | coalesce | logicalOr | logicalAnd | equality | relational
  | additive | multiplicative | unary | postfixed | member | primary
deriving DecidableEq

namespace Precedence

/-- The place of a precedence in the order. -/
def rank : Precedence → Nat
  | .assignment => 0
  | .coalesce => 1
  | .logicalOr => 2
  | .logicalAnd => 3
  | .equality => 4
  | .relational => 5
  | .additive => 6
  | .multiplicative => 7
  | .unary => 8
  | .postfixed => 9
  | .member => 10
  | .primary => 11

instance : LT Precedence := ⟨fun a b => a.rank < b.rank⟩

instance (a b : Precedence) : Decidable (a < b) :=
  inferInstanceAs (Decidable (a.rank < b.rank))

instance : LE Precedence := ⟨fun a b => a.rank ≤ b.rank⟩

instance (a b : Precedence) : Decidable (a ≤ b) :=
  inferInstanceAs (Decidable (a.rank ≤ b.rank))

/-- The precedence of a binary operator. -/
def ofOp : BinaryOp → Precedence
  | .coalesce => .coalesce
  | .or => .logicalOr
  | .and => .logicalAnd
  | .equal | .notEqual => .equality
  | .less | .lessEqual | .greater | .greaterEqual => .relational
  | .add | .subtract => .additive
  | .multiply | .divide | .modulo => .multiplicative

/-- The precedence of an emitted expression. -/
def ofExpr : Expr → Precedence
  | .assign .. => .assignment
  | .binary op .. => ofOp op
  | .unary .. => .unary
  | .update .. => .postfixed
  | .call .. | .member .. | .index .. | .create .. | .hostCall .. | .hostSet .. | .domCreate ..
  | .domProperty .. | .domCall .. => .member
  | .identifier .. | .literal .. | .this .. | .base .. => .primary

end Precedence

/-- Is the expression a logical conjunction or disjunction? -/
def isLogical : Expr → Bool
  | .binary .and .. | .binary .or .. => true
  | _ => false

/-- Is the expression a number? -/
def isNumber : Expr → Bool
  | .literal (.number _) _ => true
  | _ => false

/-- Does the left operand of `op` need parentheses? Null coalescing groups to the
right and does not mix with the logical operators. -/
def wrapsLeft (op : BinaryOp) (left : Expr) : Bool :=
  if op = .coalesce then Precedence.ofExpr left ≤ .ofOp op || isLogical left
  else Precedence.ofExpr left < .ofOp op

/-- Does the right operand of `op` need parentheses? -/
def wrapsRight (op : BinaryOp) (right : Expr) : Bool :=
  if op = .coalesce then Precedence.ofExpr right < .ofOp op || isLogical right
  else Precedence.ofExpr right ≤ .ofOp op

/-- Does an expression need parentheses before a member name, a key or
arguments? A number does, since its point would be read as a decimal point. -/
def wrapsObject (e : Expr) : Bool :=
  isNumber e || Precedence.ofExpr e < .member

/-- A unary operator before an emitted operand. Two minus signs are kept from
meeting. -/
def unaryText (op : UnaryOp) (operand : String) : String :=
  op.spelling ++ parenthesized (op = .negate && operand.toList.head? = some '-') operand

mutual

/-- The script text of an expression in a scope. -/
def exprText (scope : Option Scope) : Expr → String
  | .identifier name _ => resolve scope name
  | .literal value _ => literalText value
  | .binary op left right _ =>
    parenthesized (wrapsLeft op left) (exprText scope left) ++ " " ++ op.spelling ++ " "
      ++ parenthesized (wrapsRight op right) (exprText scope right)
  | .unary op operand _ =>
    unaryText op
      (parenthesized (Precedence.ofExpr operand < .unary) (exprText scope operand))
  | .update op operand _ =>
    parenthesized (Precedence.ofExpr operand < .postfixed) (exprText scope operand) ++ op.spelling
  | .assign op target value _ =>
    exprText scope target ++ " " ++ op.spelling ++ " " ++ exprText scope value
  | .call callee arguments _ =>
    parenthesized (wrapsObject callee) (exprText scope callee)
      ++ "(" ++ commaJoined (exprTexts scope arguments) ++ ")"
  | .member object name _ _ =>
    parenthesized (wrapsObject object) (exprText scope object) ++ "." ++ name
  | .index object key _ =>
    parenthesized (wrapsObject object) (exprText scope object) ++ "[" ++ exprText scope key ++ "]"
  | .this _ => "this"
  | .base _ => "super"
  | .create type arguments _ =>
    "new " ++ type.name ++ "(" ++ commaJoined (exprTexts scope arguments) ++ ")"
  | .hostCall path arguments _ =>
    "__Interop.call(" ++ commaJoined (quoted path :: exprTexts scope arguments) ++ ")"
  | .hostSet object property value _ =>
    "__Interop.set("
      ++ commaJoined [exprText scope object, exprText scope property, exprText scope value] ++ ")"
  | .domCreate element arguments _ =>
    "new __Dom." ++ element ++ "(" ++ commaJoined (exprTexts scope arguments) ++ ")"
  | .domProperty object property _ =>
    "__Dom.unwrap(" ++ exprText scope object ++ ")." ++ Dom.memberName property
  | .domCall object method arguments _ =>
    "__Dom.invoke("
      ++ commaJoined (exprText scope object :: quoted (Dom.memberName method)
          :: exprTexts scope arguments) ++ ")"

/-- The script texts of expressions in a scope. -/
def exprTexts (scope : Option Scope) : List Expr → List String
  | [] => []
  | e :: es => exprText scope e :: exprTexts scope es

end

end ClassScript.Script

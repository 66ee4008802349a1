import ClassScript.Number.Binary64
import ClassScript.Tree.Type

/-!
# Expressions

The expression trees of the language. Besides the ordinary forms there are
three for elements of the page and two for calls out to the host, which the
parser recognises by shape; grouping parentheses leave no trace. Every node
carries the span it was read from.
-/

namespace ClassScript

/-- The value of a literal. -/
inductive Literal where
  | string (value : String)
  | number (value : Binary64)
  | boolean (value : Bool)
  | null
deriving DecidableEq, Inhabited

/-- The kind of a literal's value, as tree listings name it. -/
inductive LiteralKind where
  | string | number | boolean | null
deriving DecidableEq

/-- The kind of a literal follows from its value. -/
def Literal.kind : Literal → LiteralKind
  | .string _ => .string
  | .number _ => .number
  | .boolean _ => .boolean
  | .null => .null

/-- The operators between two operands. -/
inductive BinaryOp where
  | add | subtract | multiply | divide | modulo
  | equal | notEqual | less | lessEqual | greater | greaterEqual
  | and | or | coalesce
deriving DecidableEq

/-- The spelling of a binary operator. -/
def BinaryOp.spelling : BinaryOp → String
  | .add => "+"
  | .subtract => "-"
  | .multiply => "*"
  | .divide => "/"
  | .modulo => "%"
  | .equal => "=="
  | .notEqual => "!="
  | .less => "<"
  | .lessEqual => "<="
  | .greater => ">"
  | .greaterEqual => ">="
  | .and => "&&"
  | .or => "||"
  | .coalesce => "??"

/-- The operators before an operand. -/
inductive UnaryOp where
  | not | negate
deriving DecidableEq

/-- The spelling of a unary operator. -/
def UnaryOp.spelling : UnaryOp → String
  | .not => "!"
  | .negate => "-"

/-- The operators after an operand. -/
inductive UpdateOp where
  | increment | decrement
deriving DecidableEq

/-- The spelling of an update operator. -/
def UpdateOp.spelling : UpdateOp → String
  | .increment => "++"
  | .decrement => "--"

/-- The assignment operators. -/
inductive AssignOp where
  | assign | add | subtract | multiply | divide
deriving DecidableEq

/-- The spelling of an assignment operator. -/
def AssignOp.spelling : AssignOp → String
  | .assign => "="
  | .add => "+="
  | .subtract => "-="
  | .multiply => "*="
  | .divide => "/="

/-- An expression. -/
inductive Expr where
  /-- A bare name: a local, a parameter, a member or a type. -/
  | identifier (name : String) (span : Span)
  | literal (value : Literal) (span : Span)
  | binary (op : BinaryOp) (left right : Expr) (span : Span)
  | unary (op : UnaryOp) (operand : Expr) (span : Span)
  | update (op : UpdateOp) (operand : Expr) (span : Span)
  | assign (op : AssignOp) (target value : Expr) (span : Span)
  | call (callee : Expr) (arguments : List Expr) (span : Span)
  /-- Access to the member `name`, which stands at `nameSpan`. -/
  | member (object : Expr) (name : String) (nameSpan : Span) (span : Span)
  /-- Access by a computed key, in square brackets. -/
  | index (object key : Expr) (span : Span)
  | this (span : Span)
  | base (span : Span)
  /-- An object of a type that is no element of the page. -/
  | create (type : TypeRef) (arguments : List Expr) (span : Span)
  /-- A call of the host function at `path`. -/
  | hostCall (path : String) (arguments : List Expr) (span : Span)
  /-- An assignment to a property of a host object. -/
  | hostSet (object property value : Expr) (span : Span)
  /-- A new element of the page. -/
  | domCreate (element : String) (arguments : List Expr) (span : Span)
  /-- A property of an element. -/
  | domProperty (object : Expr) (property : String) (span : Span)
  /-- A method call on an element. -/
  | domCall (object : Expr) (method : String) (arguments : List Expr) (span : Span)
deriving Inhabited

namespace Expr

/-- The span that an expression was read from, without grouping parentheses. -/
def span : Expr → Span
  | .identifier _ span | .literal _ span | .binary _ _ _ span | .unary _ _ span
  | .update _ _ span | .assign _ _ _ span | .call _ _ span | .member _ _ _ span
  | .index _ _ span | .this span | .base span | .create _ _ span | .hostCall _ _ span
  | .hostSet _ _ _ span | .domCreate _ _ span | .domProperty _ _ span
  | .domCall _ _ _ span => span

/-- Can a value be assigned to this expression? -/
def isAssignable : Expr → Bool
  | .identifier .. | .member .. | .index .. | .domProperty .. => true
  | _ => false

end Expr

end ClassScript

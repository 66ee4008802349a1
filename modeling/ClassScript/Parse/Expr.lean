import ClassScript.Number.Read
import ClassScript.Parse.Type
import ClassScript.Token.Escape

/-!
# Reading expressions

Expressions are read by operator precedence. `exprWithin` reads what can begin
an expression, and `climb` goes on as long as the token at hand binds more
strongly than the surroundings. Each operand and each operator of a chain takes
one level of nesting, which bounds the recursion.

The parsers for the single forms take the parser for their operands as an
argument, so they can be used and reasoned about one by one. Some forms are
recognised by shape: a call of `JS.Call` or `JS.Set` is a host form, a member of
an element is an element's property, and a call of such a property is a call on
the element.
-/

namespace ClassScript.Parse

/-- The object whose members `Call` and `Set` reach out to the host. -/
def hostObject : String := "JS"

/-- A parser for operands, by the power of what surrounds them. -/
abbrev Operand : Type := Power → Parse Expr

/-! ### Forms that begin an expression -/

/-- The expression that a single token is. -/
def primaryOf (t : Token) : Except CompileError Expr :=
  match t.kind with
  | .number =>
    match Binary64.ofText? t.text with
    | some value => .ok (.literal (.number value) t.span)
    | none => .error (.atToken (.malformedNumber t.text) t)
  | .string | .char =>
    match Escape.literalValue? t.text with
    | some value => .ok (.literal (.string value) t.span)
    | none => .error (.atToken (.brokenLiteral t.text) t)
  | .kwTrue => .ok (.literal (.boolean true) t.span)
  | .kwFalse => .ok (.literal (.boolean false) t.span)
  | .kwNull => .ok (.literal .null t.span)
  | .identifier => .ok (.identifier t.text t.span)
  | .kwThis => .ok (.this t.span)
  | .kwBase => .ok (.base t.span)
  | _ => .error (.atToken (.unexpectedToken t.display "expression") t)

/-- A single token. It is read even if it is no expression. -/
def primary : Parse Expr := do
  match primaryOf (← advance) with
  | .ok e => return e
  | .error e => throw e

/-- An operator and its operand. -/
def prefixed (operand : Operand) : Parse Expr := do
  let mark ← advance
  let op : UnaryOp := if mark.kind = .not then .not else .negate
  let e ← operand .unary
  return .unary op e ⟨mark.span.start, e.span.stop⟩

/-- An expression in parentheses, which leave no trace. -/
def grouping (operand : Operand) : Parse Expr := do
  let _ ← expect .openParen
  let e ← operand .default
  let _ ← expect .closeParen
  return e

/-- Arguments in parentheses, with commas between them. -/
def arguments (operand : Operand) : Parse (List Expr) := do
  let _ ← expect .openParen
  let items ← commaList .closeParen (operand .default)
  let _ ← expectDescribed .closeParen "`,` or `)`"
  return items

/-- Is the type the bare name of an element type? -/
def isPlainElement (t : TypeRef) : Bool :=
  Dom.isElement t.name && t.arguments.isEmpty && !t.isArray && !t.nullable

/-- A new object. A bare element type makes an element. -/
def creation (operand : Operand) : Parse Expr := do
  let start := (← expect .kwNew).span.start
  let type ← typeRef .default
  let arguments ← arguments operand
  let span ← spanFrom start
  return if isPlainElement type then .domCreate type.name arguments span
    else .create type arguments span

/-- Whatever can begin an expression. -/
def beginning (operand : Operand) : Parse Expr := do
  match ← kind with
  | .number | .string | .char | .kwTrue | .kwFalse | .kwNull | .identifier | .kwThis | .kwBase =>
    primary
  | .not | .dash => prefixed operand
  | .openParen => grouping operand
  | .kwNew => creation operand
  | _ => fail (·.unexpected "expression")

/-! ### Forms that continue an expression -/

/-- A binary operator and its right operand, which binds more strongly. -/
def binary (operand : Operand) (left : Expr) (power : Power) : Parse Expr := do
  match (← kind).binaryOp? with
  | none => fail (·.unexpected "binary operator")
  | some op =>
    let _ ← advance
    let right ← operand power
    return .binary op left right ⟨left.span.start, right.span.stop⟩

/-- The operator that falls back on null groups to the right. -/
def coalesce (operand : Operand) (left : Expr) : Parse Expr := do
  let _ ← expect .nullCoalesce
  let right ← operand .assignment
  return .binary .coalesce left right ⟨left.span.start, right.span.stop⟩

/-- Reads an operator that assigns to `target`. -/
def assigning (target : Expr) : Parse Token := do
  let mark ← advance
  if target.isAssignable then return mark
  else
    throw (.atToken
      (.unexpectedTokenDetailed mark.display "left-hand side is not assignable") mark)

/-- An assignment groups to the right. -/
def assignment (operand : Operand) (left : Expr) : Parse Expr := do
  let mark ← assigning left
  let right ← operand .default
  return .assign mark.kind.assignOp left right ⟨left.span.start, right.span.stop⟩

/-- An increment or decrement after its operand. -/
def update (left : Expr) : Parse Expr := do
  let mark ← assigning left
  let op : UpdateOp := if mark.kind = .minusMinus then .decrement else .increment
  return .update op left ⟨left.span.start, mark.span.stop⟩

/-- The member of the host object that a callee names. -/
def hostMember? : Expr → Option String
  | .member (.identifier object _) name _ _ => if object = hostObject then some name else none
  | _ => none

/-- The call of `callee`. A host form that is not well formed is an error at its
first argument or at its parenthesis. -/
def callOf (callee : Expr) (arguments : List Expr) (span : Span) (paren first : Token) :
    Except CompileError Expr :=
  match hostMember? callee with
  | some "Call" =>
    match arguments with
    | .literal (.string path) _ :: arguments => .ok (.hostCall path arguments span)
    | _ => .error (.atToken (.hostCallPathNotString first.display) first)
  | some "Set" =>
    match arguments with
    | [object, property, value] => .ok (.hostSet object property value span)
    | _ => .error (.atToken (.hostSetArity arguments.length) paren)
  | _ =>
    match callee with
    | .domProperty object property _ => .ok (.domCall object property arguments span)
    | _ => .ok (.call callee arguments span)

/-- The arguments that make a call of the expression before them. -/
def call (operand : Operand) (left : Expr) : Parse Expr := do
  let s ← get
  let arguments ← arguments operand
  let span ← spanFrom left.span.start
  match callOf left arguments span s.current (s.peek 1) with
  | .ok e => return e
  | .error e => throw e

/-- A point and the name of a member. -/
def member (left : Expr) : Parse Expr := do
  let _ ← expect .dot
  let name ← expectDescribed .identifier "member name"
  let span : Span := ⟨left.span.start, name.span.stop⟩
  return if (← get).scope.isDomValue left then .domProperty left name.text span
    else .member left name.text name.span span

/-- A key in square brackets. -/
def index (operand : Operand) (left : Expr) : Parse Expr := do
  let _ ← expect .openBracket
  let key ← operand .default
  let _ ← expect .closeBracket
  return .index left key (← spanFrom left.span.start)

/-- Whatever can continue an expression, by the token at hand. -/
def continuation (operand : Operand) (left : Expr) (power : Power) : Parse Expr := do
  match ← kind with
  | .assignment | .plusEquals | .minusEquals | .starEquals | .slashEquals =>
    assignment operand left
  | .nullCoalesce => coalesce operand left
  | .openParen => call operand left
  | .plusPlus | .minusMinus => update left
  | .dot => member left
  | .openBracket => index operand left
  | _ => binary operand left power

/-! ### Expressions -/

mutual

/-- An expression that binds more strongly than `power`, nesting at most
`budget` levels. -/
def exprWithin : Nat → Power → Parse Expr
  | 0, _ => tooDeep
  | budget + 1, power => do
    deepen
    let left ← beginning (exprWithin budget)
    let e ← climb budget power left
    surface 1
    return e

/-- Continues `left` as long as the token at hand binds more strongly than
`power`. -/
def climb : Nat → Power → Expr → Parse Expr
  | budget, power, left => do
    match (← kind).power? with
    | none => return left
    | some own =>
      if power < own then
        match budget with
        | 0 => tooDeep
        | budget + 1 =>
          deepen
          let longer ← continuation (exprWithin budget) left own
          let e ← climb budget power longer
          surface 1
          return e
      else return left

end

/-- An expression that binds more strongly than `power`. -/
def expr (power : Power) : Parse Expr := do
  exprWithin (← get).budget power

end ClassScript.Parse

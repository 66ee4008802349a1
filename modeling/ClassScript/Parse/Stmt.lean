import ClassScript.Parse.Expr
import ClassScript.Parse.Lookahead
import ClassScript.Tree.Stmt

/-!
# Reading statements

A statement that begins with no keyword is a local declaration if it looks like
one, and an expression otherwise. Branches and loops are read in full and then
replaced by a mark.
-/

namespace ClassScript.Parse

/-- An expression and a semicolon. -/
def expressionStmt : Parse Stmt := do
  let e ← expr .default
  let _ ← expect .semicolon
  return .expression e (← spanFrom e.span.start)

/-- An equals sign and a value, if there is one. -/
def initialValue : Parse (Option Expr) := do
  if ← accept .assignment then return some (← expr .default) else return none

/-- Does the value make an element? -/
def makesElement : Option Expr → Bool
  | some (.domCreate ..) => true
  | _ => false

/-- The declaration of a local, which is in scope from here on. -/
def localStmt : Parse Stmt := do
  let start ← position
  let type ← typeRef .default
  let name := (← expectDescribed .identifier "variable name").text
  let value ← initialValue
  let _ ← expect .semicolon
  modifyScope (·.declareLocal name (Dom.isElement type.name || makesElement value))
  return .variable type name value (← spanFrom start)

/-- Is there another item before the closing brace? -/
def beforeCloseCurly (s : State) : Bool :=
  s.hasTokens && s.kind ≠ .closeCurly

/-- Statements in braces. -/
def blockOf (stmt : Parse Stmt) : Parse Block := do
  let start := (← expect .openCurly).span.start
  let body ← many beforeCloseCurly stmt
  let _ ← expect .closeCurly
  return ⟨body, ← spanFrom start⟩

/-- A block as a statement. -/
def blockStmt (stmt : Parse Stmt) : Parse Stmt := do
  let block ← blockOf stmt
  return .block block.body block.span

/-- A return, with a value or without. -/
def returnStmt : Parse Stmt := do
  let start := (← expect .kwReturn).span.start
  let value ← if (← kind) = .semicolon then pure none else some <$> expr .default
  let _ ← expect .semicolon
  return .return value (← spanFrom start)

/-- The condition of a branch or loop. -/
def condition : Parse Expr :=
  grouping expr

/-- A branch. -/
def ifStmt (stmt : Parse Stmt) : Parse Stmt := do
  let start := (← expect .kwIf).span.start
  let _ ← condition
  let _ ← stmt
  if ← accept .kwElse then
    let _ ← stmt
  return .unsupported .ifElse (← spanFrom start)

/-- A loop with a condition. -/
def whileStmt (stmt : Parse Stmt) : Parse Stmt := do
  let start := (← expect .kwWhile).span.start
  let _ ← condition
  let _ ← stmt
  return .unsupported .whileLoop (← spanFrom start)

/-- A statement that begins with no keyword. -/
def plainStmt : Parse Stmt := do
  if looksLikeDeclaration (← get).tokens then localStmt else expressionStmt

/-- An expression, unless a token of kind `stop` comes first; then that token. -/
def optionalBefore (stop : Kind) : Parse Unit := do
  if (← kind) ≠ stop then
    let _ ← expr .default
  let _ ← expect stop

/-- A loop with a counter. Each of its three parts may be missing. -/
def forStmt (stmt : Parse Stmt) : Parse Stmt := do
  let start := (← expect .kwFor).span.start
  let _ ← expect .openParen
  if !(← accept .semicolon) then
    let _ ← plainStmt
  optionalBefore .semicolon
  optionalBefore .closeParen
  let _ ← stmt
  return .unsupported .forLoop (← spanFrom start)

/-- A statement whose inner statements are read by `stmt`. -/
def stmtOf (stmt : Parse Stmt) : Parse Stmt := do
  match ← kind with
  | .kwReturn => returnStmt
  | .kwIf => ifStmt stmt
  | .kwWhile => whileStmt stmt
  | .kwFor => forStmt stmt
  | .openCurly => blockStmt stmt
  | _ => plainStmt

/-- A statement, nesting at most `budget` levels. -/
def stmtWithin : Nat → Parse Stmt
  | 0 => tooDeep
  | budget + 1 => do
    deepen
    let s ← stmtOf (stmtWithin budget)
    surface 1
    return s

/-- A statement. -/
def stmt : Parse Stmt := do
  stmtWithin (← get).budget

/-- A block. -/
def block : Parse Block :=
  blockOf stmt

end ClassScript.Parse

import ClassScript.Tree.Decl

/-!
# Features that a unit uses

A script needs support code for the forms that reach out to the host and for
those that deal with elements of the page. Which of the two occur in a unit is
found by a walk over all expressions of its members.
-/

namespace ClassScript.Script

/-- The kinds of support code. -/
structure Features where
  interop : Bool
  dom : Bool
deriving DecidableEq

namespace Features

/-- No support code. -/
def none : Features := ⟨false, false⟩

/-- The support code for forms that reach out to the host. -/
def ofInterop : Features := ⟨true, false⟩

/-- The support code for elements of the page. -/
def ofDom : Features := ⟨false, true⟩

/-- What either of the two needs. -/
def or (a b : Features) : Features :=
  ⟨a.interop || b.interop, a.dom || b.dom⟩

/-- What any of the given parts needs. -/
def any : List Features → Features :=
  List.foldr or none

mutual

/-- What an expression needs. -/
def ofExpr : Expr → Features
  | .identifier .. | .literal .. | .this .. | .base .. => none
  | .binary _ left right _ => (ofExpr left).or (ofExpr right)
  | .unary _ operand _ | .update _ operand _ => ofExpr operand
  | .assign _ target value _ => (ofExpr target).or (ofExpr value)
  | .call callee arguments _ => (ofExpr callee).or (ofExprs arguments)
  | .member object _ _ _ => ofExpr object
  | .index object key _ => (ofExpr object).or (ofExpr key)
  | .create _ arguments _ => ofExprs arguments
  | .hostCall _ arguments _ => ofInterop.or (ofExprs arguments)
  | .hostSet object property value _ =>
    ofInterop.or ((ofExpr object).or ((ofExpr property).or (ofExpr value)))
  | .domCreate _ arguments _ => ofDom.or (ofExprs arguments)
  | .domProperty object _ _ => ofDom.or (ofExpr object)
  | .domCall object _ arguments _ => ofDom.or ((ofExpr object).or (ofExprs arguments))

/-- What expressions need. -/
def ofExprs : List Expr → Features
  | [] => none
  | e :: es => (ofExpr e).or (ofExprs es)

end

/-- What an expression needs, if there is one. -/
def ofExpr? : Option Expr → Features
  | some e => ofExpr e
  | .none => none

mutual

/-- What a statement needs. -/
def ofStmt : Stmt → Features
  | .block body _ => ofStmts body
  | .expression e _ => ofExpr e
  | .variable _ _ value _ => ofExpr? value
  | .return value _ => ofExpr? value
  | .unsupported .. => none

/-- What statements need. -/
def ofStmts : List Stmt → Features
  | [] => none
  | s :: ss => (ofStmt s).or (ofStmts ss)

end

/-- What parameters need. -/
def ofParameters (parameters : List Parameter) : Features :=
  any (parameters.map fun p => ofExpr? p.defaultValue)

/-- What a body needs, if there is one. -/
def ofBlock? : Option Block → Features
  | some block => ofStmts block.body
  | .none => none

/-- What the call to another constructor needs, if there is one. -/
def ofChain? : Option ConstructorChain → Features
  | some chain => ofExprs chain.arguments
  | .none => none

/-- What a member needs. -/
def ofMember : Member → Features
  | .method m => (ofParameters m.parameters).or (ofBlock? m.body)
  | .constructor c =>
    (ofParameters c.parameters).or ((ofChain? c.chain).or (ofStmts c.body.body))
  | .field f => ofExpr? f.initializer
  | .property p => ofExpr? p.initializer

/-- What a unit needs. -/
def ofUnit (unit : CompilationUnit) : Features :=
  any (unit.classes.flatMap fun c => c.members.map ofMember)

end Features

end ClassScript.Script

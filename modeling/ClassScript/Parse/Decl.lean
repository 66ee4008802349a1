import ClassScript.Parse.Stmt
import ClassScript.Token.Scan
import ClassScript.Tree.Decl

/-!
# Reading declarations

Classes and their members, using directives and namespaces, and the compilation
unit that they make up. What a top-level declaration contributes to the unit is
a value, and the unit is the sum of the contributions in order.
-/

namespace ClassScript.Parse

/-! ### Modifiers -/

/-- The modifiers before a declaration. -/
structure Modifiers where
  accessibility : Option Accessibility
  isStatic : Bool
  isVirtual : Bool
  isOverride : Bool
  isAbstract : Bool
  isSealed : Bool
  isReadonly : Bool
  isConst : Bool
deriving DecidableEq

namespace Modifiers

/-- No modifier. -/
def empty : Modifiers := ⟨none, false, false, false, false, false, false, false⟩

/-- Adds a modifier keyword. Of several words on access the last one counts. -/
def add (m : Modifiers) : Kind → Modifiers
  | .kwPublic => { m with accessibility := some .publicAccess }
  | .kwPrivate => { m with accessibility := some .privateAccess }
  | .kwProtected => { m with accessibility := some .protectedAccess }
  | .kwInternal => { m with accessibility := some .internalAccess }
  | .kwStatic => { m with isStatic := true }
  | .kwVirtual => { m with isVirtual := true }
  | .kwOverride => { m with isOverride := true }
  | .kwAbstract => { m with isAbstract := true }
  | .kwSealed => { m with isSealed := true }
  | .kwReadonly => { m with isReadonly := true }
  | .kwConst => { m with isConst := true }
  | _ => m

/-- The access of a member; a member without a word on it is private. -/
def memberAccess (m : Modifiers) : Accessibility :=
  m.accessibility.getD .privateAccess

end Modifiers

/-- The modifiers at hand. -/
def modifiers : Parse Modifiers := do
  let marks ← many (·.kind.isModifier) advance
  return marks.foldl (fun m t => m.add t.kind) .empty

/-! ### Members -/

/-- A parameter, which is in scope from its end on. -/
def parameter : Parse Parameter := do
  let start ← position
  let type ← typeRef .default
  let name := (← expectDescribed .identifier "parameter name").text
  let defaultValue ← initialValue
  modifyScope (·.declareLocal name (Dom.isElement type.name))
  return { name, type, defaultValue, span := ← spanFrom start }

/-- Parameters in parentheses, with commas between them. -/
def parameters : Parse (List Parameter) := do
  let _ ← expect .openParen
  let items ← commaList .closeParen parameter
  let _ ← expectDescribed .closeParen "`,` or `)`"
  return items

/-- The constructor that runs first, if a colon announces one. -/
def constructorChain : Parse (Option ConstructorChain) := do
  if (← kind) ≠ .colon then return none
  let start := (← advance).span.start
  let target : ChainTarget ←
    match ← kind with
    | .kwBase => pure .base
    | .kwThis => pure .this
    | _ => fail (·.unexpected "`base` or `this`")
  let _ ← advance
  let arguments ← arguments expr
  return some { target, arguments, span := ← spanFrom start }

/-- A constructor, whose name is at hand. -/
def constructor (m : Modifiers) (start : Position) : Parse Member := do
  let name := (← expect .identifier).text
  let parameters ← parameters
  let chain ← constructorChain
  let body ← block
  return .constructor
    { name, parameters, chain, body, accessibility := m.memberAccess, isStatic := m.isStatic,
      span := ← spanFrom start }

/-- A method body that is a single expression: its value is returned, unless the
method returns nothing. -/
def expressionBody (isVoid : Bool) : Parse Block := do
  let start := (← expect .fatArrow).span.start
  let e ← expr .default
  let _ ← expect .semicolon
  let span ← spanFrom start
  return ⟨[if isVoid then .expression e span else .return (some e) span], span⟩

/-- The body of a method, or a semicolon in its place. -/
def methodBody (isVoid : Bool) : Parse (Option Block) := do
  match ← kind with
  | .semicolon =>
    let _ ← advance
    return none
  | .fatArrow => return some (← expressionBody isVoid)
  | _ => return some (← block)

/-- A method, from its parameters on. -/
def method (m : Modifiers) (returnType : TypeRef) (name : String) (start : Position) :
    Parse Member := do
  let parameters ← parameters
  let body ← methodBody returnType.isVoid
  return .method
    { name, returnType, parameters, body, accessibility := m.memberAccess, isStatic := m.isStatic,
      isVirtual := m.isVirtual, isOverride := m.isOverride, isAbstract := m.isAbstract,
      span := ← spanFrom start }

/-- Reads tokens up to the brace that closes the outermost of `depth` open ones,
and says whether there is one before the end of the input. -/
def closeBraces (depth : Nat) (s : State) : State × Bool :=
  if s.next.remaining < s.remaining then
    match s.kind with
    | .openCurly => closeBraces (depth + 1) s.next
    | .closeCurly => if depth = 1 then (s.next, true) else closeBraces (depth - 1) s.next
    | _ => closeBraces depth s.next
  else (s, false)
termination_by s.remaining

/-- Reads balanced braces and all that is between them. -/
def skipBraced : Parse Unit := do
  let _ ← expect .openCurly
  let (s, closed) := closeBraces 1 (← get)
  set s
  if !closed then fail (·.unexpected "`\x7d`")

/-- The accessors of a property. -/
inductive Accessor where
  | getter
  | setter
deriving DecidableEq

/-- The accessor that a token names. -/
def accessorOf? (t : Token) : Option Accessor :=
  if t.kind ≠ .identifier then none
  else if t.text = "get" then some .getter
  else if t.text = "set" then some .setter
  else none

/-- The body of an accessor, which is not kept. -/
def accessorBody : Parse Unit := do
  match ← kind with
  | .semicolon =>
    let _ ← advance
  | .openCurly => skipBraced
  | .fatArrow =>
    let _ ← advance
    let _ ← expr .default
    let _ ← expect .semicolon
  | _ => fail (·.unexpected "`;`, `\x7b` or `=>`")

/-- An accessor with its modifiers and its body. -/
def accessor : Parse Accessor := do
  let _ ← modifiers
  match accessorOf? (← get).current with
  | none => fail (·.unexpected "`get` or `set`")
  | some which =>
    let _ ← advance
    accessorBody
    return which

/-- A property, from its accessors on. -/
def property (m : Modifiers) (type : TypeRef) (name : String) (start : Position) :
    Parse Member := do
  let _ ← expect .openCurly
  let accessors ← many beforeCloseCurly accessor
  let _ ← expect .closeCurly
  let initializer ← initialValue
  if initializer.isSome then
    let _ ← expect .semicolon
  return .property
    { name, type, hasGetter := accessors.contains .getter, hasSetter := accessors.contains .setter,
      initializer, accessibility := m.memberAccess, isStatic := m.isStatic,
      isVirtual := m.isVirtual, isOverride := m.isOverride, isAbstract := m.isAbstract,
      span := ← spanFrom start }

/-- A field, from its first value on. -/
def field (m : Modifiers) (type : TypeRef) (name : String) (start : Position) : Parse Member := do
  let initializer ← initialValue
  let _ ← expect .semicolon
  return .field
    { name, type, initializer, accessibility := m.memberAccess, isStatic := m.isStatic,
      isReadonly := m.isReadonly, isConst := m.isConst, span := ← spanFrom start }

/-- Does a constructor of the class begin at the token at hand? -/
def startsConstructor (className : String) (s : State) : Bool :=
  s.kind = .identifier && s.current.text == className && s.peekKind 1 = .openParen

/-- A member of the class named `className`. -/
def classMember (className : String) : Parse Member := do
  let start ← position
  let m ← modifiers
  modifyScope (·.beginMember)
  if startsConstructor className (← get) then constructor m start
  else
    let type ← typeRef .default
    let name := (← expectDescribed .identifier "member name").text
    match ← kind with
    | .openParen => method m type name start
    | .openCurly => property m type name start
    | .semicolon | .assignment => field m type name start
    | _ => fail (·.unexpectedDetailed "expected `(`, `\x7b`, `;` or `=` after member name")

/-! ### Classes -/

/-- The names after the colon of a class. -/
def baseNames : Parse (List String) := do
  if ← accept .colon then
    return (← commaSeparated (typeRef .default)).map TypeRef.name
  else return []

/-- A class. -/
def classDecl : Parse ClassDecl := do
  let start ← position
  let m ← modifiers
  let _ ← expect .kwClass
  let name := (← expectDescribed .identifier "class name").text
  let bases ← baseNames
  let _ ← expect .openCurly
  beginClass name
  let members ← many beforeCloseCurly (classMember name)
  let _ ← expect .closeCurly
  endClass
  let (baseClass, interfaces) :=
    match bases with
    | [base] => (some base, [])
    | _ => (none, bases)
  return {
    name, baseClass, interfaces, accessibility := m.accessibility.getD .internalAccess,
    isStatic := m.isStatic, isAbstract := m.isAbstract, isSealed := m.isSealed, members,
    span := ← spanFrom start }

/-! ### Compilation units -/

/-- What a top-level declaration adds to its unit. -/
structure Contribution where
  imports : List String
  namespaceName : Option String
  classes : List ClassDecl

namespace Contribution

/-- Nothing. -/
def empty : Contribution := ⟨[], none, []⟩

/-- First `a`, then `b`. The first namespace name counts. -/
def append (a b : Contribution) : Contribution :=
  ⟨a.imports ++ b.imports, a.namespaceName <|> b.namespaceName, a.classes ++ b.classes⟩

/-- All contributions in order. -/
def concat (parts : List Contribution) : Contribution :=
  parts.foldr append empty

end Contribution

/-- A using directive. -/
def usingDirective : Parse String := do
  let _ ← expect .kwUsing
  let name ← dottedName Kind.identifier.describe
  let _ ← expect .semicolon
  return name

/-- A namespace. It holds the declarations that `body` reads between braces, or
is closed by a semicolon and holds none. -/
def namespaceOf (body : Parse (List Contribution)) : Parse Contribution := do
  let _ ← expect .kwNamespace
  let name ← dottedName Kind.identifier.describe
  let own : Contribution := ⟨[], some name, []⟩
  if ← accept .semicolon then return own
  else
    let _ ← expectDescribed .openCurly "`\x7b` or `;`"
    let parts ← body
    let _ ← expect .closeCurly
    return own.append (.concat parts)

/-- A top-level declaration, where `body` reads what a namespace holds. -/
def topLevelOf (body : Parse (List Contribution)) : Parse Contribution := do
  match ← kind with
  | .kwUsing => return ⟨[← usingDirective], none, []⟩
  | .kwNamespace => namespaceOf body
  | _ => return ⟨[], none, [← classDecl]⟩

/-- A top-level declaration, nesting at most `budget` levels. -/
def topLevelWithin : Nat → Parse Contribution
  | 0 => topLevelOf tooDeep
  | budget + 1 =>
    topLevelOf do
      deepen
      let parts ← many beforeCloseCurly (topLevelWithin budget)
      surface 1
      return parts

/-- A top-level declaration. -/
def topLevel : Parse Contribution := do
  topLevelWithin (← get).budget

/-- All declarations up to the end of the input. -/
def compilationUnit : Parse CompilationUnit := do
  let start ← position
  let parts ← many State.hasTokens topLevel
  let whole := Contribution.concat parts
  return {
    imports := whole.imports, namespaceName := whole.namespaceName, classes := whole.classes,
    span := ← spanFrom start }

end ClassScript.Parse

namespace ClassScript

/-- The compilation unit that a token list spells. -/
def parseTokens (tokens : List Token) : Except CompileError CompilationUnit :=
  match Parse.compilationUnit (.ofTokens tokens) with
  | .ok unit _ => .ok unit
  | .error e _ => .error e

/-- Reads a source text. The first error stops the compilation. -/
def compile (source : String) : Except CompileError CompilationUnit := do
  parseTokens (← tokenize source)

end ClassScript

import ClassScript.Tree.Decl

/-!
# Names in a script

Parameters and locals keep their names, except that a word the script language
reserves gets an underscore in front. Members are reached through `this` or
through the class. `Scope` says which is which inside a member, and `resolve`
turns a bare name of the source into what reaches the same thing.
-/

namespace ClassScript.Script

/-- The words that cannot name a parameter or variable in strict code. -/
def reservedWords : List String :=
  ["arguments", "await", "break", "case", "catch", "class", "const", "continue",
   "debugger", "default", "delete", "do", "else", "enum", "eval", "export",
   "extends", "false", "finally", "for", "function", "if", "implements", "import",
   "in", "instanceof", "interface", "let", "new", "null", "package", "private",
   "protected", "public", "return", "static", "super", "switch", "this", "throw",
   "true", "try", "typeof", "var", "void", "while", "with", "yield"]

/-- The name that a parameter or local has in the script. -/
def bindingName (name : String) : String :=
  if reservedWords.contains name then "_" ++ name else name

/-- The name of the slot that holds the value of a property. -/
def backingSlot (property : String) : String :=
  "__" ++ property

/-- The names visible inside a member of a class. -/
structure Scope where
  className : String
  instanceMembers : List String
  staticMembers : List String
  locals : List String
deriving DecidableEq

namespace Scope

/-- Is the member reached by name? Constructors are not. -/
def isNamed : Member → Bool
  | .constructor _ => false
  | _ => true

/-- The names that the members of a class are reached by. -/
def ofClass (c : ClassDecl) : Scope :=
  let named := c.members.filter isNamed
  { className := c.name
    instanceMembers := (named.filter (!·.isStatic)).map Member.name
    staticMembers := (named.filter (·.isStatic)).map Member.name
    locals := [] }

/-- Adds a local. -/
def declare (s : Scope) (name : String) : Scope :=
  { s with locals := s.locals.insert name }

/-- Adds parameters. -/
def declareParameters (s : Scope) (parameters : List Parameter) : Scope :=
  parameters.foldl (fun s p => s.declare p.name) s

/-- What a bare name of the source is in the script. Locals come first, then
instance members, then static ones; any other name is left as it is. -/
def resolve (s : Scope) (name : String) : String :=
  if s.locals.contains name then bindingName name
  else if s.instanceMembers.contains name then "this." ++ name
  else if s.staticMembers.contains name then s.className ++ "." ++ name
  else name

end Scope

/-- What a bare name is where there may be no class around it. -/
def resolve (scope : Option Scope) (name : String) : String :=
  match scope with
  | some s => s.resolve name
  | none => name

end ClassScript.Script

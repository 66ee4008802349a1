import ClassScript.Tree.Stmt

/-!
# Declarations

Classes with their members, and the compilation unit that holds the classes of
a source text. Namespaces are flattened: a unit remembers one namespace name
and lists the classes of all of them.
-/

namespace ClassScript

/-- Who may use a declaration. -/
inductive Accessibility where
  | publicAccess | privateAccess | protectedAccess | internalAccess
deriving DecidableEq, Inhabited

/-- A parameter of a method or constructor. -/
structure Parameter where
  name : String
  type : TypeRef
  defaultValue : Option Expr
  span : Span
deriving Inhabited

/-- A method. A method declared without a body has none. -/
structure Method where
  name : String
  returnType : TypeRef
  parameters : List Parameter
  body : Option Block
  accessibility : Accessibility
  isStatic : Bool
  isVirtual : Bool
  isOverride : Bool
  isAbstract : Bool
  span : Span
deriving Inhabited

/-- A property. The bodies of its accessors are not kept. -/
structure Property where
  name : String
  type : TypeRef
  hasGetter : Bool
  hasSetter : Bool
  initializer : Option Expr
  accessibility : Accessibility
  isStatic : Bool
  isVirtual : Bool
  isOverride : Bool
  isAbstract : Bool
  span : Span
deriving Inhabited

/-- A field. -/
structure Field where
  name : String
  type : TypeRef
  initializer : Option Expr
  accessibility : Accessibility
  isStatic : Bool
  isReadonly : Bool
  isConst : Bool
  span : Span
deriving Inhabited

/-- The constructor that a constructor runs first. -/
inductive ChainTarget where
  | base | this
deriving DecidableEq, Inhabited

/-- The call to another constructor that stands before a constructor's body. -/
structure ConstructorChain where
  target : ChainTarget
  arguments : List Expr
  span : Span
deriving Inhabited

/-- A constructor. -/
structure Constructor where
  name : String
  parameters : List Parameter
  chain : Option ConstructorChain
  body : Block
  accessibility : Accessibility
  isStatic : Bool
  span : Span
deriving Inhabited

/-- A member of a class. -/
inductive Member where
  | method (method : Method)
  | property (property : Property)
  | field (field : Field)
  | constructor (constructor : Constructor)
deriving Inhabited

/-- The kinds of members. -/
inductive MemberKind where
  | method | property | field | constructor
deriving DecidableEq

namespace Member

/-- The kind of a member. -/
def kind : Member → MemberKind
  | .method _ => .method
  | .property _ => .property
  | .field _ => .field
  | .constructor _ => .constructor

/-- The name of a member; a constructor has the name of its class. -/
def name : Member → String
  | .method m => m.name
  | .property p => p.name
  | .field f => f.name
  | .constructor c => c.name

/-- Does the member belong to the class itself? -/
def isStatic : Member → Bool
  | .method m => m.isStatic
  | .property p => p.isStatic
  | .field f => f.isStatic
  | .constructor c => c.isStatic

/-- The span that a member was read from. -/
def span : Member → Span
  | .method m => m.span
  | .property p => p.span
  | .field f => f.span
  | .constructor c => c.span

/-- The method that a member is. -/
def method? : Member → Option Method
  | .method m => some m
  | _ => none

/-- The property that a member is. -/
def property? : Member → Option Property
  | .property p => some p
  | _ => none

/-- The field that a member is. -/
def field? : Member → Option Field
  | .field f => some f
  | _ => none

/-- The constructor that a member is. -/
def constructor? : Member → Option Constructor
  | .constructor c => some c
  | _ => none

end Member

/-- A class. One name after the colon is the base class; two or more are all
interfaces. -/
structure ClassDecl where
  name : String
  baseClass : Option String
  interfaces : List String
  accessibility : Accessibility
  isStatic : Bool
  isAbstract : Bool
  isSealed : Bool
  members : List Member
  span : Span
deriving Inhabited

namespace ClassDecl

/-- The methods of a class, in order. -/
def methods (c : ClassDecl) : List Method := c.members.filterMap Member.method?

/-- The properties of a class, in order. -/
def properties (c : ClassDecl) : List Property := c.members.filterMap Member.property?

/-- The fields of a class, in order. -/
def fields (c : ClassDecl) : List Field := c.members.filterMap Member.field?

/-- The constructors of a class, in order. -/
def constructors (c : ClassDecl) : List Constructor := c.members.filterMap Member.constructor?

end ClassDecl

/-- What one source text declares. -/
structure CompilationUnit where
  imports : List String
  namespaceName : Option String
  classes : List ClassDecl
  span : Span
deriving Inhabited

/-- The first class with the given name. -/
def CompilationUnit.findClass? (unit : CompilationUnit) (name : String) : Option ClassDecl :=
  unit.classes.find? (·.name == name)

end ClassScript

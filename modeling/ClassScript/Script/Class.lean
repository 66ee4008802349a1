import ClassScript.Script.Stmt

/-!
# Emitting classes

A class becomes a class of the script: a slot for each instance field and
property, the first instance constructor, a pair of accessors for each property,
and the methods. Static slots and the first static constructor follow the class,
so that their code can refer to it.
-/

namespace ClassScript.Script

/-- The value of a slot of type `t` before anything is assigned to it. -/
def defaultValue (t : TypeRef) : String :=
  if t.isNumeric then "0" else if t.isBool then "false" else "null"

/-- A named place for a value. -/
structure Slot where
  name : String
  type : TypeRef
  initializer : Option Expr
  isStatic : Bool

/-- The slot that a member needs. -/
def slot? : Member → Option Slot
  | .field f => some ⟨f.name, f.type, f.initializer, f.isStatic⟩
  | .property p => some ⟨backingSlot p.name, p.type, p.initializer, p.isStatic⟩
  | _ => none

/-- The slots of the instances of a class. -/
def instanceSlots (c : ClassDecl) : List Slot :=
  (c.members.filterMap slot?).filter (!·.isStatic)

/-- The slots of a class itself. -/
def staticSlots (c : ClassDecl) : List Slot :=
  (c.members.filterMap slot?).filter (·.isStatic)

/-- The first value of a slot. -/
def Slot.value (s : Slot) (scope : Scope) : String :=
  match s.initializer with
  | some e => exprText scope e
  | none => defaultValue s.type

/-- The constructor of the instances: the first one declared. -/
def instanceConstructor? (c : ClassDecl) : Option Constructor :=
  c.constructors.find? (!·.isStatic)

/-- The constructor of the class itself: the first one declared. -/
def staticConstructor? (c : ClassDecl) : Option Constructor :=
  c.constructors.find? (·.isStatic)

/-- The text of a parameter, with its default value if it has one. -/
def parameterText (scope : Scope) (p : Parameter) : String :=
  match p.defaultValue with
  | some e => bindingName p.name ++ " = " ++ exprText scope e
  | none => bindingName p.name

/-- The text of a parameter list. -/
def parametersText (scope : Scope) (parameters : List Parameter) : String :=
  commaJoined (parameters.map (parameterText scope))

/-- The word before a static member. -/
def staticWord (isStatic : Bool) : String :=
  if isStatic then "static " else ""

/-- The lines that run the constructor of the base class. Where there is no base
class there is nothing to run, and running another constructor of the same class
has no form in the script. -/
def chainLines (level : Nat) (scope : Scope) (hasBase : Bool) :
    Option ConstructorChain → List Line
  | none => if hasBase then [.code level "super();"] else []
  | some ⟨.base, arguments, _⟩ =>
    if hasBase then [.code level ("super(" ++ commaJoined (exprTexts scope arguments) ++ ");")]
    else []
  | some ⟨.this, _, _⟩ =>
    (if hasBase then [.code level "super();"] else [])
      ++ [.code level "/* unsupported: this(...) constructor initializer */"]

/-- The lines of a constructor. -/
def constructorLines (level : Nat) (c : ClassDecl) (k : Constructor) : List Line :=
  let scope := (Scope.ofClass c).declareParameters k.parameters
  .code level ("constructor(" ++ parametersText scope k.parameters ++ ") \x7b")
    :: chainLines (level + 1) scope c.baseClass.isSome k.chain
    ++ bodyLines (level + 1) scope k.body
    ++ [.code level "\x7d"]

/-- The lines of the accessors of a property. -/
def accessorLines (level : Nat) (p : Property) : List Line :=
  let word := staticWord p.isStatic
  let slot := backingSlot p.name
  [.code level (word ++ "get " ++ p.name ++ "() \x7b"),
   .code (level + 1) ("return this." ++ slot ++ ";"),
   .code level "\x7d",
   .blank,
   .code level (word ++ "set " ++ p.name ++ "(value) \x7b"),
   .code (level + 1) ("this." ++ slot ++ " = value;"),
   .code level "\x7d"]

/-- The lines of a method. A method without a body throws. -/
def methodLines (level : Nat) (c : ClassDecl) (m : Method) : List Line :=
  let scope := (Scope.ofClass c).declareParameters m.parameters
  let body :=
    match m.body with
    | some block => bodyLines (level + 1) scope block
    | none =>
      [.code (level + 1)
        ("throw new Error(\"" ++ c.name ++ "." ++ m.name ++ " is not implemented\");")]
  .code level (staticWord m.isStatic ++ m.name ++ "(" ++ parametersText scope m.parameters
      ++ ") \x7b")
    :: body ++ [.code level "\x7d"]

/-- The section of the instance slots, if there are any. -/
def slotSection (level : Nat) (c : ClassDecl) : List (List Line) :=
  let scope := Scope.ofClass c
  match instanceSlots c with
  | [] => []
  | slots => [slots.map fun s => .code level (s.name ++ " = " ++ s.value scope ++ ";")]

/-- The sections of a class body, which blank lines separate. -/
def classSections (level : Nat) (c : ClassDecl) : List (List Line) :=
  slotSection level c
    ++ (instanceConstructor? c).toList.map (constructorLines level c)
    ++ c.properties.map (accessorLines level)
    ++ c.methods.map (methodLines level c)

/-- The first line of a class. -/
def classHeader (c : ClassDecl) : String :=
  match c.baseClass with
  | some base => "class " ++ c.name ++ " extends " ++ base ++ " \x7b"
  | none => "class " ++ c.name ++ " \x7b"

/-- The lines after a class that set up the class itself. -/
def staticLines (c : ClassDecl) : List Line :=
  let scope := Scope.ofClass c
  let slots :=
    (staticSlots c).map fun s => .code 0 (c.name ++ "." ++ s.name ++ " = " ++ s.value scope ++ ";")
  let block :=
    match staticConstructor? c with
    | some k => .code 0 "\x7b" :: bodyLines 1 scope k.body ++ [.code 0 "\x7d"]
    | none => []
  slots ++ block

/-- The lines of a class. -/
def classLines (c : ClassDecl) : List Line :=
  .code 0 (classHeader c) :: separated (classSections 1 c) ++ .code 0 "\x7d" :: staticLines c

end ClassScript.Script

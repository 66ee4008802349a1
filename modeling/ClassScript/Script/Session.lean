import ClassScript.Script.Program

/-!
# Emission sessions

A session writes programs one line after another. What it writes depends on where it
is: the level of indentation of the next line, and the scope that names are resolved
in. Writing a declaration moves both, and moves them back at its end.

A session can be used for a series of programs, and lines can be written to it by hand
in between. Generating a program starts from an empty output.
-/

namespace ClassScript.Script

/-- A session: its options, what is written so far, the level of indentation of the
next line, and the scope that names are resolved in. -/
structure Session where
  options : Options
  output : String
  level : Nat
  scope : Option Scope
deriving DecidableEq

namespace Session

/-- A session that has not written anything. -/
def start (options : Options) : Session := ⟨options, "", 0, none⟩

/-! ### Writing -/

/-- Writes a text as it is. -/
def write (s : Session) (text : String) : Session :=
  { s with output := s.output ++ text }

/-- Ends the line. -/
def endLine (s : Session) : Session := s.write "\n"

/-- Writes a line at the level of the session. -/
def writeLine (s : Session) (text : String) : Session :=
  ((s.write (blanks (s.level * s.options.indentWidth))).write text).endLine

/-- The lines that follow are indented one level more. -/
def indent (s : Session) : Session :=
  { s with level := s.level + 1 }

/-- The lines that follow are indented one level less. -/
def dedent (s : Session) : Session :=
  { s with level := s.level - 1 }

/-! ### Names -/

/-- Resolves names in a scope from here on. -/
def enter (s : Session) (scope : Scope) : Session :=
  { s with scope := scope }

/-- Resolves no names from here on. -/
def leave (s : Session) : Session :=
  { s with scope := none }

/-- Adds a local to the scope, if there is one. -/
def declareLocal (s : Session) (name : String) : Session :=
  { s with scope := s.scope.map (·.declare name) }

/-- What a bare name is in the scope of the session. -/
def resolve (s : Session) (name : String) : String :=
  Script.resolve s.scope name

/-- The text of an expression in the scope of the session. -/
def exprText (s : Session) (e : Expr) : String :=
  Script.exprText s.scope e

/-- The text of arguments in the scope of the session. -/
def argumentsText (s : Session) (arguments : List Expr) : String :=
  commaJoined (exprTexts s.scope arguments)

/-- The text of a parameter in the scope of the session. -/
def parameterText (s : Session) (p : Parameter) : String :=
  match p.defaultValue with
  | some e => bindingName p.name ++ " = " ++ s.exprText e
  | none => bindingName p.name

/-- The text of a parameter list in the scope of the session. -/
def parametersText (s : Session) (parameters : List Parameter) : String :=
  commaJoined (parameters.map s.parameterText)

/-- The first value of a slot in the scope of the session. -/
def slotValue (s : Session) (slot : Slot) : String :=
  match slot.initializer with
  | some e => s.exprText e
  | none => defaultValue slot.type

/-! ### Statements -/

mutual

/-- Writes a statement. -/
def emitStmt (s : Session) : Stmt → Session
  | .block body _ => ((emitStmts (s.writeLine "\x7b").indent body).dedent).writeLine "\x7d"
  | .expression e _ => s.writeLine (s.exprText e ++ ";")
  | .variable _ name none _ =>
    (s.declareLocal name).writeLine ("let " ++ bindingName name ++ ";")
  | .variable _ name (some value) _ =>
    -- The value is resolved before the local is declared.
    let text := s.exprText value
    (s.declareLocal name).writeLine ("let " ++ bindingName name ++ " = " ++ text ++ ";")
  | .return none _ => s.writeLine "return;"
  | .return (some value) _ => s.writeLine ("return " ++ s.exprText value ++ ";")
  | .unsupported construct _ => s.writeLine ("/* unsupported: " ++ construct.describe ++ " */")

/-- Writes statements one after another. -/
def emitStmts (s : Session) : List Stmt → Session
  | [] => s
  | statement :: statements => emitStmts (emitStmt s statement) statements

end

/-- Writes a body, without braces. -/
def emitBody (s : Session) (block : Block) : Session :=
  s.emitStmts block.body

/-- Writes a body in braces, in a scope of its own. The text before the opening brace
is resolved in that scope too. -/
def emitBraced (s : Session) (scope : Scope) (header : Session → String)
    (body : Session → Session) : Session :=
  let s := s.enter scope
  let s := (s.writeLine (header s ++ "\x7b")).indent
  ((body s).dedent.writeLine "\x7d").leave

/-! ### Classes -/

/-- Writes the call of the constructor of the base class. -/
def emitChain (s : Session) (hasBase : Bool) : Option ConstructorChain → Session
  | none => if hasBase then s.writeLine "super();" else s
  | some ⟨.base, arguments, _⟩ =>
    if hasBase then s.writeLine ("super(" ++ s.argumentsText arguments ++ ");") else s
  | some ⟨.this, _, _⟩ =>
    (if hasBase then s.writeLine "super();" else s).writeLine
      "/* unsupported: this(...) constructor initializer */"

/-- Writes a constructor. -/
def emitConstructor (s : Session) (c : ClassDecl) (k : Constructor) : Session :=
  s.emitBraced ((Scope.ofClass c).declareParameters k.parameters)
    (fun s => "constructor(" ++ s.parametersText k.parameters ++ ") ")
    (fun s => (s.emitChain c.baseClass.isSome k.chain).emitBody k.body)

/-- Writes one accessor of a property, with a body of one line. -/
def emitAccessor (s : Session) (header body : String) : Session :=
  ((((s.writeLine header).indent).writeLine body).dedent).writeLine "\x7d"

/-- Writes the accessors of a property. -/
def emitAccessors (s : Session) (p : Property) : Session :=
  let word := staticWord p.isStatic
  let slot := backingSlot p.name
  let s := s.emitAccessor (word ++ "get " ++ p.name ++ "() \x7b") ("return this." ++ slot ++ ";")
  s.endLine.emitAccessor (word ++ "set " ++ p.name ++ "(value) \x7b")
    ("this." ++ slot ++ " = value;")

/-- Writes a method. A method without a body throws. -/
def emitMethod (s : Session) (c : ClassDecl) (m : Method) : Session :=
  s.emitBraced ((Scope.ofClass c).declareParameters m.parameters)
    (fun s => staticWord m.isStatic ++ m.name ++ "(" ++ s.parametersText m.parameters ++ ") ")
    (fun s => match m.body with
      | some block => s.emitBody block
      | none => s.writeLine
          ("throw new Error(\"" ++ c.name ++ "." ++ m.name ++ " is not implemented\");"))

/-- Writes slots with their first values. The text `owner` stands before each name. -/
def emitSlots (s : Session) (owner : String) (slots : List Slot) : Session :=
  slots.foldl (fun s slot => s.writeLine (owner ++ slot.name ++ " = " ++ s.slotValue slot ++ ";")) s

/-- Writes the slots of the instances of a class. -/
def emitInstanceSlots (s : Session) (c : ClassDecl) : Session :=
  ((s.enter (Scope.ofClass c)).emitSlots "" (instanceSlots c)).leave

/-- Writes sections with a blank line between any two of them. -/
def emitSections (s : Session) : List (Session → Session) → Session
  | [] => s
  | [emit] => emit s
  | emit :: sections => emitSections (emit s).endLine sections

/-- The sections of a class body, each as what writes it. -/
def classSections (c : ClassDecl) : List (Session → Session) :=
  (if (instanceSlots c).isEmpty then [] else [fun s => s.emitInstanceSlots c])
    ++ (instanceConstructor? c).toList.map (fun k s => s.emitConstructor c k)
    ++ c.properties.map (fun p s => s.emitAccessors p)
    ++ c.methods.map (fun m s => s.emitMethod c m)

/-- Writes what sets up a class itself. -/
def emitStatics (s : Session) (c : ClassDecl) : Session :=
  let s := ((s.enter (Scope.ofClass c)).emitSlots (c.name ++ ".") (staticSlots c)).leave
  match staticConstructor? c with
  | some k => s.emitBraced (Scope.ofClass c) (fun _ => "") (·.emitBody k.body)
  | none => s

/-- Writes a class. -/
def emitClass (s : Session) (c : ClassDecl) : Session :=
  let s := (s.writeLine (classHeader c)).indent.emitSections (classSections c)
  (s.dedent.writeLine "\x7d").emitStatics c

/-! ### Programs -/

/-- Writes the heading. -/
def emitHeader (s : Session) (unit : CompilationUnit) : Session :=
  let s := s.writeLine "// Generated by sharpjs. Do not edit."
  let s := match unit.namespaceName with
    | some name => s.writeLine ("// namespace " ++ name)
    | none => s
  s.endLine

/-- Writes the support code for features. -/
def emitSupport (s : Session) (features : Features) : Session :=
  let s := s.write consoleSupport
  let s := if features.interop then s.endLine.write interopSupport else s
  if features.dom then s.endLine.write domSupport else s

/-- Writes the call of the entry point, if there is one. -/
def emitEntry (s : Session) (unit : CompilationUnit) : Session :=
  match entryClass? unit with
  | some c => s.endLine.writeLine (c.name ++ ".Main();")
  | none => s

/-- Writes classes, each after a blank line. -/
def emitClasses (s : Session) (classes : List ClassDecl) : Session :=
  classes.foldl (fun s c => s.endLine.emitClass c) s

/-- Writes the script of a unit. -/
def emitProgram (s : Session) (unit : CompilationUnit) : Session :=
  let s := if s.options.emitHeader then s.emitHeader unit else s
  let s := (s.emitSupport (.ofUnit unit)).emitClasses unit.classes
  if s.options.invokeMain then s.emitEntry unit else s

/-- The script of a unit, written from an empty output at level zero and without a
scope. It is handed out, and the output is empty again. -/
def generate (s : Session) (unit : CompilationUnit) : String × Session :=
  let s := { s with output := "", level := 0, scope := none }.emitProgram unit
  (s.output, { s with output := "" })

end Session

end ClassScript.Script

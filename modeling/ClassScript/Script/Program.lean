import ClassScript.Parse.Decl
import ClassScript.Script.Class
import ClassScript.Script.Features
import ClassScript.Script.Support

/-!
# Emitting programs

The script of a compilation unit: a heading, the support code that the unit
needs, its classes in order, and a call of the entry point if one is asked for.
-/

namespace ClassScript.Script

/-- The choices that the shape of a script depends on. -/
structure Options where
  indentWidth : Nat
  emitHeader : Bool
  invokeMain : Bool
deriving DecidableEq

/-- Four blanks a level, a heading, no call of the entry point. -/
def Options.default : Options := ⟨4, true, false⟩

/-- The heading of a script, which names the namespace. -/
def headerLines (unit : CompilationUnit) : List Line :=
  .code 0 "// Generated by sharpjs. Do not edit."
    :: (unit.namespaceName.map fun name => .code 0 ("// namespace " ++ name)).toList
    ++ [.blank]

/-- The support code for features, each part after a blank line. -/
def supportText (features : Features) : String :=
  consoleSupport
    ++ (if features.interop then "\n" ++ interopSupport else "")
    ++ (if features.dom then "\n" ++ domSupport else "")

/-- Is the method an entry point? -/
def isEntryPoint (m : Method) : Bool :=
  m.isStatic && m.name == "Main"

/-- The first class with an entry point. -/
def entryClass? (unit : CompilationUnit) : Option ClassDecl :=
  unit.classes.find? (·.methods.any isEntryPoint)

/-- The call of the entry point, if there is one. -/
def entryLines (unit : CompilationUnit) : List Line :=
  match entryClass? unit with
  | some c => [.blank, .code 0 (c.name ++ ".Main();")]
  | none => []

/-- The lines of all classes, each after a blank line. -/
def classesLines (classes : List ClassDecl) : List Line :=
  classes.flatMap fun c => .blank :: classLines c

/-- The script of a compilation unit. -/
def program (options : Options) (unit : CompilationUnit) : String :=
  let render := renderLines options.indentWidth
  (if options.emitHeader then render (headerLines unit) else "")
    ++ supportText (.ofUnit unit)
    ++ render (classesLines unit.classes)
    ++ (if options.invokeMain then render (entryLines unit) else "")

end ClassScript.Script

namespace ClassScript

/-- The script of a source text, with the default options. -/
def compileToScript (source : String) : Except CompileError String :=
  return Script.program .default (← compile source)

end ClassScript

import ClassScript.Check.Finding
import ClassScript.Text.FindWord
import ClassScript.Text.Word

/-!
# Checking a unit

The checks go through the classes of a unit and through the members of each
class in order, and remember what has been declared so far. They stop at
nothing. A diagnostic points at the name of what it is about, which is looked up
in the source text between the ends of the declaration.
-/

namespace ClassScript.Check

/-! ### Pointing at names -/

/-- The span of the first whole `name` inside `span`; all of `span` if there is
none. -/
def nameSpan (source : List Char) (name : String) (span : Span) : Span :=
  let found : Option Span := do
    let text ← Text.slice? source span.start.offset span.stop.offset
    let offset ← Text.findWord? Text.isWordChar name.toList text
    let start := span.start.offset + offset
    return ⟨← Source.positionAt? source start,
      ← Source.positionAt? source (start + Text.byteLength name.toList)⟩
  found.getD span

/-! ### Members declared twice -/

/-- What a class has declared so far: its methods by name and number of
parameters, every name with the kind of member that declared it first, and
whether there is an instance constructor. -/
structure Declared where
  methods : List (String × Nat)
  members : List (String × MemberKind)
  hasConstructor : Bool
deriving DecidableEq

namespace Declared

/-- Nothing. -/
def empty : Declared := ⟨[], [], false⟩

/-- Adds a name, unless it is there already. -/
def addName (d : Declared) (name : String) (kind : MemberKind) : Declared :=
  if (d.members.lookup name).isSome then d
  else { d with members := d.members ++ [(name, kind)] }

/-- Is `name` the name of a field or property declared first? -/
def holdsValue (d : Declared) (name : String) : Bool :=
  d.members.lookup name = some .field || d.members.lookup name = some .property

/-- Declares a member, and says what is wrong with that. Methods may share a name
if they differ in the number of parameters. -/
def declare (d : Declared) (className : String) : Member → Declared × Option Finding
  | .constructor c =>
    if c.isStatic then (d, none)
    else if d.hasConstructor then (d, some (.extraConstructor className))
    else ({ d with hasConstructor := true }, none)
  | .method m =>
    let key := (m.name, m.parameters.length)
    let clash := d.holdsValue m.name || d.methods.contains key
    ({ d.addName m.name .method with methods := d.methods.insert key },
      if clash then some (.duplicateMember className m.name) else none)
  | .field f =>
    (d.addName f.name .field,
      if (d.members.lookup f.name).isSome then some (.duplicateMember className f.name) else none)
  | .property p =>
    (d.addName p.name .property,
      if (d.members.lookup p.name).isSome then some (.duplicateMember className p.name) else none)

end Declared

/-! ### The checks -/

/-- An abstract method in a class that is not abstract. -/
def abstractFinding? (c : ClassDecl) : Member → Option Finding
  | .method m =>
    if m.isAbstract && !c.isAbstract then some (.abstractMethod c.name m.name) else none
  | _ => none

/-- A call of the base constructor in a class without a base, at its place. -/
def baseCallDiagnostic? (source : List Char) (c : ClassDecl) : Member → Option Diagnostic
  | .constructor { chain := some ⟨.base, _, span⟩, .. } =>
    if c.baseClass.isNone then some ⟨.droppedBaseCall c.name, nameSpan source "base" span⟩
    else none
  | _ => none

/-- An instance member of a static class. -/
def instanceFinding? (c : ClassDecl) (m : Member) : Option Finding :=
  if c.isStatic && !m.isStatic then some (.instanceMember c.name m.name) else none

/-- The diagnostics on a member, where `clash` is what its declaration led to. -/
def memberDiagnostics (source : List Char) (c : ClassDecl) (m : Member)
    (clash : Option Finding) : List Diagnostic :=
  let span := nameSpan source m.name m.span
  clash.toList.map (⟨·, span⟩)
    ++ (abstractFinding? c m).toList.map (⟨·, span⟩)
    ++ (baseCallDiagnostic? source c m).toList
    ++ (instanceFinding? c m).toList.map (⟨·, span⟩)

/-- The diagnostics on members, of which the class has declared `d` before. -/
def membersDiagnostics (source : List Char) (c : ClassDecl) (d : Declared) :
    List Member → List Diagnostic
  | [] => []
  | m :: ms =>
    let (d, clash) := d.declare c.name m
    memberDiagnostics source c m clash ++ membersDiagnostics source c d ms

/-- The diagnostics on the members of a class. -/
def classDiagnostics (source : List Char) (c : ClassDecl) : List Diagnostic :=
  membersDiagnostics source c .empty c.members

/-- The diagnostics on classes, where `seen` are the names of those before. -/
def classesDiagnostics (source : List Char) (seen : List String) :
    List ClassDecl → List Diagnostic
  | [] => []
  | c :: cs =>
    let duplicate : List Diagnostic :=
      if seen.contains c.name then [⟨.duplicateClass c.name, nameSpan source c.name c.span⟩] else []
    duplicate ++ classDiagnostics source c ++ classesDiagnostics source (c.name :: seen) cs

end ClassScript.Check

namespace ClassScript

/-- The diagnostics on a unit, in the order of its declarations. The source text
should be the one the unit was read from; it only serves to point at names. -/
def check (unit : CompilationUnit) (source : String) : List Check.Diagnostic :=
  Check.classesDiagnostics source.toList [] unit.classes

end ClassScript

import ClassScript.Source.Snippet
import ClassScript.Tree.Decl

/-!
# Findings of the checks

What the checks report about a unit that was read without an error. A finding is
a cause; its weight and its wording follow from it.
-/

namespace ClassScript.Check

/-- How much a finding weighs. -/
inductive Severity where
  | error
  | warning
deriving DecidableEq

/-- The heading of a report. -/
def Severity.label : Severity → String
  | .error => "Error"
  | .warning => "Warning"

/-- What can be wrong with a class or a member. -/
inductive Finding where
  /-- A class has the name of an earlier one. -/
  | duplicateClass (name : String)
  /-- A member clashes with an earlier one. -/
  | duplicateMember (className name : String)
  /-- Only the first constructor of a class is emitted. -/
  | extraConstructor (className : String)
  /-- A class that is not abstract has an abstract method. -/
  | abstractMethod (className name : String)
  /-- There is no base class whose constructor could run. -/
  | droppedBaseCall (className : String)
  /-- A static class has a member that is not static. -/
  | instanceMember (className name : String)
deriving DecidableEq

namespace Finding

/-- How much a finding weighs: what the script drops is a warning, all else an error. -/
def severity : Finding → Severity
  | .extraConstructor _ | .droppedBaseCall _ => .warning
  | .duplicateClass _ | .duplicateMember _ _ | .abstractMethod _ _ | .instanceMember _ _ => .error

/-- The wording of a finding. -/
def message : Finding → String
  | .duplicateClass name => "class `" ++ name ++ "` is already declared"
  | .duplicateMember className name => "`" ++ className ++ "." ++ name ++ "` is already declared"
  | .extraConstructor className =>
    "`" ++ className ++ "` declares more than one constructor; only the first is generated"
  | .abstractMethod className name =>
    "abstract method `" ++ className ++ "." ++ name ++ "` in a class that is not abstract"
  | .droppedBaseCall className =>
    "`" ++ className ++ "` has no base class; the `base(...)` call is dropped"
  | .instanceMember className name =>
    "static class `" ++ className ++ "` cannot declare instance member `" ++ name ++ "`"

end Finding

/-- A finding at a place in the source text. -/
structure Diagnostic where
  finding : Finding
  span : Span
deriving DecidableEq

namespace Diagnostic

/-- Does the diagnostic make the compilation fail? -/
def isError (d : Diagnostic) : Bool :=
  d.finding.severity = .error

/-- The report on a diagnostic. -/
def render (d : Diagnostic) (source fileName : String) : String :=
  Source.snippet d.finding.severity.label d.finding.message none d.span.start source fileName

end Diagnostic

end ClassScript.Check

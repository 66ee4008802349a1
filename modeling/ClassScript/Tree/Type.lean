import ClassScript.Source.Position

/-!
# Type references

A type as a source text writes it: a dotted name, optional type arguments, and
whether it is nullable or an array. Type references are recorded, not checked.
-/

namespace ClassScript

/-- A reference to a type. -/
structure TypeRef where
  name : String
  nullable : Bool
  arguments : List TypeRef
  isArray : Bool
  span : Span
deriving Inhabited

namespace TypeRef

/-- The type of methods that return nothing. -/
def isVoid (t : TypeRef) : Bool :=
  t.name == "void" && !t.isArray

/-- The names of the number types. -/
def numericNames : List String :=
  ["int", "long", "short", "byte", "sbyte", "uint", "ulong", "ushort",
   "float", "double", "decimal"]

/-- Is a value of this type a number, and never absent? -/
def isNumeric (t : TypeRef) : Bool :=
  !t.nullable && !t.isArray && numericNames.contains t.name

/-- Is a value of this type a truth value, and never absent? -/
def isBool (t : TypeRef) : Bool :=
  !t.nullable && !t.isArray && t.name == "bool"

mutual

/-- A type as a source text would write it. -/
def display : TypeRef → String
  | ⟨name, nullable, arguments, isArray, _⟩ =>
    name ++ displayArguments arguments ++ (if nullable then "?" else "")
      ++ (if isArray then "[]" else "")

/-- The type arguments of a type, in angle brackets if there are any. -/
def displayArguments : List TypeRef → String
  | [] => ""
  | argument :: arguments => "<" ++ argument.display ++ displayTail arguments ++ ">"

/-- The type arguments after the first. -/
def displayTail : List TypeRef → String
  | [] => ""
  | argument :: arguments => ", " ++ argument.display ++ displayTail arguments

end

end TypeRef

end ClassScript

import ClassScript.Parse.Power
import ClassScript.Parse.State

/-!
# Reading types

A type is a dotted name with optional type arguments, followed by any number of
question marks and pairs of square brackets in any order.
-/

namespace ClassScript.Parse

/-- What may follow a named type. -/
inductive TypeSuffix where
  | nullable
  | array
deriving DecidableEq

/-- Does a suffix begin at the token at hand? -/
def startsSuffix (s : State) : Bool :=
  s.kind = .question || s.kind = .openBracket

/-- Reads a suffix, with the position of its end. -/
def typeSuffix : Parse (TypeSuffix × Position) := do
  if (← kind) = .question then
    let mark ← advance
    return (.nullable, mark.span.stop)
  else
    let _ ← expect .openBracket
    let close ← expect .closeBracket
    return (.array, close.span.stop)

/-- The type with a suffix after it. -/
def withSuffix (t : TypeRef) : TypeSuffix × Position → TypeRef
  | (.nullable, stop) => { t with nullable := true, span := ⟨t.span.start, stop⟩ }
  | (.array, stop) => { t with isArray := true, span := ⟨t.span.start, stop⟩ }

/-- A name, with the type arguments that `argument` reads. -/
def namedTypeOf (argument : Parse TypeRef) : Parse TypeRef := do
  let start ← position
  let name ← dottedName "type"
  let arguments ←
    if ← accept .less then
      let arguments ← commaSeparated argument
      let _ ← expect .greater
      pure arguments
    else pure []
  return { name, nullable := false, arguments, isArray := false, span := ← spanFrom start }

/-- A type, nesting at most `budget` levels. Suffixes are read only where `power`
is below the one of a call. -/
def typeWithin : Nat → Power → Parse TypeRef
  | 0, _ => tooDeep
  | budget + 1, power => do
    deepen
    if (← kind) ≠ .identifier then fail (·.unexpected "type")
    let named ← namedTypeOf (typeWithin budget .default)
    let suffixes ← many (fun s => startsSuffix s && power < .call) typeSuffix
    surface 1
    return suffixes.foldl withSuffix named

/-- A type. -/
def typeRef (power : Power) : Parse TypeRef := do
  typeWithin (← get).budget power

/-- A named type, without suffixes. -/
def namedType : Parse TypeRef :=
  namedTypeOf (typeRef .default)

end ClassScript.Parse

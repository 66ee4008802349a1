import ClassScript.CompileError
import ClassScript.Dom
import ClassScript.Tree.Expr

/-!
# The state of a parse

A parse reads a list of tokens that ends with the end of the input. Its state is
the token at hand and those that follow, the end of the token read last, the
depth of nesting, and what is known about the names in scope.

`Parse` is the monad of parsers. A parser that fails leaves its state as it was
at the point of failure, so a caller that goes on sees what the failure left.

Nesting is limited: `deepen` fails beyond `nestingLimit`, and the number of
levels left, `State.budget`, is what the recursion of the parsers runs on. The
loops run on the tokens left: `many` and `commaList` go round again only if the
round before has read something.
-/

namespace ClassScript

namespace Parse

/-- How deep expressions, types, statements and namespaces may nest. -/
def nestingLimit : Nat := 256

/-- What is known about the names in scope: the class whose members are being
read, its members of an element type, and the locals of the member being read,
by whether they hold an element. -/
structure Scope where
  enclosing : Option String
  domMembers : List String
  domLocals : List String
  plainLocals : List String
deriving DecidableEq

namespace Scope

/-- No class, no names. -/
def empty : Scope := ⟨none, [], [], []⟩

/-- A new member begins; the locals of the one before are forgotten. -/
def beginMember (s : Scope) : Scope :=
  { s with domLocals := [], plainLocals := [] }

/-- A class body begins; `domMembers` are its members of an element type. -/
def beginClass (name : String) (domMembers : List String) : Scope :=
  ⟨some name, domMembers, [], []⟩

/-- A local is declared. The latest declaration of a name counts. -/
def declareLocal (s : Scope) (name : String) (isDom : Bool) : Scope :=
  if isDom then
    { s with domLocals := s.domLocals.insert name, plainLocals := s.plainLocals.filter (· ≠ name) }
  else
    { s with domLocals := s.domLocals.filter (· ≠ name), plainLocals := s.plainLocals.insert name }

/-- Does the bare name `name` hold an element? Locals hide members. -/
def isDomName (s : Scope) (name : String) : Bool :=
  s.domLocals.contains name || (!s.plainLocals.contains name && s.domMembers.contains name)

/-- Is the value of the expression known to be an element? -/
def isDomValue (s : Scope) : Expr → Bool
  | .identifier name _ => s.isDomName name
  | .member (.this _) name _ _ => s.domMembers.contains name
  | .domCreate .. => true
  | _ => false

end Scope

/-- The state of a parse. The number of tokens that follow the one at hand is kept
beside them, so that it need not be counted again and again. -/
structure State where
  current : Token
  following : List Token
  remaining : Nat
  remaining_eq : remaining = following.length
  lastStop : Option Position
  depth : Nat
  scope : Scope
deriving DecidableEq

namespace State

/-- Splits a token list into its first token and the others, adding the end of
the input, at `p` or after the last token, if the list does not end with it. -/
def terminate (p : Position) : List Token → Token × List Token
  | [] => (.endOfInput p, [])
  | t :: ts =>
    if ts.isEmpty && t.kind = .eof then (t, [])
    else
      let (u, us) := terminate t.span.stop ts
      (t, u :: us)

/-- The state before the first token. -/
def ofTokens (tokens : List Token) : State :=
  let (current, following) := terminate .none tokens
  ⟨current, following, following.length, rfl, none, 0, .empty⟩

/-- The tokens from the one at hand on. -/
def tokens (s : State) : List Token := s.current :: s.following

/-- The kind of the token at hand. -/
def kind (s : State) : Kind := s.current.kind

/-- Is there a token left before the end of the input? -/
def hasTokens (s : State) : Bool := s.kind ≠ .eof

/-- The token `n` places further on, or the last one. -/
def peek (s : State) (n : Nat) : Token :=
  s.tokens[n]?.getD (s.tokens.getLastD s.current)

/-- The kind of the token `n` places further on. -/
def peekKind (s : State) (n : Nat) : Kind :=
  (s.tokens[n]?.map Token.kind).getD .eof

/-- The state after the token at hand is read. The end of the input stays. -/
def next (s : State) : State :=
  if s.kind = .eof then s
  else
    match h : s.following with
    | [] => s
    | t :: ts =>
      { s with
        current := t
        following := ts
        remaining := s.remaining - 1
        remaining_eq := by rw [s.remaining_eq, h, List.length_cons, Nat.add_sub_cancel]
        lastStop := some s.current.span.stop }

/-- The span from `start` to the end of the token read last. -/
def spanFrom (s : State) (start : Position) : Span :=
  ⟨start, s.lastStop.getD start⟩

/-- How many more levels of nesting may be entered. -/
def budget (s : State) : Nat := nestingLimit - s.depth

/-- The error that something else than the token at hand was expected. -/
def unexpected (s : State) (expected : String) : CompileError :=
  .atToken (.unexpectedToken s.current.display expected) s.current

/-- The error that the token at hand is not possible, for a reason. -/
def unexpectedDetailed (s : State) (reason : String) : CompileError :=
  .atToken (.unexpectedTokenDetailed s.current.display reason) s.current

/-- The error that the nesting goes too deep at the token at hand. -/
def tooDeep (s : State) : CompileError :=
  .atToken (.nestingTooDeep nestingLimit) s.current

theorem remaining_next_le (s : State) : s.next.remaining ≤ s.remaining := by
  unfold next
  split
  · exact Nat.le_refl _
  · split
    · exact Nat.le_refl _
    · exact Nat.sub_le _ _

end State

end Parse

/-- A parser: it fails or returns a value, and in both cases leaves a state. -/
abbrev Parse (α : Type) : Type := EStateM CompileError Parse.State α

namespace Parse

variable {α : Type}

/-- Fails with an error about the state at hand. -/
def fail (error : State → CompileError) : Parse α := do
  throw (error (← get))

/-- The kind of the token at hand. -/
def kind : Parse Kind := return (← get).kind

/-- Reads the token at hand. -/
def advance : Parse Token := do
  let s ← get
  set s.next
  return s.current

/-- Reads a token of the given kind, which a message calls `expected`. -/
def expectDescribed (kind : Kind) (expected : String) : Parse Token := do
  if (← get).kind = kind then advance else fail (·.unexpected expected)

/-- Reads a token of the given kind. -/
def expect (kind : Kind) : Parse Token :=
  expectDescribed kind kind.describe

/-- Reads the token at hand if it is of the given kind, and says so. -/
def accept (kind : Kind) : Parse Bool := do
  if (← get).kind = kind then
    let _ ← advance
    return true
  else
    return false

/-- The start of the token at hand. -/
def position : Parse Position := return (← get).current.span.start

/-- The span from `start` to the end of the token read last. -/
def spanFrom (start : Position) : Parse Span := return (← get).spanFrom start

/-- Fails because the nesting goes too deep. The level stays entered. -/
def tooDeep : Parse α := do
  modify fun s => { s with depth := s.depth + 1 }
  fail (·.tooDeep)

/-- Enters a level of nesting. -/
def deepen : Parse Unit := do
  if (← get).depth < nestingLimit then modify fun s => { s with depth := s.depth + 1 }
  else tooDeep

/-- Leaves `levels` levels of nesting. -/
def surface (levels : Nat) : Parse Unit :=
  modify fun s => { s with depth := s.depth - levels }

/-- Changes what is known about the names in scope. -/
def modifyScope (f : Scope → Scope) : Parse Unit :=
  modify fun s => { s with scope := f s.scope }

/-- Reads items as long as the state allows one more. -/
def many (more : State → Bool) (item : Parse α) : Parse (List α) := fun s =>
  if more s then
    match item s with
    | .error e s' => .error e s'
    | .ok a s' =>
      if s'.remaining < s.remaining then
        match many more item s' with
        | .error e s'' => .error e s''
        | .ok as s'' => .ok (a :: as) s''
      else .ok [a] s'
  else .ok [] s
termination_by s => s.remaining

/-- Reads items with commas between them, up to a token of kind `stop`, which is
not read. A comma may stand after the last item. -/
def commaList (stop : Kind) (item : Parse α) : Parse (List α) := fun s =>
  if s.kind = stop then .ok [] s
  else
    match item s with
    | .error e s' => .error e s'
    | .ok a s' =>
      if s'.kind = .comma then
        if s'.next.remaining < s.remaining then
          match commaList stop item s'.next with
          | .error e s'' => .error e s''
          | .ok as s'' => .ok (a :: as) s''
        else .ok [a] s'.next
      else .ok [a] s'
termination_by s => s.remaining

/-- Reads one item, and more after each comma. -/
def commaSeparated (item : Parse α) : Parse (List α) := do
  let first ← item
  let others ← many (·.kind = .comma) do
    let _ ← advance
    item
  return first :: others

/-- Names joined by points. The first one is called `expected` in messages. -/
def dottedName (expected : String) : Parse String := do
  let first ← expectDescribed .identifier expected
  let others ← many (·.kind = .dot) do
    let _ ← advance
    expect .identifier
  return others.foldl (fun name t => name ++ "." ++ t.text) first.text

end Parse

end ClassScript

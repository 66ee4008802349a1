import ClassScript.Parse.State

/-!
# Looking ahead

Two questions are answered by a look at the tokens to come, without reading
them: whether a statement declares a local, and which members of a class body
hold elements.
-/

namespace ClassScript.Parse

/-- Drops pairs of a point and a name. -/
def skipDotted : List Token → List Token
  | d :: n :: rest =>
    if d.kind = .dot ∧ n.kind = .identifier then skipDotted rest else d :: n :: rest
  | ts => ts

/-- Drops type arguments up to the angle bracket that closes the outermost of
`depth` open ones. Only tokens that can occur in type arguments are dropped. -/
def skipAngles (depth : Nat) : List Token → Option (List Token)
  | [] => none
  | t :: rest =>
    match t.kind with
    | .less => skipAngles (depth + 1) rest
    | .greater => if depth = 1 then some rest else skipAngles (depth - 1) rest
    | .identifier | .comma | .dot | .question | .openBracket | .closeBracket =>
      skipAngles depth rest
    | _ => none

/-- Drops type arguments if there are any. -/
def skipTypeArguments : List Token → Option (List Token)
  | t :: rest => if t.kind = .less then skipAngles 1 rest else some (t :: rest)
  | [] => some []

/-- Drops a question mark if there is one. -/
def skipQuestion : List Token → List Token
  | t :: rest => if t.kind = .question then rest else t :: rest
  | [] => []

/-- Drops pairs of square brackets. -/
def skipBrackets : List Token → List Token
  | o :: c :: rest =>
    if o.kind = .openBracket ∧ c.kind = .closeBracket then skipBrackets rest else o :: c :: rest
  | ts => ts

/-- Is the first token a name? -/
def startsWithName : List Token → Bool
  | t :: _ => t.kind = .identifier
  | [] => false

/-- Do the tokens begin with a type and a name? -/
def looksLikeDeclaration : List Token → Bool
  | t :: rest =>
    t.kind = .identifier &&
      match skipTypeArguments (skipDotted rest) with
      | some after => startsWithName (skipBrackets (skipQuestion after))
      | none => false
  | [] => false

/-- Does the token list begin with a name that no parenthesis follows? If so,
which one? -/
def declaredName? : List Token → Option String
  | n :: rest =>
    if n.kind = .identifier ∧ rest.head?.map Token.kind ≠ some .openParen then some n.text else none
  | [] => none

/-- The names that a class body declares as `Element name`, outside of braces
and parentheses and not as methods, up to the brace that closes the body. -/
def domMembersIn (braces parens : Nat) : List Token → List String
  | [] => []
  | t :: rest =>
    match t.kind with
    | .openCurly => domMembersIn (braces + 1) parens rest
    | .closeCurly => if braces = 0 then [] else domMembersIn (braces - 1) parens rest
    | .openParen => domMembersIn braces (parens + 1) rest
    | .closeParen => domMembersIn braces (parens - 1) rest
    | .eof => []
    | .identifier =>
      if braces = 0 ∧ parens = 0 ∧ Dom.isElement t.text then
        (declaredName? rest).toList ++ domMembersIn braces parens rest
      else domMembersIn braces parens rest
    | _ => domMembersIn braces parens rest

/-- A class body begins at the token at hand. -/
def beginClass (name : String) : Parse Unit :=
  modify fun s => { s with scope := .beginClass name (domMembersIn 0 0 s.tokens) }

/-- The class body ends. -/
def endClass : Parse Unit :=
  modifyScope fun _ => .empty

end ClassScript.Parse

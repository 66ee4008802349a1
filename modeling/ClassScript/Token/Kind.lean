/-!
# Token kinds

The closed set of token classes of the language: the literal and name classes,
the punctuators and the keywords. A punctuator or keyword has one spelling, and
`Kind.spelling?` is the only place where it is written down; the tables
`keywords` and `punctuators` and the descriptions used by messages are read off
it.
-/

namespace ClassScript

/-- The class of a token. -/
inductive Kind where
  | eof | unknown | number | string | char | identifier
  | openBracket | closeBracket | openCurly | closeCurly | openParen | closeParen
  | assignment | equals | not | notEquals
  | less | lessEquals | greater | greaterEquals
  | or | and | nullCoalesce | questionDot | fatArrow
  | dot | semicolon | colon | question | comma
  | plusPlus | minusMinus | plusEquals | minusEquals | slashEquals | starEquals
  | plus | dash | slash | star | percent
  | kwUsing | kwNamespace | kwClass
  | kwPublic | kwPrivate | kwProtected | kwInternal
  | kwStatic | kwVirtual | kwOverride | kwAbstract | kwSealed | kwReadonly | kwConst
  | kwNew | kwReturn | kwIf | kwElse | kwWhile | kwFor
  | kwTrue | kwFalse | kwNull | kwThis | kwBase
deriving DecidableEq, Inhabited

namespace Kind

/-- The keywords, in the order in which the language lists them. -/
def keywords : List Kind :=
  [.kwUsing, .kwNamespace, .kwClass, .kwPublic, .kwPrivate, .kwProtected, .kwInternal,
   .kwStatic, .kwVirtual, .kwOverride, .kwAbstract, .kwSealed, .kwReadonly, .kwConst,
   .kwNew, .kwReturn, .kwIf, .kwElse, .kwWhile, .kwFor,
   .kwTrue, .kwFalse, .kwNull, .kwThis, .kwBase]

/-- The punctuators, longest spelling first: no entry is spelled as a proper
beginning of a later one. -/
def punctuators : List Kind :=
  [.equals, .notEquals, .lessEquals, .greaterEquals, .and, .or, .nullCoalesce, .questionDot,
   .fatArrow, .plusPlus, .minusMinus, .plusEquals, .minusEquals, .starEquals, .slashEquals,
   .openBracket, .closeBracket, .openCurly, .closeCurly, .openParen, .closeParen,
   .not, .assignment, .less, .greater, .dot, .semicolon, .colon, .question, .comma,
   .plus, .dash, .slash, .star, .percent]

/-- Every kind, once. -/
def all : List Kind :=
  [.eof, .unknown, .number, .string, .char, .identifier] ++ punctuators ++ keywords

/-- The spelling of a kind that has exactly one. -/
def spelling? : Kind → Option String
  | .eof | .unknown | .number | .string | .char | .identifier => none
  | .openBracket => "["
  | .closeBracket => "]"
  | .openCurly => "\x7b"
  | .closeCurly => "\x7d"
  | .openParen => "("
  | .closeParen => ")"
  | .assignment => "="
  | .equals => "=="
  | .not => "!"
  | .notEquals => "!="
  | .less => "<"
  | .lessEquals => "<="
  | .greater => ">"
  | .greaterEquals => ">="
  | .or => "||"
  | .and => "&&"
  | .nullCoalesce => "??"
  | .questionDot => "?."
  | .fatArrow => "=>"
  | .dot => "."
  | .semicolon => ";"
  | .colon => ":"
  | .question => "?"
  | .comma => ","
  | .plusPlus => "++"
  | .minusMinus => "--"
  | .plusEquals => "+="
  | .minusEquals => "-="
  | .slashEquals => "/="
  | .starEquals => "*="
  | .plus => "+"
  | .dash => "-"
  | .slash => "/"
  | .star => "*"
  | .percent => "%"
  | .kwUsing => "using"
  | .kwNamespace => "namespace"
  | .kwClass => "class"
  | .kwPublic => "public"
  | .kwPrivate => "private"
  | .kwProtected => "protected"
  | .kwInternal => "internal"
  | .kwStatic => "static"
  | .kwVirtual => "virtual"
  | .kwOverride => "override"
  | .kwAbstract => "abstract"
  | .kwSealed => "sealed"
  | .kwReadonly => "readonly"
  | .kwConst => "const"
  | .kwNew => "new"
  | .kwReturn => "return"
  | .kwIf => "if"
  | .kwElse => "else"
  | .kwWhile => "while"
  | .kwFor => "for"
  | .kwTrue => "true"
  | .kwFalse => "false"
  | .kwNull => "null"
  | .kwThis => "this"
  | .kwBase => "base"

/-- The name of a kind in a token listing. -/
def name : Kind → String
  | .eof => "EOF"
  | .unknown => "Unknown"
  | .number => "Number"
  | .string => "String"
  | .char => "Char"
  | .identifier => "Identifier"
  | .openBracket => "OpenBracket"
  | .closeBracket => "CloseBracket"
  | .openCurly => "OpenCurly"
  | .closeCurly => "CloseCurly"
  | .openParen => "OpenParen"
  | .closeParen => "CloseParen"
  | .assignment => "Assignment"
  | .equals => "Equals"
  | .not => "Not"
  | .notEquals => "NotEquals"
  | .less => "Less"
  | .lessEquals => "LessEquals"
  | .greater => "Greater"
  | .greaterEquals => "GreaterEquals"
  | .or => "Or"
  | .and => "And"
  | .nullCoalesce => "NullCoalesce"
  | .questionDot => "QuestionDot"
  | .fatArrow => "FatArrow"
  | .dot => "Dot"
  | .semicolon => "Semicolon"
  | .colon => "Colon"
  | .question => "Question"
  | .comma => "Comma"
  | .plusPlus => "PlusPlus"
  | .minusMinus => "MinusMinus"
  | .plusEquals => "PlusEquals"
  | .minusEquals => "MinusEquals"
  | .slashEquals => "SlashEquals"
  | .starEquals => "StarEquals"
  | .plus => "Plus"
  | .dash => "Dash"
  | .slash => "Slash"
  | .star => "Star"
  | .percent => "Percent"
  | .kwUsing => "Using"
  | .kwNamespace => "Namespace"
  | .kwClass => "Class"
  | .kwPublic => "Public"
  | .kwPrivate => "Private"
  | .kwProtected => "Protected"
  | .kwInternal => "Internal"
  | .kwStatic => "Static"
  | .kwVirtual => "Virtual"
  | .kwOverride => "Override"
  | .kwAbstract => "Abstract"
  | .kwSealed => "Sealed"
  | .kwReadonly => "Readonly"
  | .kwConst => "Const"
  | .kwNew => "New"
  | .kwReturn => "Return"
  | .kwIf => "If"
  | .kwElse => "Else"
  | .kwWhile => "While"
  | .kwFor => "For"
  | .kwTrue => "True"
  | .kwFalse => "False"
  | .kwNull => "Null"
  | .kwThis => "This"
  | .kwBase => "Base"

/-- The kind with the given listing name. -/
def ofName? (name : String) : Option Kind :=
  all.find? (·.name == name)

/-- The keyword spelled `text`, if there is one. -/
def keyword? (text : String) : Option Kind :=
  keywords.find? (·.spelling? == some text)

/-- The kind of an identifier-shaped lexeme: a keyword if it is spelled like
one, a name otherwise. -/
def ofWord (text : String) : Kind :=
  (keyword? text).getD .identifier

/-- The keywords that may stand before a class or member declaration. -/
def isModifier : Kind → Bool
  | .kwPublic | .kwPrivate | .kwProtected | .kwInternal
  | .kwStatic | .kwVirtual | .kwOverride | .kwAbstract | .kwSealed
  | .kwReadonly | .kwConst => true
  | _ => false

/-- How a message names this kind where it was expected: the spelling in back
quotes, or the class of token in words. -/
def describe (kind : Kind) : String :=
  match kind.spelling? with
  | some text => "`" ++ text ++ "`"
  | none =>
    match kind with
    | .eof => "end of input"
    | .unknown => "unknown character"
    | .number => "number"
    | .string => "string literal"
    | .char => "char literal"
    | _ => "identifier"

end Kind

end ClassScript

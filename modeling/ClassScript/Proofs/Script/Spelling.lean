import ClassScript.Proofs.Parse.WellRead
import ClassScript.Proofs.Script.Literal
import ClassScript.Script.Expr

/-!
# What an emitted expression spells

`lexemes e` are the tokens of the text that is emitted for `e` outside of a class:
the operators and names of the tree with the parentheses that were put back, and
without the blanks. `spelled_exprText` says that the emitted text is scanned into
these tokens, whatever may end a word or a number after it.

The text is followed piece by piece. `Spelled text ws` is closed under each way in
which texts are put together, so a form of expression is one step.
-/

namespace ClassScript

/-! ### Operators as tokens -/

/-- The token of a binary operator. -/
def BinaryOp.kind : BinaryOp → Kind
  | .add => .plus
  | .subtract => .dash
  | .multiply => .star
  | .divide => .slash
  | .modulo => .percent
  | .equal => .equals
  | .notEqual => .notEquals
  | .less => .less
  | .lessEqual => .lessEquals
  | .greater => .greater
  | .greaterEqual => .greaterEquals
  | .and => .and
  | .or => .or
  | .coalesce => .nullCoalesce

/-- The token of an assignment operator. -/
def AssignOp.kind : AssignOp → Kind
  | .assign => .assignment
  | .add => .plusEquals
  | .subtract => .minusEquals
  | .multiply => .starEquals
  | .divide => .slashEquals

/-- The token of an operator before its operand. -/
def UnaryOp.kind : UnaryOp → Kind
  | .not => .not
  | .negate => .dash

/-- The token of an operator after its operand. -/
def UpdateOp.kind : UpdateOp → Kind
  | .increment => .plusPlus
  | .decrement => .minusMinus

/-- The token of an operator has the text that is emitted for it. -/
theorem BinaryOp.text_kind (op : BinaryOp) : (Lexeme.ofKind op.kind).text = op.spelling := by
  cases op <;> rfl

/-- Such a token may stand between blanks. -/
theorem BinaryOp.kind_mem_operators (op : BinaryOp) : op.kind ∈ Kind.operators := by
  cases op <;> decide

theorem AssignOp.text_kind (op : AssignOp) : (Lexeme.ofKind op.kind).text = op.spelling := by
  cases op <;> rfl

theorem AssignOp.kind_mem_operators (op : AssignOp) : op.kind ∈ Kind.operators := by
  cases op <;> decide

theorem UpdateOp.text_kind (op : UpdateOp) : (Lexeme.ofKind op.kind).text = op.spelling := by
  cases op <;> rfl

theorem UpdateOp.kind_mem_marks (op : UpdateOp) : op.kind ∈ Kind.marks := by
  cases op <;> decide

namespace Script

open Parse (nameLexemes pointLexemes joinNames commaLexemes)

/-! ### The tokens of an expression -/

/-- Tokens in parentheses if `wrap`. -/
def grouped (wrap : Bool) (ws : List Lexeme) : List Lexeme :=
  if wrap then .ofKind .openParen :: (ws ++ [.ofKind .closeParen]) else ws

/-- Does the operand of a unary operator need parentheses? One that begins with a
minus sign does, after another. -/
def wrapsOperand (op : UnaryOp) (operand : Expr) : Bool :=
  Precedence.ofExpr operand < .unary ||
    (op = .negate && (exprText none operand).toList.head? = some '-')

/-- The tokens of a dotted name. -/
def dottedLexemes (name : String) : List Lexeme :=
  match name.toList.splitOn '.' with
  | [] => []
  | first :: others => nameLexemes (String.ofList first) (others.map String.ofList)

/-- The tokens of arguments in parentheses. -/
def argumentLexemes (groups : List (List Lexeme)) : List Lexeme :=
  .ofKind .openParen :: (commaLexemes groups ++ [.ofKind .closeParen])

mutual

/-- The tokens of the text that is emitted for an expression outside of a class.
Forms that are emitted as calls of the runtime have none here. -/
def lexemes : Expr → List Lexeme
  | .identifier name _ => [⟨.identifier, name⟩]
  | .literal value _ => [literalLexeme value]
  | .binary op left right _ =>
    grouped (wrapsLeft op left) (lexemes left) ++
      .ofKind op.kind :: grouped (wrapsRight op right) (lexemes right)
  | .unary op operand _ => .ofKind op.kind :: grouped (wrapsOperand op operand) (lexemes operand)
  | .update op operand _ =>
    grouped (Precedence.ofExpr operand < .postfixed) (lexemes operand) ++ [.ofKind op.kind]
  | .assign op target value _ => lexemes target ++ .ofKind op.kind :: lexemes value
  | .call callee arguments _ =>
    grouped (wrapsObject callee) (lexemes callee) ++ argumentLexemes (lexemesAll arguments)
  | .member object name _ _ =>
    grouped (wrapsObject object) (lexemes object) ++ [.ofKind .dot, ⟨.identifier, name⟩]
  | .index object key _ =>
    grouped (wrapsObject object) (lexemes object) ++
      .ofKind .openBracket :: (lexemes key ++ [.ofKind .closeBracket])
  | .this _ => [.ofKind .kwThis]
  | .create type arguments _ =>
    .ofKind .kwNew :: (dottedLexemes type.name ++ argumentLexemes (lexemesAll arguments))
  | .base .. | .hostCall .. | .hostSet .. | .domCreate .. | .domProperty .. | .domCall .. => []

/-- The tokens of each of several expressions. -/
def lexemesAll : List Expr → List (List Lexeme)
  | [] => []
  | e :: es => lexemes e :: lexemesAll es

end

theorem lexemesAll_eq_map (es : List Expr) : lexemesAll es = es.map lexemes := by
  induction es with
  | nil => rfl
  | cons e es ih => rw [lexemesAll, ih, List.map_cons]

/-- The texts of several expressions are the texts of each. -/
theorem exprTexts_eq_map (scope : Option Scope) (es : List Expr) :
    exprTexts scope es = es.map (exprText scope) := by
  induction es with
  | nil => rfl
  | cons e es ih => exact congrArg (exprText scope e :: ·) ih

/-- The two expressions need parentheses in the same places. -/
structure SameShape (e e' : Expr) : Prop where
  precedence : Precedence.ofExpr e = Precedence.ofExpr e'
  isLogical : isLogical e = isLogical e'
  isNumber : isNumber e = isNumber e'

namespace SameShape

variable {e e' : Expr} (h : SameShape e e')

include h

theorem wrapsLeft (op : BinaryOp) : wrapsLeft op e = wrapsLeft op e' := by
  rw [Script.wrapsLeft, Script.wrapsLeft, h.precedence, h.isLogical]

theorem wrapsRight (op : BinaryOp) : wrapsRight op e = wrapsRight op e' := by
  rw [Script.wrapsRight, Script.wrapsRight, h.precedence, h.isLogical]

theorem wrapsObject : wrapsObject e = wrapsObject e' := by
  rw [Script.wrapsObject, Script.wrapsObject, h.precedence, h.isNumber]

end SameShape

/-- The two places where a unary operator asks for parentheses are never both. -/
theorem unaryText_eq (op : UnaryOp) (operand : Expr) :
    unaryText op (parenthesized (Precedence.ofExpr operand < .unary) (exprText none operand)) =
      op.spelling ++ parenthesized (wrapsOperand op operand) (exprText none operand) := by
  unfold unaryText wrapsOperand
  by_cases hweak : Precedence.ofExpr operand < .unary
  · simp [hweak, parenthesized]
  · simp [hweak, parenthesized]

/-! ### Putting texts together -/

/-- A text that begins like an expression, and the tokens it is scanned into. -/
structure Spelled (text : String) (ws : List Lexeme) : Prop where
  scans : Scans Ends text.toList ws
  opens : Opens text.toList

section

variable {text text' : String} {ws ws' : List Lexeme}

/-- Parentheses in the text are parentheses among the tokens. -/
theorem spelled_grouped (wrap : Bool) (h : Spelled text ws) :
    Spelled (parenthesized wrap text) (grouped wrap ws) := by
  cases wrap with
  | false => exact h
  | true =>
    refine ⟨?_, ?_⟩
    · have hopen : Scans Anything ['('] [.ofKind .openParen] := scans_mark .openParen (by decide)
      have hclose : Scans Anything [')'] [.ofKind .closeParen] := scans_mark .closeParen (by decide)
      have hall := hopen.before (h.scans.append hclose fun _ _ => ends_cons (by decide) (by decide))
      simpa [parenthesized, grouped] using hall.mono fun _ _ => trivial
    · exact ⟨'(', text.toList ++ [')'], by simp [parenthesized], by decide, by decide⟩

/-- The blanks around an operator keep it apart from its operands. -/
theorem spelled_infix (kind : Kind) (hkind : kind ∈ Kind.operators) (h : Spelled text ws)
    (h' : Spelled text' ws') :
    Spelled (text ++ " " ++ (Lexeme.ofKind kind).text ++ " " ++ text')
      (ws ++ .ofKind kind :: ws') := by
  refine ⟨?_, ?_⟩
  · have hright := (scans_operator kind hkind).append h'.scans fun rest _ => h'.opens.append rest
    have hall := h.scans.append hright fun rest _ => ends_cons (by decide) (by decide)
    simpa using hall
  · simpa [List.append_assoc] using h.opens.append _

/-- A mark right behind a text must be able to end what the text ends with. -/
theorem spelled_postfix (kind : Kind) (hkind : kind ∈ Kind.marks) (h : Spelled text ws)
    (hends : ∀ rest, Ends ((Lexeme.ofKind kind).text.toList ++ rest)) :
    Spelled (text ++ (Lexeme.ofKind kind).text) (ws ++ [.ofKind kind]) := by
  refine ⟨?_, ?_⟩
  · have hall := h.scans.append (scans_mark kind hkind) fun rest _ => hends rest
    simpa using hall.mono fun _ _ => trivial
  · simpa using h.opens.append _

/-- Two minus signs in a row would be one token, so the operand must not begin with one. -/
theorem spelled_unary (op : UnaryOp) (h : Spelled text ws)
    (hdash : op = .negate → text.toList.head? ≠ some '-') :
    Spelled (op.spelling ++ text) (.ofKind op.kind :: ws) := by
  cases op with
  | not =>
    refine ⟨?_, '!', text.toList, by simp [UnaryOp.spelling], by decide, by decide⟩
    have hall := scans_not.append h.scans fun rest _ => h.opens.append rest
    simpa [UnaryOp.spelling, UnaryOp.kind] using hall
  | negate =>
    refine ⟨?_, '-', text.toList, by simp [UnaryOp.spelling], by decide, by decide⟩
    have hhead : ∀ rest, (text.toList ++ rest).head? ≠ some '-' := by
      obtain ⟨c, cs, htext, -, -⟩ := h.opens
      have hdash := hdash rfl
      rw [htext] at hdash ⊢
      intro rest
      exact hdash
    have hall := scans_negate.append h.scans fun rest _ => ⟨h.opens.append rest, hhead rest⟩
    simpa [UnaryOp.spelling, UnaryOp.kind] using hall

end

/-! ### Names and members -/

theorem spelled_word {cs : List Char} (h : IsWord cs) :
    Spelled (String.ofList cs) [.ofWord (String.ofList cs)] := by
  refine ⟨?_, ?_⟩
  · rw [String.toList_ofList]
    exact scans_word h
  · obtain ⟨c, ds, rfl, hc, -⟩ := h
    rw [String.toList_ofList]
    exact opens_of_isWordPart (isWordPart_of_isWordStart hc)

theorem spelled_name {name : String} (h : IsName name) : Spelled name [⟨.identifier, name⟩] := by
  have hword := spelled_word h.1
  rwa [String.ofList_toList, Lexeme.ofWord, h.2] at hword

/-- A point ends whatever stands before it. -/
theorem spelled_member {text name : String} {ws : List Lexeme} (h : Spelled text ws)
    (hname : IsName name) :
    Spelled (text ++ "." ++ name) (ws ++ [.ofKind .dot, ⟨.identifier, name⟩]) := by
  obtain ⟨c, cs, hcs, hc, -⟩ := hname.1
  refine ⟨?_, ?_⟩
  · have hdot : Scans Anything ['.'] [.ofKind .dot] := scans_mark .dot (by decide)
    -- A name after the point keeps it from being read as a decimal point.
    have hall := h.scans.append (hdot.before (spelled_name hname).scans) fun rest _ => by
      rw [hcs]
      exact ends_point hc
    simpa using hall
  · simpa using h.opens.append _

/-- By induction on the names behind points. -/
theorem spelled_points {text : String} {ws : List Lexeme} {others : List String}
    (h : Spelled text ws) (hothers : ∀ n ∈ others, IsName n) :
    Spelled (joinNames text others) (ws ++ pointLexemes others) := by
  induction others generalizing text ws with
  | nil => simpa [joinNames, pointLexemes] using h
  | cons name others ih =>
    obtain ⟨hname, hothers⟩ := List.forall_mem_cons.1 hothers
    simpa [joinNames, pointLexemes] using ih (spelled_member h hname) hothers

/-- Names have no points, so a dotted name is split into the names that it was made of. -/
theorem splitOn_joinNames {front : String} {others : List String}
    (hothers : ∀ n ∈ others, IsName n) :
    (joinNames front others).toList.splitOn '.' =
      front.toList.splitOn '.' ++ others.map String.toList := by
  induction others generalizing front with
  | nil => simp [joinNames]
  | cons name others ih =>
    obtain ⟨hname, hothers⟩ := List.forall_mem_cons.1 hothers
    rw [joinNames, List.foldl_cons, ← joinNames, ih hothers]
    have hpoint : (front ++ "." ++ name).toList = front.toList ++ '.' :: name.toList := by simp
    rw [hpoint, List.splitOn_append_cons_self,
      List.splitOn_eq_singleton (point_not_mem_of_isName hname), List.append_assoc]
    rfl

theorem dottedLexemes_joinNames {first : String} {others : List String}
    (h : ∀ n ∈ first :: others, IsName n) :
    dottedLexemes (joinNames first others) = nameLexemes first others := by
  obtain ⟨hfirst, hothers⟩ := List.forall_mem_cons.1 h
  rw [dottedLexemes, splitOn_joinNames hothers,
    List.splitOn_eq_singleton (point_not_mem_of_isName hfirst)]
  simp [Function.comp_def]

/-- A dotted name is scanned into its names and the points between them. -/
theorem spelled_dotted {name : String} (h : IsDottedName name) :
    Spelled name (dottedLexemes name) := by
  obtain ⟨first, others, rfl, hnames⟩ := h
  obtain ⟨hfirst, hothers⟩ := List.forall_mem_cons.1 hnames
  rw [dottedLexemes_joinNames hnames]
  exact spelled_points (spelled_name hfirst) hothers

/-! ### Arguments and keys -/

/-- A comma and a blank end whatever stands before them. -/
theorem spelled_commaJoined {items : List Expr}
    (h : ∀ e ∈ items, Spelled (exprText none e) (lexemes e)) (hne : items ≠ []) :
    Spelled (commaJoined (items.map (exprText none))) (commaLexemes (items.map lexemes)) := by
  induction items with
  | nil => exact absurd rfl hne
  | cons e items ih =>
    obtain ⟨he, hitems⟩ := List.forall_mem_cons.1 h
    cases items with
    | nil => exact he
    | cons e' items =>
      have hrest := ih hitems (by simp)
      refine ⟨?_, ?_⟩
      · have hcomma := scans_comma.append hrest.scans fun rest _ => hrest.opens.append rest
        have hall := he.scans.append hcomma fun _ _ => ends_cons (by decide) (by decide)
        simpa [commaJoined, commaLexemes] using hall
      · simpa [commaJoined] using he.opens.append _

/-- Arguments are read up to their parenthesis, also if there are none. -/
theorem scans_arguments {items : List Expr}
    (h : ∀ e ∈ items, Spelled (exprText none e) (lexemes e)) :
    Scans Anything ("(" ++ commaJoined (items.map (exprText none)) ++ ")").toList
      (argumentLexemes (items.map lexemes)) := by
  have hopen : Scans Anything ['('] [.ofKind .openParen] := scans_mark .openParen (by decide)
  have hclose : Scans Anything [')'] [.ofKind .closeParen] := scans_mark .closeParen (by decide)
  by_cases hne : items = []
  · subst hne
    simpa [commaJoined, argumentLexemes, commaLexemes] using hopen.before hclose
  · have hitems := spelled_commaJoined h hne
    have hall := hopen.before
      (hitems.scans.append hclose fun _ _ => ends_cons (by decide) (by decide))
    simpa [argumentLexemes] using hall

/-- A parenthesis ends whatever stands before it. -/
theorem spelled_arguments {text : String} {ws : List Lexeme} {items : List Expr}
    (h : Spelled text ws) (hitems : ∀ e ∈ items, Spelled (exprText none e) (lexemes e)) :
    Spelled (text ++ "(" ++ commaJoined (items.map (exprText none)) ++ ")")
      (ws ++ argumentLexemes (items.map lexemes)) := by
  refine ⟨?_, ?_⟩
  · have hall := h.scans.append (scans_arguments hitems) fun rest _ => by
      simpa using ends_cons (by decide) (by decide)
    simpa using hall.mono fun _ _ => trivial
  · simpa [List.append_assoc] using h.opens.append _

theorem spelled_index {text key : String} {ws ks : List Lexeme} (h : Spelled text ws)
    (hkey : Spelled key ks) :
    Spelled (text ++ "[" ++ key ++ "]")
      (ws ++ .ofKind .openBracket :: (ks ++ [.ofKind .closeBracket])) := by
  have hopen : Scans Anything ['['] [.ofKind .openBracket] := scans_mark .openBracket (by decide)
  have hclose : Scans Anything [']'] [.ofKind .closeBracket] := scans_mark .closeBracket (by decide)
  refine ⟨?_, ?_⟩
  · have hinside := hopen.before
      (hkey.scans.append hclose fun _ _ => ends_cons (by decide) (by decide))
    have hall := h.scans.append hinside fun _ _ => ends_cons (by decide) (by decide)
    simpa using hall.mono fun _ _ => trivial
  · simpa [List.append_assoc] using h.opens.append _

/-! ### Expressions -/

/-- The forms that are emitted as the source writes them, and literals whose value
the emitted text gives back. -/
def IsPlain : Expr → Prop
  | .literal (.string value) _ => ∀ c ∈ value.toList, IsPlainChar c
  | .literal (.number value) _ => value.isFinite = true
  | .create type _ _ => type.arguments = [] ∧ type.nullable = false ∧ type.isArray = false
  | .base .. | .hostCall .. | .hostSet .. | .domCreate .. | .domProperty .. | .domCall .. => False
  | _ => True

instance : DecidablePred IsPlain
  | .literal (.string value) _ => List.decidableBAll IsPlainChar value.toList
  | .literal (.number value) _ => inferInstanceAs (Decidable (value.isFinite = true))
  | .create ⟨_, nullable, [], isArray, _⟩ _ _ =>
    decidable_of_iff (nullable = false ∧ isArray = false) (by simp [IsPlain])
  | .create ⟨_, _, _ :: _, _, _⟩ _ _ => isFalse (by simp [IsPlain])
  | .base .. | .hostCall .. | .hostSet .. | .domCreate .. | .domProperty .. | .domCall .. =>
    isFalse id
  | .literal (.boolean _) _ | .literal .null _ | .identifier .. | .binary .. | .unary ..
  | .update .. | .assign .. | .call .. | .member .. | .index .. | .this .. => isTrue trivial

/-- A node that was read, and is emitted as the source writes it. -/
def IsSpellable (e : Expr) : Prop := e.WellRead ∧ IsPlain e

/-- A number that was read is not negative, so it is written without a sign. -/
theorem isPlainLiteral_of_isSpellable {value : Literal} {span : Span}
    (h : IsSpellable (.literal value span)) : IsPlainLiteral value := by
  obtain ⟨hread, hplain⟩ := h
  cases value with
  | string value => exact hplain
  | number value => exact ⟨hread, hplain⟩
  | boolean value => trivial
  | null => trivial

/-- A literal is one token, of the kind of its value. -/
theorem spelled_literal {value : Literal} (h : IsPlainLiteral value) :
    Spelled (literalText value) [literalLexeme value] := by
  cases value with
  | string value =>
    refine ⟨(scans_quoted h).mono fun _ _ => trivial, ?_⟩
    exact ⟨'"', _, String.toList_ofList, by decide, by decide⟩
  | number value =>
    have hscans := scans_number (isNumeral_numberText h)
    rw [String.ofList_toList] at hscans
    refine ⟨hscans, ?_⟩
    obtain ⟨d, ds, fs, htext, hds, -⟩ := isNumeral_numberText h
    rw [literalText, htext]
    exact opens_of_isWordPart (isWordPart_of_isDigit (hds d List.mem_cons_self))
  | boolean value =>
    cases value
    · exact spelled_word (isWord_cons 'f' ['a', 'l', 's', 'e'] rfl rfl)
    · exact spelled_word (isWord_cons 't' ['r', 'u', 'e'] rfl rfl)
  | null => exact spelled_word (isWord_cons 'n' ['u', 'l', 'l'] rfl rfl)

/-- The text of an operand without parentheses does not begin with a minus sign
after another. -/
theorem head_parenthesized_wrapsOperand (operand : Expr) :
    (parenthesized (wrapsOperand .negate operand) (exprText none operand)).toList.head? ≠
      some '-' := by
  cases hwrap : wrapsOperand .negate operand with
  | true => simp [parenthesized]
  | false =>
    intro h
    have hhead : (exprText none operand).toList.head? = some '-' := h
    simp [wrapsOperand, hhead] at hwrap

/-- The text that is emitted for an expression is scanned into its tokens. -/
theorem spelled_exprText {e : Expr} (h : e.All IsSpellable) :
    Spelled (exprText none e) (lexemes e) := by
  revert h
  induction e using Expr.induction_children with
  | step e ih =>
    intro h
    obtain ⟨hread, hplain⟩ := h.self
    have ih : ∀ c ∈ e.children, Spelled (exprText none c) (lexemes c) :=
      fun c hc => ih c hc (h.child hc)
    cases e with
    | identifier name span => exact spelled_name hread
    | literal value span =>
      exact spelled_literal (isPlainLiteral_of_isSpellable h.self)
    | binary op left right span =>
      have hinfix := spelled_infix op.kind op.kind_mem_operators
        (spelled_grouped (wrapsLeft op left) (ih left (by simp [Expr.children])))
        (spelled_grouped (wrapsRight op right) (ih right (by simp [Expr.children])))
      rw [op.text_kind] at hinfix
      exact hinfix
    | unary op operand span =>
      -- A second minus sign would be taken for a decrement, so it is never the next character.
      show Spelled (unaryText op _) _
      rw [unaryText_eq]
      refine spelled_unary op (spelled_grouped _ (ih operand (by simp [Expr.children]))) ?_
      intro hop
      subst hop
      exact head_parenthesized_wrapsOperand operand
    | update op operand span =>
      have hends : ∀ rest, Ends ((Lexeme.ofKind op.kind).text.toList ++ rest) := by
        intro rest
        cases op <;> exact ends_cons (by decide) (by decide)
      have hpostfix := spelled_postfix op.kind op.kind_mem_marks (spelled_grouped
        (Precedence.ofExpr operand < .postfixed) (ih operand (by simp [Expr.children]))) hends
      rw [op.text_kind] at hpostfix
      exact hpostfix
    | assign op target value span =>
      have hinfix := spelled_infix op.kind op.kind_mem_operators
        (ih target (by simp [Expr.children])) (ih value (by simp [Expr.children]))
      rw [op.text_kind] at hinfix
      exact hinfix
    | call callee arguments span =>
      have hcall := spelled_arguments
        (spelled_grouped (wrapsObject callee) (ih callee (by simp [Expr.children])))
        fun e he => ih e (show e ∈ callee :: arguments from List.mem_cons_of_mem _ he)
      rw [← exprTexts_eq_map, ← lexemesAll_eq_map] at hcall
      exact hcall
    | member object name nameSpan span =>
      exact spelled_member (spelled_grouped _ (ih object (by simp [Expr.children]))) hread
    | index object key span =>
      exact spelled_index (spelled_grouped _ (ih object (by simp [Expr.children])))
        (ih key (by simp [Expr.children]))
    | this span =>
      have hthis : Spelled "this" [.ofKind .kwThis] :=
        spelled_word (isWord_cons 't' ['h', 'i', 's'] rfl rfl)
      exact hthis
    | create type arguments span =>
      have hname := spelled_arguments (spelled_dotted hread.1) (show ∀ e ∈ arguments, _ from ih)
      rw [← exprTexts_eq_map, ← lexemesAll_eq_map] at hname
      have hnew : Scans Opens ['n', 'e', 'w', ' '] [.ofKind .kwNew] :=
        scans_wordBlank (isWord_cons 'n' ['e', 'w'] rfl rfl)
      show Spelled ("new " ++ type.name ++ "(" ++ commaJoined (exprTexts none arguments) ++ ")")
        (.ofKind .kwNew :: (dottedLexemes type.name ++ argumentLexemes (lexemesAll arguments)))
      refine ⟨?_, ?_⟩
      · have hall := hnew.append hname.scans fun rest _ => hname.opens.append rest
        simpa using hall
      · simpa using opens_of_isWordPart (show Pattern.isWordPart 'n' = true by decide)
    | base span => exact hplain.elim
    | hostCall path arguments span => exact hplain.elim
    | hostSet object property value span => exact hplain.elim
    | domCreate element arguments span => exact hplain.elim
    | domProperty object property span => exact hplain.elim
    | domCall object method arguments span => exact hplain.elim

end Script

end ClassScript

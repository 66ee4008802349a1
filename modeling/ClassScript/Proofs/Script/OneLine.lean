import ClassScript.Proofs.Script.Balance
import ClassScript.Proofs.Script.Quoting

/-!
# Texts of one line

The text of an expression has no line feed, whatever its strings hold, and begins with a
character that can be seen and closes no brace (`tidy_exprText`). So where it begins a line
of a script, the indentation of the line can be told from its text.
-/

namespace ClassScript.Script

open Brackets

/-- The text has no line feed. -/
def Inline (text : String) : Prop :=
  text.toList.contains '\n' = false

/-- Does a line begin here that closes no brace? -/
def beginsLine : List Char → Bool
  | [] => false
  | c :: _ => c ≠ ' ' && c ≠ '}'

/-- The text is the beginning of a line, after its indentation. -/
structure Tidy (text : String) : Prop where
  inline : Inline text
  begins : beginsLine text.toList = true

variable {text text' : String}

theorem inline_iff : Inline text ↔ '\n' ∉ text.toList := by
  rw [Inline, ← Bool.not_eq_true, List.contains_iff_mem]

theorem inline_ofList {cs : List Char} (h : cs.contains '\n' = false) :
    Inline (String.ofList cs) := by
  rw [Inline, String.toList_ofList]
  exact h

/-- A text that is given by its characters, so that the two conditions can be computed. -/
theorem tidy_ofList {cs : List Char} (h : (beginsLine cs && !cs.contains '\n') = true) :
    Tidy (String.ofList cs) := by
  obtain ⟨hbegins, hinline⟩ := Bool.and_eq_true_iff.1 h
  exact ⟨inline_ofList (by simpa using hinline), by rw [String.toList_ofList]; exact hbegins⟩

theorem Inline.append (h : Inline text) (h' : Inline text') : Inline (text ++ text') := by
  rw [inline_iff, String.toList_append, List.mem_append, not_or]
  exact ⟨inline_iff.1 h, inline_iff.1 h'⟩

/-- Only the first part decides how the line begins. -/
theorem Tidy.append (h : Tidy text) (h' : Inline text') : Tidy (text ++ text') := by
  refine ⟨h.inline.append h', ?_⟩
  have hbegins := h.begins
  rw [String.toList_append]
  cases hcs : text.toList with
  | nil =>
    rw [hcs] at hbegins
    cases hbegins
  | cons c cs =>
    rw [hcs] at hbegins
    exact hbegins

/-- A parenthesis begins a line, and closes no brace. -/
theorem tidy_parenthesized (wrap : Bool) (h : Tidy text) : Tidy (parenthesized wrap text) := by
  cases wrap with
  | false => exact h
  | true => exact ((tidy_ofList rfl : Tidy "(").append h.inline).append (inline_ofList rfl)

theorem inline_commaJoined {texts : List String} (h : ∀ text ∈ texts, Inline text) :
    Inline (commaJoined texts) := by
  induction texts with
  | nil => exact inline_ofList rfl
  | cons text texts ih =>
    obtain ⟨htext, htexts⟩ := List.forall_mem_cons.1 h
    cases texts with
    | nil => exact htext
    | cons text' texts => exact (htext.append (inline_ofList rfl)).append (ih htexts)

/-! ### Names -/

/-- The characters of a name are told apart from all others by their class. -/
theorem ne_of_isWordPart {c d : Char} (h : Pattern.isWordPart c = true)
    (hd : Pattern.isWordPart d = false) : c ≠ d := by
  rintro rfl
  rw [h] at hd
  cases hd

theorem inline_of_isWordPart (h : ∀ c ∈ text.toList, Pattern.isWordPart c = true) : Inline text :=
  inline_iff.2 fun hmem => ne_of_isWordPart (h _ hmem) rfl rfl

/-- A name is no blank and no brace. -/
theorem beginsLine_of_isWordPart {c : Char} (h : Pattern.isWordPart c = true) (cs : List Char) :
    beginsLine (c :: cs) = true := by
  have hspace : c ≠ ' ' := ne_of_isWordPart h rfl
  have hbrace : c ≠ '}' := ne_of_isWordPart h rfl
  simp [beginsLine, hspace, hbrace]

theorem tidy_of_isName {name : String} (h : IsName name) : Tidy name := by
  obtain ⟨c, cs, hcs, hc, hrest⟩ := h.1
  have hword := isWordPart_of_isWordStart hc
  refine ⟨inline_of_isWordPart ?_, ?_⟩
  · rw [hcs]
    exact List.forall_mem_cons.2 ⟨hword, hrest⟩
  · rw [hcs]
    exact beginsLine_of_isWordPart hword cs

/-- By induction on the names after the first, which decides how the line begins. -/
theorem tidy_of_isDottedName {name : String} (h : IsDottedName name) : Tidy name := by
  obtain ⟨first, others, rfl, hnames⟩ := h
  obtain ⟨hfirst, hothers⟩ := List.forall_mem_cons.1 hnames
  replace hfirst := tidy_of_isName hfirst
  clear hnames
  induction others generalizing first with
  | nil => exact hfirst
  | cons name others ih =>
    obtain ⟨hname, hothers⟩ := List.forall_mem_cons.1 hothers
    refine ih (first ++ "." ++ name) hothers ?_
    exact (hfirst.append (inline_ofList rfl)).append (tidy_of_isName hname).inline

/-- A name that is escaped gets an underscore in front, which begins a line as well. -/
theorem tidy_bindingName {name : String} (h : Tidy name) : Tidy (bindingName name) := by
  unfold bindingName
  split
  · exact (tidy_ofList rfl : Tidy "_").append h.inline
  · exact h

/-- A bare name may be written behind the instance or the class. -/
theorem tidy_resolve {scope : Scope} {name : String} (hscope : Tidy scope.className)
    (h : Tidy name) : Tidy (scope.resolve name) := by
  unfold Scope.resolve
  split
  · exact tidy_bindingName h
  split
  · exact (tidy_ofList rfl : Tidy "this.").append h.inline
  split
  · exact (hscope.append (inline_ofList rfl)).append h.inline
  · exact h

/-- Lower case takes letters of the source language to such letters. -/
theorem isWordPart_lowercase {c : Char} (h : Pattern.isWordPart c = true) :
    ∀ d ∈ Text.lowercase c, Pattern.isWordPart d = true := by
  obtain ⟨-, hle⟩ := toNat_of_isWordPart h
  unfold Text.lowercase
  rw [if_neg (by omega)]
  split
  · rename_i run hrun
    have hmem := Array.mem_of_find?_eq_some hrun
    have hcontains := Array.find?_some hrun
    simp only [Text.CaseRun.contains, Bool.and_eq_true, decide_eq_true_eq] at hcontains
    rcases caseRuns_ascii run (Array.mem_toList_iff.2 hmem) with hfirst | ⟨hfirst, hlast, hshift⟩
    · omega
    · have hletters : ∀ n < 0x5B, 0x41 ≤ n → Pattern.isWordPart (Char.ofNat (n + 32)) = true := by
        decide
      have hshifted : (c.toNat + run.shift).toNat = c.toNat + 32 := by omega
      intro d hd
      rw [List.mem_singleton.1 hd, hshifted]
      exact hletters c.toNat (by omega) (by omega)
  · simpa using h

/-- The member of an element is a name, with its first letter in lower case. -/
theorem inline_memberName {name : String} (h : IsName name) : Inline (Dom.memberName name) := by
  obtain ⟨c, cs, hcs, hc, hrest⟩ := h.1
  refine inline_of_isWordPart ?_
  rw [Dom.memberName, hcs, String.toList_ofList]
  intro d hd
  rcases List.mem_append.1 hd with hd | hd
  · exact isWordPart_lowercase (isWordPart_of_isWordStart hc) d hd
  · exact hrest d hd

/-! ### Literals -/

/-- A line feed in a string is written as an escape. -/
theorem tidy_quoted (text : String) : Tidy (quoted text) := by
  refine ⟨inline_iff.2 fun hmem => ?_, by rw [quoted, String.toList_ofList]; rfl⟩
  rw [quoted, String.toList_ofList] at hmem
  simp only [List.cons_append, List.mem_cons, List.mem_append, List.mem_flatMap] at hmem
  rcases hmem with hmem | ⟨c, -, hmem⟩ | hmem | hmem
  · cases hmem
  · exact absurd (breaksLiteral_of_written (written_quotedChar c) hmem) (by decide)
  · cases hmem
  · cases hmem

theorem tidy_positional (d : Binary64.Decimal) : Tidy (d.positional false) := by
  obtain ⟨whole, fraction, htext, hne, hwhole, hfraction, -, -⟩ := d.positional_eq
  obtain ⟨c, cs, rfl⟩ := List.exists_cons_of_ne_nil hne
  have hc := isWordPart_of_isDigit (hwhole c List.mem_cons_self)
  refine ⟨inline_iff.2 fun hmem => ?_, ?_⟩
  · rw [htext] at hmem
    rcases List.mem_append.1 hmem with hmem | hmem
    · exact absurd (hwhole _ hmem) (by decide)
    · split at hmem
      · cases hmem
      · rcases List.mem_cons.1 hmem with hmem | hmem
        · cases hmem
        · exact absurd (hfraction _ hmem) (by decide)
  · rw [htext]
    exact beginsLine_of_isWordPart hc _

/-- A number begins with a digit, a minus sign or the letter of a word. -/
theorem tidy_numberText (x : Binary64) : Tidy (numberText x) := by
  have hdigits : Tidy (if x.rank = 0 then "0"
      else (Binary64.shortest .up x.rank).positional false) := by
    split
    · exact tidy_ofList rfl
    · exact tidy_positional _
  unfold numberText
  split
  · rw [format_numberLayout]
    split
    · exact (tidy_ofList rfl : Tidy "-").append hdigits.inline
    · rw [String.empty_append]
      exact hdigits
  · split
    · exact tidy_ofList rfl
    · exact tidy_ofList rfl

theorem tidy_literalText (value : Literal) : Tidy (literalText value) := by
  cases value with
  | string value => exact tidy_quoted value
  | number value => exact tidy_numberText value
  | boolean value => cases value <;> exact tidy_ofList rfl
  | null => exact tidy_ofList rfl

/-! ### Expressions -/

theorem inline_exprTexts {scope : Option Scope} {es : List Expr}
    (h : ∀ e ∈ es, Tidy (exprText scope e)) : ∀ text ∈ exprTexts scope es, Inline text := by
  intro text htext
  rw [exprTexts_eq_map] at htext
  obtain ⟨e, he, rfl⟩ := List.mem_map.1 htext
  exact (h e he).inline

/-- A call: what is called and an opening parenthesis, the arguments, and a closing
parenthesis. -/
theorem tidy_call {front : String} {texts : List String} (hfront : Tidy front)
    (h : ∀ text ∈ texts, Inline text) : Tidy (front ++ commaJoined texts ++ ")") :=
  (hfront.append (inline_commaJoined h)).append (inline_ofList rfl)

/-- Two texts with an operator between them. -/
theorem tidy_operation {left op right : String} (hleft : Tidy left) (hop : Inline op)
    (hright : Tidy right) : Tidy (left ++ " " ++ op ++ " " ++ right) := by
  have hspace : Inline " " := inline_ofList rfl
  exact (((hleft.append hspace).append hop).append hspace).append hright.inline

/-- The text of an expression that was read stays in one line, by induction on the expression. -/
theorem tidy_exprText {scope : Scope} {e : Expr} (hscope : Tidy scope.className)
    (h : e.All Expr.WellRead) : Tidy (exprText scope e) := by
  revert h
  induction e using Expr.induction_children with
  | step e ih =>
    intro h
    have hread := h.self
    have ih : ∀ c ∈ e.children, Tidy (exprText scope c) := fun c hc => ih c hc (h.child hc)
    cases e with
    | identifier name span => exact tidy_resolve hscope (tidy_of_isName hread)
    | literal value span => exact tidy_literalText value
    | binary op left right span =>
      have hop : Inline op.spelling := by cases op <;> exact inline_ofList rfl
      exact tidy_operation
        (tidy_parenthesized (wrapsLeft op left) (ih left (by simp [Expr.children]))) hop
        (tidy_parenthesized (wrapsRight op right) (ih right (by simp [Expr.children])))
    | unary op operand span =>
      have hop : Tidy op.spelling := by cases op <;> exact tidy_ofList rfl
      exact hop.append (tidy_parenthesized _
        (tidy_parenthesized _ (ih operand (by simp [Expr.children])))).inline
    | update op operand span =>
      have hop : Inline op.spelling := by cases op <;> exact inline_ofList rfl
      exact (tidy_parenthesized _ (ih operand (by simp [Expr.children]))).append hop
    | assign op target value span =>
      have hop : Inline op.spelling := by cases op <;> exact inline_ofList rfl
      exact tidy_operation (ih target (by simp [Expr.children])) hop
        (ih value (by simp [Expr.children]))
    | call callee arguments span =>
      have hcallee := tidy_parenthesized (wrapsObject callee) (ih callee (by simp [Expr.children]))
      exact tidy_call (hcallee.append (inline_ofList rfl))
        (inline_exprTexts fun e he => ih e (by simp [Expr.children, he]))
    | member object name nameSpan span =>
      have hobject := tidy_parenthesized (wrapsObject object) (ih object (by simp [Expr.children]))
      exact (hobject.append (inline_ofList rfl)).append (tidy_of_isName hread).inline
    | index object key span =>
      have hobject := tidy_parenthesized (wrapsObject object) (ih object (by simp [Expr.children]))
      exact ((hobject.append (inline_ofList rfl)).append
        (ih key (by simp [Expr.children])).inline).append (inline_ofList rfl)
    | this span => exact (tidy_ofList rfl : Tidy "this")
    | base span => exact (tidy_ofList rfl : Tidy "super")
    | create type arguments span =>
      have hname := (tidy_ofList rfl : Tidy "new ").append (tidy_of_isDottedName hread.1).inline
      exact tidy_call (hname.append (inline_ofList rfl)) (inline_exprTexts ih)
    | hostCall path arguments span =>
      exact tidy_call (tidy_ofList rfl : Tidy "__Interop.call(")
        (List.forall_mem_cons.2 ⟨(tidy_quoted path).inline, inline_exprTexts ih⟩)
    | hostSet object property value span =>
      exact tidy_call (tidy_ofList rfl : Tidy "__Interop.set(")
        (inline_exprTexts (show ∀ e ∈ [object, property, value], _ from ih))
    | domCreate element arguments span =>
      have hname := (tidy_ofList rfl : Tidy "new __Dom.").append (tidy_of_isDottedName hread).inline
      exact tidy_call (hname.append (inline_ofList rfl)) (inline_exprTexts ih)
    | domProperty object property span =>
      have hunwrap := ((tidy_ofList rfl : Tidy "__Dom.unwrap(").append
        (ih object (by simp [Expr.children])).inline).append (inline_ofList rfl : Inline ").")
      exact hunwrap.append (inline_memberName hread)
    | domCall object method arguments span =>
      exact tidy_call (tidy_ofList rfl : Tidy "__Dom.invoke(")
        (List.forall_mem_cons.2 ⟨(ih object (by simp [Expr.children])).inline,
          List.forall_mem_cons.2 ⟨(tidy_quoted _).inline,
            inline_exprTexts fun e he => ih e (by simp [Expr.children, he])⟩⟩)

end ClassScript.Script

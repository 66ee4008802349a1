import ClassScript.Proofs.Script.OneLine
import ClassScript.Proofs.Source.Lines

/-!
# Indentation mirrors the braces

Emitted lines carry their levels with them, and the braces are in their texts. `Mirrors` says
that the two agree: lines that open a brace are followed by lines one level further in, up to
the line that closes it. Each part of a class is emitted that way.

What follows is about the text. The lines can be told apart in it, since no line has a line
feed of its own. A scan over the text before a line comes to as many open braces as the level
of the line says, and so the braces outside of strings, opening ones less closing ones, give
the number of blanks that it begins with (`Mirrors.indented`). Without these blanks nothing
depends on the width of a level any more (`Mirrors.unindented_renderLines`).
-/

namespace ClassScript.Script

open Brackets

/-! ### Braces outside of strings -/

/-- The characters that stand outside of string literals, read from inside of a string that
`quote` has opened, if any, and behind a backslash there if `escaped`. -/
def bare (quote : Option Char) (escaped : Bool) : List Char → List Char
  | [] => []
  | c :: cs =>
    match quote with
    | some q =>
      if escaped then bare quote false cs
      else if c = '\\' then bare quote true cs
      else if c = q then bare none escaped cs
      else bare quote escaped cs
    | none =>
      if c = '"' ∨ c = '\x60' then bare (some c) escaped cs else c :: bare none escaped cs

/-- How many of the characters outside of string literals are `c`. -/
def bareCount (c : Char) (text : List Char) : Nat :=
  (bare none false text).count c

/-- One step of a scan: what stays of the character outside of strings, and what that does to
the open braces. -/
theorem exists_bare_cons {b a : Brackets} {c : Char} (h : step b c = some a) :
    ∃ kept : List Char,
      (∀ cs, bare b.quote b.escaped (c :: cs) = kept ++ bare a.quote a.escaped cs) ∧
      kept.count '{' + b.opened.count '{' =
        kept.count '}' + a.opened.count '{' := by
  obtain ⟨opened, quote, escaped⟩ := b
  cases quote with
  | some q =>
    refine ⟨[], fun cs => ?_, ?_⟩
    · simp only [step] at h
      grind [bare]
    · simp only [step] at h
      grind
  | none =>
    simp only [step] at h
    split at h
    · rename_i hquote
      cases h
      exact ⟨[], fun cs => by simp [bare, hquote], rfl⟩
    rename_i hquote
    have hkept : ∀ cs, bare none escaped (c :: cs) = [c] ++ bare none escaped cs :=
      fun cs => by simp [bare, hquote]
    split at h
    · rename_i hopen
      have hclose : c ≠ '}' := by
        rintro rfl
        exact absurd hopen (by decide)
      cases h
      exact ⟨[c], hkept, by simp [List.count_cons, hclose]; omega⟩
    rename_i hopen
    have hbrace : c ≠ '{' := fun h => hopen (.inr (.inr h))
    split at h
    · rename_i hnone
      have hclose : c ≠ '}' := by
        rintro rfl
        cases hnone
      cases h
      exact ⟨[c], hkept, by simp [hclose, hbrace]⟩
    · -- A closing bracket takes the bracket that it closes off the open ones.
      rename_i o ho
      split at h
      · rename_i hhead
        obtain ⟨opened, rfl⟩ := List.head?_eq_some_iff.1 hhead
        cases h
        have hpair : c = '}' ↔ o = '{' := by
          unfold opening? at ho
          split at ho <;> cases ho <;> simp
        exact ⟨[c], hkept, by simp [List.count_cons, hbrace, hpair]; omega⟩
      · cases h

/-- A scan that goes through has opened as many braces as it has closed, and those that are
open at its end. -/
theorem count_bare {b b' : Brackets} {cs : List Char} (h : scan b cs = some b') :
    (bare b.quote b.escaped cs).count '{' + b.opened.count '{' =
      (bare b.quote b.escaped cs).count '}' + b'.opened.count '{' := by
  induction cs generalizing b with
  | nil =>
    cases h
    rfl
  | cons c cs ih =>
    have h : (step b c).bind (scan · cs) = some b' := h
    obtain ⟨a, ha, hcs⟩ := Option.bind_eq_some_iff.1 h
    obtain ⟨kept, hbare, hkept⟩ := exists_bare_cons ha
    have hrest := ih hcs
    rw [hbare, List.count_append, List.count_append]
    omega

/-! ### Lines at their levels -/

/-- The lines stand at the levels that their braces ask for, where `d` braces are open at
first and `e` at the end. A line is as it is, or opens a brace, or closes one and has no
other text. -/
inductive Mirrors : Nat → List Line → Nat → Prop
  | nil (d : Nat) : Mirrors d [] d
  | blank {d e : Nat} {lines : List Line} : Mirrors d lines e → Mirrors d (.blank :: lines) e
  | plain {d e : Nat} {text : String} {lines : List Line} : Tidy text →
      NeutralLines [.code d text] → Mirrors d lines e → Mirrors d (.code d text :: lines) e
  | opening {d e : Nat} {text : String} {lines : List Line} : Tidy text →
      Leads text (outside []) (outside ['{']) → Mirrors (d + 1) lines e →
      Mirrors d (.code d text :: lines) e
  | closing {d e : Nat} {lines : List Line} : Mirrors d lines e →
      Mirrors (d + 1) (.code d "\x7d" :: lines) e

namespace Mirrors

variable {d e f : Nat} {lines lines' : List Line}

/-- Lines that end where others go on. -/
theorem append (h : Mirrors d lines e) (h' : Mirrors e lines' f) :
    Mirrors d (lines ++ lines') f := by
  induction h with
  | nil => exact h'
  | blank _ ih => exact .blank (ih h')
  | plain htidy hneutral _ ih => exact .plain htidy hneutral (ih h')
  | opening htidy hopens _ ih => exact .opening htidy hopens (ih h')
  | closing _ ih => exact .closing (ih h')

theorem code {text : String} (htidy : Tidy text) (hneutral : NeutralLines [.code d text]) :
    Mirrors d [.code d text] d :=
  .plain htidy hneutral (.nil d)

/-- Lines between one that ends in an opening brace and a closing brace. -/
theorem block {header : String} (htidy : Tidy header)
    (hopens : Leads header (outside []) (outside ['{']))
    (hbody : Mirrors (d + 1) lines (d + 1)) :
    Mirrors d (.code d header :: lines ++ [.code d "\x7d"]) d :=
  .opening htidy hopens (hbody.append (.closing (.nil d)))

/-- Parts that each end where they began. -/
theorem flatMap {α : Type} {g : α → List Line} {xs : List α}
    (h : ∀ x ∈ xs, Mirrors d (g x) d) : Mirrors d (xs.flatMap g) d := by
  induction xs with
  | nil => exact .nil d
  | cons x xs ih =>
    obtain ⟨hx, hxs⟩ := List.forall_mem_cons.1 h
    exact hx.append (ih hxs)

theorem map {α : Type} {g : α → Line} {xs : List α} (h : ∀ x ∈ xs, Mirrors d [g x] d) :
    Mirrors d (xs.map g) d := by
  rw [List.map_eq_flatMap]
  exact flatMap h

/-- Blank lines between sections have no level. -/
theorem separated {sections : List (List Line)} (h : ∀ lines ∈ sections, Mirrors d lines d) :
    Mirrors d (separated sections) d := by
  induction sections with
  | nil => exact .nil d
  | cons lines sections ih =>
    obtain ⟨hlines, hsections⟩ := List.forall_mem_cons.1 h
    cases sections with
    | nil => exact hlines
    | cons lines' sections => exact hlines.append (.blank (ih hsections))

/-- The text of the lines opens and closes braces as the levels say. -/
theorem leads (h : Mirrors d lines e) (width : Nat) :
    Leads (renderLines width lines) (outside (List.replicate d '{'))
      (outside (List.replicate e '{')) := by
  induction h with
  | nil d => exact neutral_empty.leads _
  | blank _ ih => exact (neutral_lineEnd.leads _).append ih
  | @plain d e text lines _ hneutral _ ih =>
    have hline : Neutral ((Line.code d text).render width) := by
      have h := hneutral width
      rwa [renderLines, renderLines, String.append_empty] at h
    exact (hline.leads _).append ih
  | @opening d e text lines _ hopens _ ih =>
    have hline := leads_render d width (hopens.within (List.replicate d '{'))
    exact hline.append ih
  | @closing d e lines _ ih =>
    have hclose : Leads "\x7d" (outside (List.replicate (d + 1) '{'))
        (outside (List.replicate d '{')) := leads_ofList rfl
    exact (leads_render d width hclose).append ih

/-- A line with its text, inside of `k` open braces: it stands at that level, or it closes the
innermost brace. -/
inductive StandsAt (k : Nat) : Nat → String → Prop
  | inside {text : String} : Tidy text → StandsAt k k text
  | closes {level : Nat} : k = level + 1 → StandsAt k level "\x7d"

/-- Every line with text stands where the lines before it say. -/
theorem standsAt {before after : List Line} {level : Nat} {text : String}
    (h : Mirrors d (before ++ .code level text :: after) e) :
    ∃ k, Mirrors d before k ∧ StandsAt k level text := by
  induction before generalizing d with
  | nil =>
    cases h with
    | plain htidy => exact ⟨level, .nil level, .inside htidy⟩
    | opening htidy => exact ⟨level, .nil level, .inside htidy⟩
    | closing => exact ⟨level + 1, .nil (level + 1), .closes rfl⟩
  | cons line before ih =>
    cases h with
    | blank hrest =>
      obtain ⟨k, hbefore, hstands⟩ := ih hrest
      exact ⟨k, .blank hbefore, hstands⟩
    | plain htidy hneutral hrest =>
      obtain ⟨k, hbefore, hstands⟩ := ih hrest
      exact ⟨k, .plain htidy hneutral hbefore, hstands⟩
    | opening htidy hopens hrest =>
      obtain ⟨k, hbefore, hstands⟩ := ih hrest
      exact ⟨k, .opening htidy hopens hbefore, hstands⟩
    | closing hrest =>
      obtain ⟨k, hbefore, hstands⟩ := ih hrest
      exact ⟨k, .closing hbefore, hstands⟩

end Mirrors

/-! ### The text of lines -/

/-- No line has a line feed of its own. -/
theorem Mirrors.StandsAt.inline {k level : Nat} {text : String}
    (h : Mirrors.StandsAt k level text) : Inline text := by
  cases h with
  | inside htidy => exact htidy.inline
  | closes => exact inline_ofList rfl

/-- The first character of a line tells whether the line stands one level further out. -/
theorem Mirrors.StandsAt.exists_cons {k level : Nat} {text : String}
    (h : Mirrors.StandsAt k level text) : ∃ c cs, text.toList = c :: cs ∧ c ≠ ' ' ∧ c ≠ '\n' ∧
      k = level + if c = '}' then 1 else 0 := by
  cases h with
  | inside htidy =>
    have hbegins := htidy.begins
    have hinline := inline_iff.1 htidy.inline
    cases hcs : text.toList with
    | nil =>
      rw [hcs] at hbegins
      cases hbegins
    | cons c cs =>
      rw [hcs] at hbegins hinline
      simp only [beginsLine, Bool.and_eq_true, decide_eq_true_eq] at hbegins
      have hfeed : c ≠ '\n' := fun h => hinline (h ▸ List.mem_cons_self)
      exact ⟨c, cs, rfl, hbegins.1, hfeed, by rw [if_neg hbegins.2]; rfl⟩
  | closes hk => exact ⟨'}', [], rfl, by decide, by decide, hk⟩

theorem toList_render_blank (width : Nat) : (Line.blank.render width).toList = ['\n'] :=
  String.toList_ofList

/-- A line is its blanks, its text and a line feed. -/
theorem toList_render_code (width level : Nat) (text : String) :
    ((Line.code level text).render width).toList =
      List.replicate (width * level) ' ' ++ text.toList ++ ['\n'] := by
  simp [Line.render, blanks, Nat.mul_comm]

/-- The text of several lines, as characters. -/
theorem toList_renderLines (width : Nat) (lines : List Line) :
    (renderLines width lines).toList =
      (lines.map fun line => (line.render width).toList).flatten := by
  induction lines with
  | nil => rfl
  | cons line lines ih =>
    rw [renderLines, String.toList_append, ih, List.map_cons, List.flatten_cons]

theorem closed_render (width : Nat) (line : Line) :
    Source.Closed (line.render width).toList := by
  cases line with
  | blank => exact .inr (by rw [toList_render_blank]; rfl)
  | code level text => exact .inr (by rw [toList_render_code, List.getLast?_concat])

/-- A rendered line is one line of the text. -/
theorem lines_render (width : Nat) {line : Line}
    (h : ∀ level text, line = .code level text → Inline text) :
    Source.lines (line.render width).toList = [(line.render width).toList] := by
  cases line with
  | blank =>
    rw [toList_render_blank]
    rfl
  | code level text =>
    have hspaces : '\n' ∉ List.replicate (width * level) ' ' := by simp
    have hfeed : '\n' ∉ List.replicate (width * level) ' ' ++ text.toList := by
      rw [List.mem_append, not_or]
      exact ⟨hspaces, inline_iff.1 (h level text rfl)⟩
    rw [toList_render_code]
    exact Source.lines_line hfeed (.inr rfl) (by simp)

namespace Mirrors

variable {d e : Nat} {lines : List Line}

/-- The same of each line of a part. -/
theorem inline (h : Mirrors d lines e) {level : Nat} {text : String}
    (hmem : Line.code level text ∈ lines) : Inline text := by
  obtain ⟨before, after, rfl⟩ := List.append_of_mem hmem
  obtain ⟨k, -, hstands⟩ := h.standsAt
  exact hstands.inline

/-- The lines can be told apart in the text. -/
theorem lines_renderLines (h : Mirrors d lines e) (width : Nat) :
    Source.lines (renderLines width lines).toList =
      lines.map fun line => (line.render width).toList := by
  have hinline : ∀ line ∈ lines, ∀ level text, line = .code level text → Inline text := by
    rintro line hline level text rfl
    exact h.inline hline
  clear h
  induction lines with
  | nil => rfl
  | cons line lines ih =>
    obtain ⟨hline, hlines⟩ := List.forall_mem_cons.1 hinline
    rw [renderLines, String.toList_append, Source.lines_append (closed_render width line),
      lines_render width hline, ih hlines]
    rfl

/-- A line of the text that is not empty is indented by the braces that are open before it. -/
theorem indented (h : Mirrors 0 lines e) {width : Nat} {before after : List (List Char)}
    {line : List Char}
    (hlines : Source.lines (renderLines width lines).toList = before ++ line :: after)
    (hline : line ≠ ['\n']) :
    ∃ depth c rest, line = List.replicate (width * depth) ' ' ++ c :: rest ∧ c ≠ ' ' ∧ c ≠ '\n' ∧
      bareCount '{' before.flatten =
        bareCount '}' before.flatten + depth + if c = '}' then 1 else 0 := by
  rw [h.lines_renderLines width] at hlines
  obtain ⟨front, rest, rfl, rfl, hrest⟩ := List.map_eq_append_iff.1 hlines
  obtain ⟨one, others, rfl, rfl, rfl⟩ := List.map_eq_cons_iff.1 hrest
  cases one with
  | blank => exact absurd (toList_render_blank width) hline
  | code level text =>
    obtain ⟨k, hfront, hstands⟩ := h.standsAt
    obtain ⟨c, cs, hcs, hspace, hfeed, rfl⟩ := hstands.exists_cons
    have hcount := count_bare (hfront.leads width)
    refine ⟨level, c, cs ++ ['\n'], ?_, hspace, hfeed, ?_⟩
    · rw [toList_render_code, hcs, List.append_assoc]
      rfl
    · rw [← toList_renderLines]
      simpa [bareCount, outside, Nat.add_assoc] using hcount

end Mirrors

/-- The text without the blanks that its lines begin with. -/
def unindented (text : List Char) : List Char :=
  (Source.lines text).flatMap fun line => line.dropWhile (· = ' ')

/-- Without its indentation a text is what it is if a level has no width. -/
theorem Mirrors.unindented_renderLines {d e : Nat} {lines : List Line} (h : Mirrors d lines e)
    (width : Nat) : unindented (renderLines width lines).toList = (renderLines 0 lines).toList := by
  rw [unindented, h.lines_renderLines width, List.flatMap_map, toList_renderLines,
    List.flatMap_def]
  refine congrArg List.flatten (List.map_congr_left fun line hline => ?_)
  cases line with
  | blank =>
    rw [toList_render_blank, toList_render_blank]
    rfl
  | code level text =>
    obtain ⟨before, after, rfl⟩ := List.append_of_mem hline
    obtain ⟨k, -, hstands⟩ := h.standsAt
    obtain ⟨c, cs, hcs, hspace, -⟩ := hstands.exists_cons
    rw [toList_render_code, toList_render_code, hcs, List.append_assoc,
      List.dropWhile_append_of_pos (by simp)]
    simp [hspace]

/-! ### Statements -/

/-- What is known of the expressions and the names of a part of a unit. -/
structure Printable (es : List Expr) (ns : List String) : Prop extends Emittable es ns where
  tidy : ∀ n ∈ ns, Tidy n

/-- What is known of a whole is known of its parts. -/
theorem Printable.mono {es es' : List Expr} {ns ns' : List String} (h : Printable es ns)
    (hes : es' ⊆ es) (hns : ns' ⊆ ns) : Printable es' ns' :=
  ⟨h.toEmittable.mono hes hns, fun n hn => h.tidy n (hns hn)⟩

/-- The text of an expression of the part is one line. -/
theorem Printable.tidy_exprText {es : List Expr} {ns : List String} {scope : Scope} {e : Expr}
    (h : Printable es ns) (hscope : Tidy scope.className) (he : e ∈ es) :
    Tidy (exprText scope e) :=
  Script.tidy_exprText hscope (h.expressions e he)

/-- A text that can stand anywhere in a line. -/
structure Phrase (text : String) : Prop where
  neutral : Neutral text
  tidy : Tidy text

/-- A statement that takes one line. -/
theorem mirrors_line {level : Nat} {scope : Scope} {s : Stmt} {text : String}
    (hscope : Phrase scope.className) (h : Printable s.expressions s.names)
    (hlines : (stmtLines level scope s).1 = [.code level text]) (htidy : Tidy text) :
    Mirrors level (stmtLines level scope s).1 level := by
  have hneutral := (neutralLines_stmt level scope hscope.neutral s h.toEmittable).1
  rw [hlines] at hneutral ⊢
  exact .code htidy hneutral

mutual

/-- By induction on the statement. A block is the only one with braces. -/
theorem mirrors_stmt (level : Nat) (scope : Scope) (hscope : Phrase scope.className) :
    (s : Stmt) → Printable s.expressions s.names →
      Mirrors level (stmtLines level scope s).1 level
  | .block body _, h =>
    .block (tidy_ofList rfl) (leads_ofList rfl) (mirrors_stmts (level + 1) scope hscope body h)
  | .expression e _, h => by
    have he := h.tidy_exprText hscope.tidy (show e ∈ [e] by simp)
    exact mirrors_line hscope h rfl (he.append (inline_ofList rfl))
  | .variable _ name none _, h => by
    have hname := tidy_bindingName (h.tidy name (show name ∈ [name] by simp))
    have hlet := (tidy_ofList rfl : Tidy "let ").append hname.inline
    exact mirrors_line hscope h rfl (hlet.append (inline_ofList rfl))
  | .variable _ name (some value) _, h => by
    have hname := tidy_bindingName (h.tidy name (show name ∈ [name] by simp))
    have hlet := (tidy_ofList rfl : Tidy "let ").append hname.inline
    have hvalue := h.tidy_exprText hscope.tidy (show value ∈ [value] by simp)
    exact mirrors_line hscope h rfl (((hlet.append (inline_ofList rfl : Inline " = ")).append
      hvalue.inline).append (inline_ofList rfl))
  | .return none _, h => mirrors_line hscope h rfl (tidy_ofList rfl)
  | .return (some value) _, h => by
    have hvalue := h.tidy_exprText hscope.tidy (show value ∈ [value] by simp)
    exact mirrors_line hscope h rfl (((tidy_ofList rfl : Tidy "return ").append
      hvalue.inline).append (inline_ofList rfl))
  | .unsupported construct _, h => by
    have hdescribe : Inline construct.describe := by cases construct <;> exact inline_ofList rfl
    exact mirrors_line hscope h rfl (((tidy_ofList rfl : Tidy "/* unsupported: ").append
      hdescribe).append (inline_ofList rfl))

theorem mirrors_stmts (level : Nat) (scope : Scope) (hscope : Phrase scope.className) :
    (ss : List Stmt) → Printable (Stmt.expressionsOf ss) (Stmt.namesOf ss) →
      Mirrors level (stmtsLines level scope ss).1 level
  | [], _ => .nil level
  | s :: ss, h => by
    have hs := h.mono (List.subset_append_left _ _) (List.subset_append_left _ _)
    have hname := (neutralLines_stmt level scope hscope.neutral s hs.toEmittable).2
    have hothers := mirrors_stmts level (stmtLines level scope s).2 (by rw [hname]; exact hscope) ss
      (h.mono (List.subset_append_right _ _) (List.subset_append_right _ _))
    exact (mirrors_stmt level scope hscope s hs).append hothers

end

/-! ### Members -/

section

variable {es : List Expr} {ns : List String} {scope : Scope} {c : ClassDecl}

/-- A name of the part can stand anywhere in a line. -/
theorem Printable.phrase (h : Printable es ns) {n : String} (hn : n ∈ ns) : Phrase n :=
  ⟨h.neutral hn, h.tidy n hn⟩

theorem Printable.member {m : Member} (h : Printable c.expressions c.names) (hm : m ∈ c.members) :
    Printable m.expressions m.names := by
  refine h.mono (fun e he => List.mem_flatMap.2 ⟨m, hm, he⟩) fun n hn => ?_
  exact List.mem_append_right _ (List.mem_flatMap.2 ⟨m, hm, hn⟩)

/-- Parameters do not change the name of the class in scope. -/
theorem Printable.className (h : Printable c.expressions c.names) (parameters : List Parameter) :
    Phrase ((Scope.ofClass c).declareParameters parameters).className := by
  rw [className_declareParameters]
  exact h.phrase List.mem_cons_self

/-- The line that opens the body of a member with parameters. -/
theorem Printable.signature {front : String} {parameters : List Parameter} (h : Printable es ns)
    (hscope : Phrase scope.className)
    (hes : parameters.flatMap (·.defaultValue.toList) ⊆ es)
    (hns : parameters.map Parameter.name ⊆ ns) (hfront : Tidy front)
    (hopens : Leads front (outside []) (outside ['('])) :
    Tidy (front ++ parametersText scope parameters ++ ") \x7b") ∧
      Leads (front ++ parametersText scope parameters ++ ") \x7b") (outside [])
        (outside ['{']) := by
  have hneutral := neutral_parametersText h.toEmittable hscope.neutral hes hns
  have hinline : Inline (parametersText scope parameters) := by
    refine inline_commaJoined ?_
    intro text htext
    obtain ⟨p, hp, rfl⟩ := List.mem_map.1 htext
    have hname := (tidy_bindingName (h.tidy _ (hns (List.mem_map_of_mem hp)))).inline
    unfold parameterText
    split
    · rename_i e he
      have hmem : e ∈ es := hes (List.mem_flatMap.2 ⟨p, hp, by simp [he]⟩)
      exact (hname.append (inline_ofList rfl)).append (h.tidy_exprText hscope.tidy hmem).inline
    · exact hname
  exact ⟨(hfront.append hinline).append (inline_ofList rfl), leads_signature hopens hneutral⟩

/-- A body ends at the level it begins at. -/
theorem mirrors_body (level : Nat) {block : Block} (h : Printable es ns)
    (hscope : Phrase scope.className) (hes : block.expressions ⊆ es)
    (hns : block.names ⊆ ns) : Mirrors level (bodyLines level scope block) level :=
  mirrors_stmts level scope hscope block.body (h.mono hes hns)

/-- A chained call has no braces. -/
theorem mirrors_chain (level : Nat) (hasBase : Bool) {chain : Option ConstructorChain}
    (h : Printable es ns) (hscope : Phrase scope.className)
    (hes : chain.toList.flatMap (·.arguments) ⊆ es) :
    Mirrors level (chainLines level scope hasBase chain) level := by
  have hsuper : Mirrors level (if hasBase then [Line.code level "super();"] else []) level := by
    split
    · exact .code (tidy_ofList rfl) (neutralLines_code level (leads_ofList rfl))
    · exact .nil level
  have hneutral := neutralLines_chain level hasBase h.toEmittable hscope.neutral hes
  unfold chainLines at hneutral ⊢
  split
  · exact hsuper
  · rename_i arguments span
    have harguments : ∀ e ∈ arguments, Tidy (exprText scope e) := fun e he =>
      h.tidy_exprText hscope.tidy (hes (by simpa using he))
    have hcall := (tidy_ofList rfl : Tidy "super(").append
      (inline_commaJoined (inline_exprTexts harguments))
    cases hasBase with
    | true => exact .code (hcall.append (inline_ofList rfl)) hneutral
    | false => exact .nil level
  · exact hsuper.append (.code (tidy_ofList rfl) (neutralLines_code level (leads_ofList rfl)))

/-- The body of a constructor stands one level further in. -/
theorem mirrors_constructor {level : Nat} {k : Constructor} (h : Printable c.expressions c.names)
    (hk : Member.constructor k ∈ c.members) :
    Mirrors level (constructorLines level c k) level := by
  have hmember := h.member hk
  have hscope := h.className k.parameters
  obtain ⟨htidy, hopens⟩ := hmember.signature hscope
    (fun e he => by simp only [Member.expressions, List.mem_append]; exact .inl (.inl he))
    (fun n hn => by simp only [Member.names, List.mem_append, List.mem_cons]; exact .inl (.inr hn))
    (tidy_ofList rfl : Tidy "constructor(") (leads_ofList rfl)
  have hchain := mirrors_chain (level + 1) c.baseClass.isSome hmember hscope
    (fun e he => by simp only [Member.expressions, List.mem_append]; exact .inl (.inr he))
  have hbody := mirrors_body (level + 1) hmember hscope
    (fun e he => by simp only [Member.expressions, List.mem_append]; exact .inr he)
    (fun n hn => by simp only [Member.names, List.mem_append]; exact .inr hn)
  exact .block htidy hopens (hchain.append hbody)

/-- The word before the name of a static member. -/
theorem tidy_staticWord (isStatic : Bool) {text : String} (h : Tidy text) :
    Tidy (staticWord isStatic ++ text) := by
  cases isStatic with
  | true => exact (tidy_ofList rfl : Tidy "static ").append h.inline
  | false =>
    rw [staticWord, if_neg (by decide), String.empty_append]
    exact h

/-- The body of a method does so too. -/
theorem mirrors_method {level : Nat} {m : Method} (h : Printable c.expressions c.names)
    (hm : Member.method m ∈ c.members) : Mirrors level (methodLines level c m) level := by
  have hmember := h.member hm
  have hname : Phrase m.name := hmember.phrase List.mem_cons_self
  have hscope := h.className m.parameters
  have hfront : Leads (staticWord m.isStatic ++ m.name ++ "(") (outside []) (outside ['(']) :=
    Leads.append ((neutral_staticWord _).append hname.neutral) (leads_ofList rfl)
  obtain ⟨htidy, hopens⟩ := hmember.signature hscope
    (fun e he => by simp only [Member.expressions, List.mem_append]; exact .inl he)
    (fun n hn => by simp only [Member.names, List.mem_append, List.mem_cons]; exact .inl (.inr hn))
    ((tidy_staticWord m.isStatic hname.tidy).append (inline_ofList rfl)) hfront
  refine .block htidy hopens ?_
  split
  · rename_i block hblock
    exact mirrors_body (level + 1) hmember hscope
      (fun e he => by simp [Member.expressions, hblock, he])
      (fun n hn => by simp [Member.names, hblock, hn])
  · -- The names of the class and the method stand inside of a string.
    have hclass := h.names c.name List.mem_cons_self
    have hmethod := hmember.names m.name List.mem_cons_self
    refine .code ?_ (neutralLines_code (level + 1) ?_)
    · have hthrow := (tidy_ofList rfl : Tidy "throw new Error(\"").append
        (h.tidy c.name List.mem_cons_self).inline
      exact ((hthrow.append (inline_ofList rfl)).append hname.tidy.inline).append
        (inline_ofList rfl)
    · have hopen : Leads "throw new Error(\"" (outside []) (inString ['(']) := leads_ofList rfl
      have hpoint : Leads "." (inString ['(']) (inString ['(']) := leads_ofList rfl
      have hclose : Leads " is not implemented\");" (inString ['(']) (outside []) :=
        leads_ofList rfl
      exact (((hopen.append (scan_of_isInert hclass ['(']).2).append hpoint).append
        (scan_of_isInert hmethod ['(']).2).append hclose

/-- An accessor: a word before the name of the property, what follows it up to the opening
brace, and a body of one line. -/
theorem mirrors_accessor (level : Nat) {p : Property} {word parameters body : String}
    (h : Phrase p.name) (hword : Phrase word) (hparameters : Inline parameters)
    (hopens : Leads parameters (outside []) (outside ['{'])) (hbody : Phrase body) :
    Mirrors level [.code level (staticWord p.isStatic ++ word ++ p.name ++ parameters),
      .code (level + 1) body, .code level "\x7d"] level := by
  refine .block ?_ ?_ (.code hbody.tidy (neutralLines_code (level + 1) hbody.neutral))
  · exact ((tidy_staticWord p.isStatic hword.tidy).append h.tidy.inline).append hparameters
  · exact Leads.append (((neutral_staticWord p.isStatic).append hword.neutral).append h.neutral)
      hopens

/-- Each accessor of a property is a block. -/
theorem mirrors_accessors {level : Nat} {p : Property} (h : Phrase p.name) :
    Mirrors level (accessorLines level p) level := by
  have hslot : Phrase (backingSlot p.name) :=
    ⟨(leads_ofList rfl : Neutral "__").append h.neutral,
      (tidy_ofList rfl : Tidy "__").append h.tidy.inline⟩
  have hreturn : Phrase ("return this." ++ backingSlot p.name ++ ";") :=
    ⟨((leads_ofList rfl : Neutral "return this.").append hslot.neutral).append (leads_ofList rfl),
      ((tidy_ofList rfl : Tidy "return this.").append hslot.tidy.inline).append (inline_ofList rfl)⟩
  have hassign : Phrase ("this." ++ backingSlot p.name ++ " = value;") :=
    ⟨((leads_ofList rfl : Neutral "this.").append hslot.neutral).append (leads_ofList rfl),
      ((tidy_ofList rfl : Tidy "this.").append hslot.tidy.inline).append (inline_ofList rfl)⟩
  have hget : Phrase "get " := ⟨leads_ofList rfl, tidy_ofList rfl⟩
  have hset : Phrase "set " := ⟨leads_ofList rfl, tidy_ofList rfl⟩
  have hgetter := mirrors_accessor level h hget (inline_ofList rfl : Inline "() \x7b")
    (leads_ofList rfl) hreturn
  have hsetter := mirrors_accessor level h hset (inline_ofList rfl : Inline "(value) \x7b")
    (leads_ofList rfl) hassign
  exact hgetter.append (.blank hsetter)

/-! ### Classes -/

theorem phrase_slot {slot : Slot} (h : Printable c.expressions c.names)
    (hslot : slot ∈ c.members.filterMap slot?) :
    Phrase slot.name ∧ Phrase (slot.value (Scope.ofClass c)) := by
  obtain ⟨hneutral, hneutral'⟩ := neutral_slot h.toEmittable hslot
  obtain ⟨m, hm, hmslot⟩ := List.mem_filterMap.1 hslot
  have hmember := h.member hm
  have hvalue : slot.initializer.toList ⊆ m.expressions →
      Tidy (slot.value (Scope.ofClass c)) := by
    intro hsubset
    unfold Slot.value
    split
    · rename_i e he
      exact hmember.tidy_exprText (h.className []).tidy (hsubset (by simp [he]))
    · unfold defaultValue
      split
      · exact tidy_ofList rfl
      split
      · exact tidy_ofList rfl
      · exact tidy_ofList rfl
  cases m with
  | field f =>
    cases hmslot
    exact ⟨⟨hneutral, hmember.tidy _ List.mem_cons_self⟩, ⟨hneutral', hvalue fun e he => he⟩⟩
  | property p =>
    cases hmslot
    have hname := (hmember.tidy p.name List.mem_cons_self).inline
    exact ⟨⟨hneutral, (tidy_ofList rfl : Tidy "__").append hname⟩,
      ⟨hneutral', hvalue fun e he => he⟩⟩
  | method m => cases hmslot
  | constructor k => cases hmslot

/-- A line that gives a slot its first value. -/
theorem mirrors_slot {level : Nat} {name value : String} (h : Phrase name) (hvalue : Phrase value) :
    Mirrors level [.code level (name ++ " = " ++ value ++ ";")] level := by
  refine .code ?_ (neutralLines_code level ?_)
  · exact ((h.tidy.append (inline_ofList rfl)).append hvalue.tidy.inline).append (inline_ofList rfl)
  · exact ((h.neutral.append (leads_ofList rfl)).append hvalue.neutral).append (leads_ofList rfl)

/-- Every section of a class begins and ends at its level. -/
theorem mirrors_classSections (level : Nat) (h : Printable c.expressions c.names) :
    ∀ lines ∈ classSections level c, Mirrors level lines level := by
  intro lines hlines
  simp only [classSections, List.mem_append] at hlines
  rcases hlines with ((hlines | hlines) | hlines) | hlines
  · unfold slotSection at hlines
    split at hlines
    · cases hlines
    · rw [List.mem_singleton.1 hlines]
      refine .map fun slot hslot => ?_
      obtain ⟨hname, hvalue⟩ := phrase_slot h (List.mem_filter.1 hslot).1
      exact mirrors_slot hname hvalue
  · obtain ⟨k, hk, rfl⟩ := List.mem_map.1 hlines
    have hfound := List.mem_of_find?_eq_some (Option.mem_toList.1 hk)
    obtain ⟨m, hm, hmk⟩ := List.mem_filterMap.1 hfound
    cases m <;> cases hmk
    exact mirrors_constructor h hm
  · obtain ⟨p, hp, rfl⟩ := List.mem_map.1 hlines
    obtain ⟨m, hm, hmp⟩ := List.mem_filterMap.1 hp
    cases m <;> cases hmp
    exact mirrors_accessors ((h.member hm).phrase List.mem_cons_self)
  · obtain ⟨m, hm, rfl⟩ := List.mem_map.1 hlines
    obtain ⟨m', hm', hmm⟩ := List.mem_filterMap.1 hm
    cases m' <;> cases hmm
    exact mirrors_method h hm'

theorem mirrors_static (h : Printable c.expressions c.names) : Mirrors 0 (staticLines c) 0 := by
  have hclass : Phrase c.name := h.phrase List.mem_cons_self
  refine Mirrors.append (e := 0) ?_ ?_
  · refine .map fun slot hslot => ?_
    obtain ⟨hname, hvalue⟩ := phrase_slot h (List.mem_filter.1 hslot).1
    have howner : Phrase (c.name ++ "." ++ slot.name) :=
      ⟨(hclass.neutral.append (leads_ofList rfl)).append hname.neutral,
        (hclass.tidy.append (inline_ofList rfl)).append hname.tidy.inline⟩
    exact mirrors_slot howner hvalue
  · split
    · rename_i k hk
      obtain ⟨m, hm, hmk⟩ := List.mem_filterMap.1 (List.mem_of_find?_eq_some hk)
      cases m <;> cases hmk
      refine .block (tidy_ofList rfl) (leads_ofList rfl)
        (mirrors_body 1 (h.member hm) (h.className []) ?_ ?_)
      · intro e he
        simp only [Member.expressions, List.mem_append]
        exact .inr he
      · intro n hn
        simp only [Member.names, List.mem_append]
        exact .inr hn
    · exact .nil 0

/-- The sections of a class stand between its braces. -/
theorem mirrors_class (h : Printable c.expressions c.names) : Mirrors 0 (classLines c) 0 := by
  have hheader : Tidy (classHeader c) := by
    have hname := h.tidy c.name List.mem_cons_self
    have hclass := (tidy_ofList rfl : Tidy "class ").append hname.inline
    unfold classHeader
    split
    · rename_i base hbase
      have hmem : base ∈ c.names := by simp [ClassDecl.names, hbase]
      exact ((hclass.append (inline_ofList rfl : Inline " extends ")).append
        (h.tidy base hmem).inline).append (inline_ofList rfl)
    · exact hclass.append (inline_ofList rfl)
  have hblock := Mirrors.block hheader (leads_classHeader h.toEmittable)
    (.separated (mirrors_classSections 1 h))
  have hall := hblock.append (mirrors_static h)
  rw [List.append_assoc] at hall
  exact hall

end

/-! ### Programs -/

/-- What stands before the classes: the heading and the support code. -/
def preamble (options : Options) (unit : CompilationUnit) : String :=
  (if options.emitHeader then renderLines options.indentWidth (headerLines unit) else "")
    ++ supportText (.ofUnit unit)

/-- The lines after the support code: the classes, and the call of the entry point. -/
def sectionLines (options : Options) (unit : CompilationUnit) : List Line :=
  classesLines unit.classes ++ if options.invokeMain then entryLines unit else []

/-- All that stands after the support code. -/
def classSection (options : Options) (unit : CompilationUnit) : String :=
  renderLines options.indentWidth (sectionLines options unit)

/-- A program is its preamble and the section of its classes. -/
theorem program_eq_append (options : Options) (unit : CompilationUnit) :
    program options unit = preamble options unit ++ classSection options unit := by
  rw [classSection, sectionLines, renderLines_append, program, preamble, String.append_assoc]
  cases options.invokeMain <;> rfl

/-- The heading is not indented. -/
theorem preamble_width (options : Options) (unit : CompilationUnit) (width : Nat) :
    preamble { options with indentWidth := width } unit = preamble options unit := by
  have hheading : ∀ w, renderLines w (headerLines unit) = renderLines 0 (headerLines unit) := by
    intro w
    cases hname : unit.namespaceName <;>
      simp [headerLines, hname, renderLines, Line.render]
  simp only [preamble, hheading width, hheading options.indentWidth]

theorem mirrors_sectionLines {unit : CompilationUnit} (options : Options)
    (h : Printable unit.expressions unit.names) : Mirrors 0 (sectionLines options unit) 0 := by
  have hclass : ∀ c ∈ unit.classes, Printable c.expressions c.names := by
    intro c hc
    refine h.mono (fun e he => List.mem_flatMap.2 ⟨c, hc, he⟩) fun n hn => ?_
    exact List.mem_append_right _ (List.mem_flatMap.2 ⟨c, hc, hn⟩)
  have hclasses : Mirrors 0 (classesLines unit.classes) 0 :=
    .flatMap fun c hc => .blank (mirrors_class (hclass c hc))
  refine hclasses.append ?_
  split
  · unfold entryLines
    split
    · rename_i c hc
      have hname : Phrase c.name :=
        (hclass c (List.mem_of_find?_eq_some hc)).phrase List.mem_cons_self
      exact .blank (.code (hname.tidy.append (inline_ofList rfl))
        (neutralLines_code 0 (hname.neutral.append (leads_ofList rfl))))
    · exact .nil 0
  · exact .nil 0

/-- The names of a compiled unit are names of the language. -/
theorem printable_of_compile {source : String} {unit : CompilationUnit}
    (h : compile source = .ok unit) : Printable unit.expressions unit.names := by
  obtain ⟨tokens, s, htokens, hunit⟩ := compile_eq_ok_iff.1 h
  have hmade := (Parse.returns_compilationUnit
    (fun p s hs => Parse.wellRead_exprWithin s.budget p hs)
    (Parse.over_ofTokens htokens)).of_eq_ok hunit
  refine ⟨emittable_of_compile h, fun n hn => ?_⟩
  exact tidy_of_isDottedName (Parse.isDottedName_of_dotted (hmade.names n hn))

/-- The indentation of a script mirrors its braces. After the support code, every line that is
not empty begins with as many levels of blanks as braces are open before it, less the one that
it closes itself if its text begins with a closing brace. For another width the script is the
same up to there, and after it the same but for the blanks that its lines begin with. -/
theorem indentation_mirrors_braces {source : String} {unit : CompilationUnit}
    (h : compile source = .ok unit) (options : Options) :
    program options unit = preamble options unit ++ classSection options unit ∧
    (∀ before line after,
      Source.lines (classSection options unit).toList = before ++ line :: after →
      line ≠ ['\n'] →
      ∃ depth c rest, line = List.replicate (options.indentWidth * depth) ' ' ++ c :: rest ∧
        c ≠ ' ' ∧ c ≠ '\n' ∧ bareCount '{' before.flatten =
          bareCount '}' before.flatten + depth + if c = '}' then 1 else 0) ∧
    ∀ width, preamble { options with indentWidth := width } unit = preamble options unit ∧
      unindented (classSection { options with indentWidth := width } unit).toList =
        unindented (classSection options unit).toList := by
  have hmirrors := mirrors_sectionLines options (printable_of_compile h)
  refine ⟨program_eq_append options unit, ?_, fun width => ⟨preamble_width options unit width, ?_⟩⟩
  · intro before line after hlines hline
    exact hmirrors.indented hlines hline
  · exact (hmirrors.unindented_renderLines width).trans
      (hmirrors.unindented_renderLines options.indentWidth).symm

/-- A block inside of a method, after a string with a brace. -/
theorem indentation_mirrors_braces_block : ∃ unit before after,
    compile "class C \x7b string s = \"\x7b\"; void M() \x7b \x7b return; \x7d \x7d \x7d" =
      .ok unit ∧
    Source.lines (classSection ⟨2, true, false⟩ unit).toList =
      before ++ "      return;\n".toList :: after ∧
    ∃ depth c rest, "      return;\n".toList = List.replicate (2 * depth) ' ' ++ c :: rest ∧
      c ≠ ' ' ∧ c ≠ '\n' ∧ bareCount '{' before.flatten =
        bareCount '}' before.flatten + depth + if c = '}' then 1 else 0 := by
  let before : List String :=
    ["\n", "class C \x7b\n", "  s = \"\x7b\";\n", "\n", "  M() \x7b\n", "    \x7b\n"]
  let after : List String := ["    \x7d\n", "  \x7d\n", "\x7d\n"]
  have hlines : (match compile
        "class C \x7b string s = \"\x7b\"; void M() \x7b \x7b return; \x7d \x7d \x7d" with
      | .ok unit => Source.lines (classSection ⟨2, true, false⟩ unit).toList
      | .error _ => []) =
      before.map String.toList ++ "      return;\n".toList :: after.map String.toList := by
    decide +kernel
  cases hunit : compile
      "class C \x7b string s = \"\x7b\"; void M() \x7b \x7b return; \x7d \x7d \x7d" with
  | error e =>
    rw [hunit] at hlines
    cases hlines
  | ok unit =>
    rw [hunit] at hlines
    exact ⟨unit, _, _, rfl, hlines,
      (indentation_mirrors_braces hunit ⟨2, true, false⟩).2.1 _ _ _ hlines (by decide)⟩

end ClassScript.Script

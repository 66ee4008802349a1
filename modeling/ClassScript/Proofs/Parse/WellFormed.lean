import ClassScript.Proofs.Parse.Progress
import ClassScript.Script.Support

/-!
# The trees that the parser returns

The nodes of a parsed tree keep rules that their types do not say, and that the text
written for them relies on: only places are assigned to, an element type is made by the
node for elements and by no other, what is done to an element is done to one of three
forms, and a call of a form with a node of its own has that node (`Expr.WellFormed`).
The rules hold of every expression of every unit, whatever tokens it was read from.
-/

namespace ClassScript

/-! ### The rules -/

/-- What can be assigned to: a name, a member, be it named or computed, or a property of
an element. -/
inductive Expr.IsPlace : Expr → Prop
  | identifier (name : String) (span : Span) : IsPlace (.identifier name span)
  | member (object : Expr) (name : String) (nameSpan span : Span) :
      IsPlace (.member object name nameSpan span)
  | index (object key : Expr) (span : Span) : IsPlace (.index object key span)
  | domProperty (object : Expr) (property : String) (span : Span) :
      IsPlace (.domProperty object property span)

/-- What an element is known by: a name, a named member of `this`, or its creation. -/
inductive Expr.IsElementForm : Expr → Prop
  | identifier (name : String) (span : Span) : IsElementForm (.identifier name span)
  | member (inner : Span) (name : String) (nameSpan span : Span) :
      IsElementForm (.member (.this inner) name nameSpan span)
  | domCreate (element : String) (arguments : List Expr) (span : Span) :
      IsElementForm (.domCreate element arguments span)

/-- The name is listed as an element type. -/
def Dom.Listed (name : String) : Prop := ∃ tag, (name, tag) ∈ Dom.elements

/-- The bridge to the page has a class of that name: the line for it is one of its lines. -/
def Script.DomDefines (name : String) : Prop :=
  ∃ front back tag, Script.domSupport =
    front ++ Script.domElementLine (name, tag) ++ "\n" ++ back

/-- The host forms, `JS.Call` and `JS.Set`. -/
inductive Expr.IsHostForm : Expr → Prop
  | call (inner nameSpan span : Span) :
      IsHostForm (.member (.identifier "JS" inner) "Call" nameSpan span)
  | set (inner nameSpan span : Span) :
      IsHostForm (.member (.identifier "JS" inner) "Set" nameSpan span)

/-- What holds of every node of a tree that was read from `tokens`. -/
def Expr.WellFormed (tokens : List Token) : Expr → Prop
  | .member _ name _ _ => ∃ t ∈ tokens, t.kind = .identifier ∧ t.text = name
  | .assign _ target _ _ => target.IsPlace
  | .update _ operand _ => operand.IsPlace
  | .domCreate element _ _ => Dom.Listed element ∧ Script.DomDefines element
  | .create type _ _ =>
    ¬ (Dom.Listed type.name ∧ type.arguments = [] ∧ type.isArray = false ∧ type.nullable = false)
  | .domProperty object _ _ => object.IsElementForm
  | .domCall object _ _ _ => object.IsElementForm
  | .call callee _ _ =>
    (∀ object property span, callee ≠ .domProperty object property span) ∧ ¬ callee.IsHostForm
  | _ => True

/-! ### Element types -/

/-- The list of element types is what is looked up. -/
theorem Dom.listed_iff {name : String} : Dom.Listed name ↔ Dom.isElement name = true := by
  rw [Dom.isElement, Dom.tag?, List.lookup_isSome_iff]
  constructor
  · rintro ⟨tag, htag⟩
    exact ⟨_, htag, by simp⟩
  · rintro ⟨⟨name', tag⟩, hmem, hname⟩
    obtain rfl := eq_of_beq hname
    exact ⟨tag, hmem⟩

/-- A line is found among the lines of a text. -/
theorem Script.unlines_of_mem {line : String} {lines : List String} (h : line ∈ lines) :
    ∃ front back, Script.unlines lines = front ++ line ++ "\n" ++ back := by
  induction lines with
  | nil => cases h
  | cons first lines ih =>
    rcases List.mem_cons.1 h with rfl | h
    · exact ⟨"", Script.unlines lines, by simp [Script.unlines]⟩
    · obtain ⟨front, back, hlines⟩ := ih h
      exact ⟨first ++ "\n" ++ front, back, by simp [Script.unlines, hlines, String.append_assoc]⟩

/-- The bridge has a line for each element type. -/
theorem Script.domDefines_of_listed {name : String} (h : Dom.Listed name) :
    Script.DomDefines name := by
  obtain ⟨tag, htag⟩ := h
  have hline : Script.domElementLine (name, tag) ∈
      Script.domHeadLines ++ Dom.elements.map Script.domElementLine ++ Script.domTailLines :=
    List.mem_append_left _ (List.mem_append_right _ (List.mem_map_of_mem htag))
  obtain ⟨front, back, hlines⟩ := Script.unlines_of_mem hline
  exact ⟨front, back, tag, hlines⟩

/-! ### The rules are kept -/

namespace Parse

/-- What the parser lets pass as the left side of an assignment. -/
theorem isPlace_of_isAssignable {e : Expr} (h : e.isAssignable = true) : e.IsPlace := by
  cases e with
  | identifier name span => exact .identifier name span
  | member object name nameSpan span => exact .member object name nameSpan span
  | index object key span => exact .index object key span
  | domProperty object property span => exact .domProperty object property span
  | _ => cases h

/-- In every scope, only these forms are known to be elements. -/
theorem isElementForm_of_isDomValue {scope : Scope} {e : Expr} (h : scope.isDomValue e = true) :
    e.IsElementForm := by
  unfold Scope.isDomValue at h
  split at h
  · exact .identifier _ _
  · exact .member _ _ _ _
  · exact .domCreate _ _ _
  · cases h

theorem not_isHostForm_of_isPlainCallee {callee : Expr} (h : isPlainCallee callee = true) :
    (∀ object property span, callee ≠ .domProperty object property span) ∧
      ¬ callee.IsHostForm := by
  constructor
  · rintro object property span rfl
    cases h
  · intro hform
    cases hform <;> simp [isPlainCallee, hostMember?, hostObject] at h

/-- The type is not the bare name of an element type. -/
theorem not_plain_of_isPlainElement {type : TypeRef} (h : isPlainElement type = false) :
    ¬ (Dom.Listed type.name ∧ type.arguments = [] ∧ type.isArray = false ∧
      type.nullable = false) := by
  rintro ⟨hlisted, harguments, harray, hnullable⟩
  simp [isPlainElement, Dom.listed_iff.1 hlisted, harguments, harray, hnullable] at h

section

variable {tokens : List Token}

/-- An identifier that is read is one of the tokens. -/
def NameAmong (tokens : List Token) (t : Token) : Prop := t.kind = .identifier → t ∈ tokens

theorem wellFormed_of_single {t : Token} {e : Expr} (h : Single t e) :
    e.WellFormed tokens ∧ e.children = [] := by
  cases h <;> exact ⟨trivial, rfl⟩

/-- Where an expression begins, only a creation has a rule. -/
theorem wellFormed_of_begins {e : Expr}
    (h : Begins (NameAmong tokens) (Expr.All (Expr.WellFormed tokens)) e) :
    e.All (Expr.WellFormed tokens) := by
  rw [Expr.all_iff]
  cases h with
  | token _ he =>
    obtain ⟨hself, hchildren⟩ := wellFormed_of_single he
    exact ⟨hself, by simp [hchildren]⟩
  | prefixed op span he => exact ⟨trivial, by simpa [Expr.children] using he⟩
  | group he => exact Expr.all_iff.1 he
  | create span _ hplain harguments => exact ⟨not_plain_of_isPlainElement hplain, harguments⟩
  | domCreate span _ helement harguments =>
    have hlisted := Dom.listed_iff.2 helement
    exact ⟨⟨hlisted, Script.domDefines_of_listed hlisted⟩, harguments⟩

/-- The other rules are about what continues an expression. -/
theorem wellFormed_of_continues {S : State → Prop} {left e : Expr}
    (hleft : left.All (Expr.WellFormed tokens))
    (h : Continues (NameAmong tokens) S (Expr.All (Expr.WellFormed tokens)) left e) :
    e.All (Expr.WellFormed tokens) := by
  rw [Expr.all_iff]
  cases h with
  | binary op span hright => exact ⟨trivial, by simp [Expr.children, hleft, hright]⟩
  | assign op span htarget hright =>
    exact ⟨isPlace_of_isAssignable htarget, by simp [Expr.children, hleft, hright]⟩
  | update op span htarget =>
    exact ⟨isPlace_of_isAssignable htarget, by simp [Expr.children, hleft]⟩
  | call span hcallee harguments =>
    exact ⟨not_isHostForm_of_isPlainCallee hcallee, List.forall_mem_cons.2 ⟨hleft, harguments⟩⟩
  | hostCall span harguments => exact ⟨trivial, harguments⟩
  | hostSet span ho hp hv => exact ⟨trivial, by simp [Expr.children, ho, hp, hv]⟩
  | domCall span hdom harguments =>
    -- The object was checked when the property was read, whatever is in scope now.
    subst hdom
    obtain ⟨hobject, hbelow⟩ := Expr.all_iff.1 hleft
    exact ⟨hobject, List.forall_mem_cons.2 ⟨hbelow _ List.mem_cons_self, harguments⟩⟩
  | member nameSpan span hname _ =>
    obtain ⟨t, ht, hkind, htext⟩ := hname
    exact ⟨⟨t, ht hkind, hkind, htext⟩, by simp [Expr.children, hleft]⟩
  | domProperty span _ hscope =>
    obtain ⟨s, _, hdom⟩ := hscope
    exact ⟨isElementForm_of_isDomValue hdom, by simp [Expr.children, hleft]⟩
  | index span hkey => exact ⟨trivial, by simp [Expr.children, hleft, hkey]⟩

theorem wellFormed_expr (power : Power) (s : State) (hs : s.Over (NameAmong tokens)) :
    Outcome (fun e s' => e.All (Expr.WellFormed tokens) ∧ s'.Over (NameAmong tokens)) anyError
      (expr power s) := by
  have hrun := returns_exprWithin (A := fun _ => Expr.All (Expr.WellFormed tokens))
    (B := fun _ _ => Expr.All (Expr.WellFormed tokens)) (fun _ _ h => wellFormed_of_begins h)
    (fun _ _ _ _ _ hleft h => wellFormed_of_continues hleft h) (fun _ _ _ _ h => h) s.budget power
    hs.under
  exact hrun.mono fun e s' h => ⟨h.1, h.2.tokens⟩

/-- The end that is added to the tokens is no identifier. -/
theorem nameAmong_ofTokens (tokens : List Token) :
    (State.ofTokens tokens).Over (NameAmong tokens) := by
  intro t ht hkind
  rcases terminate_eq_or .none tokens with h | ⟨p, h⟩
  · exact h ▸ ht
  · -- The end of the input, which may have been added, is no name.
    have hmem : t ∈ tokens ++ [.endOfInput p] := h ▸ ht
    rcases List.mem_append.1 hmem with hmem | hmem
    · exact hmem
    · obtain rfl := List.mem_singleton.1 hmem
      cases hkind

end

end Parse

/-- Every node of every expression of a parsed unit is well formed, whatever the tokens are. -/
theorem wellFormed_of_parseTokens {tokens : List Token} {unit : CompilationUnit}
    (h : parseTokens tokens = .ok unit) :
    ∀ e ∈ unit.expressions, e.All (Expr.WellFormed tokens) := by
  unfold parseTokens at h
  split at h
  · rename_i u s hrun
    cases h
    have hreturns := Parse.returns_compilationUnit Parse.wellFormed_expr
      (Parse.nameAmong_ofTokens tokens)
    exact (hreturns.of_eq_ok hrun).expressions
  · cases h

/-- An element type is made with brackets and without, a method of an element is called across
parentheses, and a member of the host is called that is neither of the two forms. -/
theorem wellFormed_of_parseTokens_elements :
    ∃ tokens unit, tokenize
        ("class T { HTMLElement e; void M() { (this.e.Add)(new HTMLElement[](1)); } } "
          ++ "class U { HTMLElement e; void M() { e.Text += JS.Get(new HTMLElement()); } }") =
        .ok tokens ∧
      parseTokens tokens = .ok unit ∧ unit.expressions.length = 2 ∧
      ∀ e ∈ unit.expressions, e.All (Expr.WellFormed tokens) := by
  have hfound : ∃ tokens, tokenize
      ("class T { HTMLElement e; void M() { (this.e.Add)(new HTMLElement[](1)); } } "
        ++ "class U { HTMLElement e; void M() { e.Text += JS.Get(new HTMLElement()); } }") =
      .ok tokens ∧
      (parseTokens tokens).toOption.any (·.expressions.length = 2) = true :=
    exists_eq_ok (by decide +kernel)
  obtain ⟨tokens, htokens, hany⟩ := hfound
  obtain ⟨unit, hunit, hlength⟩ := exists_eq_ok hany
  exact ⟨tokens, unit, htokens, hunit, hlength, wellFormed_of_parseTokens hunit⟩

end ClassScript

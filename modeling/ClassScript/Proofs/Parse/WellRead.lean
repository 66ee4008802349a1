import ClassScript.Proofs.Number.ReadBack
import ClassScript.Proofs.Parse.Nodes
import ClassScript.Proofs.Parse.Reading

/-!
# What holds of every tree that was read

The texts in a tree come from tokens, and some shapes of trees are never built. A
node that was read from the tokens of a text is `WellRead`: its names are names of
the language, a number has no sign, only what is assignable is assigned to, and a
call is not one of the forms that have nodes of their own. `wellRead_exprWithin`
says that every node of a tree that the parser returns is of that kind.
-/

namespace ClassScript

/-- Names joined by points. -/
def IsDottedName (name : String) : Prop :=
  ∃ first others, name = Parse.joinNames first others ∧ ∀ n ∈ first :: others, IsName n

/-- What the parser makes sure of at a node. -/
def Expr.WellRead : Expr → Prop
  | .identifier name _ => IsName name
  | .literal (.number x) _ => x.negative = false
  | .update _ operand _ => operand.isAssignable = true
  | .assign _ target _ _ => target.isAssignable = true
  | .call callee _ _ => Parse.isPlainCallee callee = true
  | .member _ name _ _ => IsName name
  | .create type _ _ => IsDottedName type.name ∧ Parse.isPlainElement type = false
  | .domCreate element _ _ => IsDottedName element
  | .domProperty _ property _ => IsName property
  | .domCall _ method _ _ => IsName method
  | _ => True

namespace Parse

theorem isName_of_named {name : String} (h : Named Token.IsLexeme name) : IsName name := by
  obtain ⟨t, ht, hkind, rfl⟩ := h
  exact ht.word hkind

/-- Texts of identifiers are names. -/
theorem isDottedName_of_dotted {name : String} (h : Dotted Token.IsLexeme name) :
    IsDottedName name := by
  induction h with
  | single h => exact ⟨_, [], rfl, by simpa using isName_of_named h⟩
  | @point front name _ hname ih =>
    obtain ⟨first, others, rfl, hnames⟩ := ih
    refine ⟨first, others ++ [name], ?_, ?_⟩
    · rw [joinNames, joinNames, List.foldl_append]
      rfl
    · intro n hn
      rw [← List.cons_append, List.mem_append, List.mem_singleton] at hn
      rcases hn with hn | rfl
      · exact hnames n hn
      · exact isName_of_named hname

/-- A number whose text begins with a digit has no sign. -/
theorem negative_of_ofText? {text : String} {x : Binary64} {d : Char} {ds : List Char}
    (htext : text.toList = d :: ds) (hd : d.isDigit = true) (hx : Binary64.ofText? text = some x) :
    x.negative = false := by
  rw [Binary64.ofText?_of_isDigit htext hd] at hx
  simp only [Binary64.readFinite?] at hx
  split at hx
  · cases hx
  · obtain ⟨exponent, -, rfl⟩ := Option.map_eq_some_iff.1 hx
    rfl

/-- A number has no sign, and an identifier is a name. -/
theorem wellRead_of_single {t : Token} {e : Expr} (ht : t.IsLexeme) (he : Single t e) :
    e.WellRead ∧ e.children = [] := by
  cases he with
  | number hkind hx =>
    obtain ⟨d, ds, htext, hd⟩ := ht.number hkind
    exact ⟨negative_of_ofText? htext hd hx, rfl⟩
  | identifier hkind => exact ⟨ht.word hkind, rfl⟩
  | string | boolean | null | this | base => exact ⟨trivial, rfl⟩

variable {A : Expr → Prop} {left e : Expr}

/-- The ways to begin an expression. -/
theorem wellRead_begins (h : Begins Token.IsLexeme (Expr.All Expr.WellRead) e) :
    e.All Expr.WellRead := by
  rw [Expr.all_iff]
  cases h with
  | token ht he =>
    obtain ⟨hread, hchildren⟩ := wellRead_of_single ht he
    exact ⟨hread, by simp [hchildren]⟩
  | prefixed op span he => exact ⟨trivial, by simpa [Expr.children] using he⟩
  | group he => exact Expr.all_iff.1 he
  | create span hname hplain harguments =>
    exact ⟨⟨isDottedName_of_dotted hname, hplain⟩, harguments⟩
  | domCreate span hname _ harguments => exact ⟨isDottedName_of_dotted hname, harguments⟩

/-- The ways to continue one. The parser checks what is assigned to and what is called. -/
theorem wellRead_continues {S : State → Prop} (hleft : left.All Expr.WellRead)
    (h : Continues Token.IsLexeme S (Expr.All Expr.WellRead) left e) : e.All Expr.WellRead := by
  rw [Expr.all_iff]
  cases h with
  | binary op span hright => exact ⟨trivial, by simp [Expr.children, hleft, hright]⟩
  | assign op span htarget hright => exact ⟨htarget, by simp [Expr.children, hleft, hright]⟩
  | update op span htarget => exact ⟨htarget, by simp [Expr.children, hleft]⟩
  | call span hcallee harguments =>
    exact ⟨hcallee, List.forall_mem_cons.2 ⟨hleft, harguments⟩⟩
  | hostCall span harguments => exact ⟨trivial, harguments⟩
  | hostSet span ho hp hv => exact ⟨trivial, by simp [Expr.children, ho, hp, hv]⟩
  | domCall span hdom harguments =>
    -- The property that is called is taken apart, and its name and its object are kept.
    subst hdom
    obtain ⟨hproperty, hobject⟩ := Expr.all_iff.1 hleft
    exact ⟨hproperty, List.forall_mem_cons.2 ⟨hobject _ List.mem_cons_self, harguments⟩⟩
  | member nameSpan span hname _ =>
    exact ⟨isName_of_named hname, by simp [Expr.children, hleft]⟩
  | domProperty span hname _ =>
    exact ⟨isName_of_named hname, by simp [Expr.children, hleft]⟩
  | index span hkey => exact ⟨trivial, by simp [Expr.children, hleft, hkey]⟩

/-- Every node of a tree that the parser returns is well read. -/
theorem wellRead_exprWithin (budget : Nat) (power : Power) {s : State}
    (hs : s.Over Token.IsLexeme) :
    Outcome (fun e s' => e.All Expr.WellRead ∧ s'.Over Token.IsLexeme) anyError
      (exprWithin budget power s) :=
  Outcome.mono
    (returns_exprWithin (A := fun _ => Expr.All Expr.WellRead)
      (B := fun _ _ => Expr.All Expr.WellRead) (fun _ _ h => wellRead_begins h)
      (fun _ _ _ _ _ hleft h => wellRead_continues hleft h) (fun _ _ _ _ h => h) budget power
      hs.under)
    fun _ _ h => ⟨h.1, h.2.tokens⟩

/-- The tokens of a text, with an end of the input after them, are lexemes. -/
theorem over_ofTokens {source : String} {tokens : List Token} (h : tokenize source = .ok tokens) :
    (State.ofTokens tokens).Over Token.IsLexeme := by
  have hall : ∀ (p : Position) (ts : List Token), (∀ t ∈ ts, t.IsLexeme) →
      ∀ t ∈ (State.terminate p ts).1 :: (State.terminate p ts).2, t.IsLexeme := by
    intro p ts hts
    induction ts generalizing p with
    | nil =>
      intro t ht
      obtain rfl : t = .endOfInput p := List.mem_singleton.1 ht
      exact isLexeme_endOfInput p
    | cons t ts ih =>
      obtain ⟨ht, hts⟩ := List.forall_mem_cons.1 hts
      unfold State.terminate
      split
      · simpa using ht
      · exact List.forall_mem_cons.2 ⟨ht, ih t.span.stop hts⟩
  exact hall .none tokens (isLexeme_of_tokenize h)

end Parse

end ClassScript

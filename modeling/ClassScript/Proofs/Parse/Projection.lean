import ClassScript.Proofs.Json.Text
import ClassScript.Proofs.Parse.Declarations
import ClassScript.Proofs.Parse.WellRead
import ClassScript.Proofs.Tree.Faithful

/-!
# Compiled units and their projections

Different units that were compiled have different projections, and the texts of the projections
are different too (`eq_of_toJson_eq`). That the projection is faithful is proved for trees whose
numbers are ones that source text can denote; here it is shown that those of a compiled unit are.
-/

namespace ClassScript

/-- No number that is read is larger than infinity. -/
theorem Binary64.rank_ofDecimal_le (negative : Bool) (digits : Nat) (exponent : Int) :
    (ofDecimal negative digits exponent).rank ≤ infiniteRank := by
  unfold ofDecimal
  dsimp only
  split
  · exact Nat.zero_le _
  · split
    · exact Nat.le_refl _
    · split
      · exact Nat.min_le_left _ _
      · exact Nat.min_le_left _ _

/-- A number whose text begins with a digit is a number, and maybe infinite. -/
theorem Binary64.rank_le_of_ofText? {text : String} {x : Binary64} {d : Char} {ds : List Char}
    (htext : text.toList = d :: ds) (hd : d.isDigit = true) (hx : ofText? text = some x) :
    x.rank ≤ infiniteRank := by
  rw [ofText?_of_isDigit htext hd] at hx
  simp only [readFinite?] at hx
  split at hx
  · cases hx
  · obtain ⟨exponent, -, rfl⟩ := Option.map_eq_some_iff.1 hx
    exact rank_ofDecimal_le _ _ _

namespace Parse

/-- The number of a literal was read from its token. -/
theorem isDenoted_of_single {t : Token} {e : Expr} (ht : t.IsLexeme) (he : Single t e) :
    e.IsDenoted ∧ e.children = [] := by
  obtain ⟨hread, hchildren⟩ := wellRead_of_single ht he
  refine ⟨?_, hchildren⟩
  cases he with
  | number hkind hx =>
    obtain ⟨d, ds, htext, hd⟩ := ht.number hkind
    exact ⟨hread, Binary64.rank_le_of_ofText? htext hd hx⟩
  | string | boolean | null | identifier | this | base => exact trivial

variable {left e : Expr}

/-- Where an expression begins, a number comes from one token only. -/
theorem isDenoted_begins (h : Begins Token.IsLexeme (Expr.All Expr.IsDenoted) e) :
    e.All Expr.IsDenoted := by
  rw [Expr.all_iff]
  cases h with
  | token ht he =>
    obtain ⟨hdenoted, hchildren⟩ := isDenoted_of_single ht he
    exact ⟨hdenoted, by simp [hchildren]⟩
  | prefixed op span he => exact ⟨trivial, by simpa [Expr.children] using he⟩
  | group he => exact Expr.all_iff.1 he
  | create span _ _ harguments => exact ⟨trivial, harguments⟩
  | domCreate span _ _ harguments => exact ⟨trivial, harguments⟩

/-- What continues an expression adds no number of its own. -/
theorem isDenoted_continues {S : State → Prop} (hleft : left.All Expr.IsDenoted)
    (h : Continues Token.IsLexeme S (Expr.All Expr.IsDenoted) left e) :
    e.All Expr.IsDenoted := by
  rw [Expr.all_iff]
  cases h with
  | binary op span hright => exact ⟨trivial, by simp [Expr.children, hleft, hright]⟩
  | assign op span _ hright => exact ⟨trivial, by simp [Expr.children, hleft, hright]⟩
  | update op span _ => exact ⟨trivial, by simp [Expr.children, hleft]⟩
  | call span _ harguments => exact ⟨trivial, List.forall_mem_cons.2 ⟨hleft, harguments⟩⟩
  | hostCall span harguments => exact ⟨trivial, harguments⟩
  | hostSet span ho hp hv => exact ⟨trivial, by simp [Expr.children, ho, hp, hv]⟩
  | domCall span hdom harguments =>
    -- The property that is called is taken apart, and its object is kept.
    subst hdom
    obtain ⟨-, hobject⟩ := Expr.all_iff.1 hleft
    exact ⟨trivial, List.forall_mem_cons.2 ⟨hobject _ List.mem_cons_self, harguments⟩⟩
  | member nameSpan span _ _ => exact ⟨trivial, by simp [Expr.children, hleft]⟩
  | domProperty span _ _ => exact ⟨trivial, by simp [Expr.children, hleft]⟩
  | index span hkey => exact ⟨trivial, by simp [Expr.children, hleft, hkey]⟩

theorem isDenoted_exprWithin (budget : Nat) (power : Power) {s : State}
    (hs : s.Over Token.IsLexeme) :
    Outcome (fun e s' => e.All Expr.IsDenoted ∧ s'.Over Token.IsLexeme) anyError
      (exprWithin budget power s) :=
  Outcome.mono
    (returns_exprWithin (A := fun _ => Expr.All Expr.IsDenoted)
      (B := fun _ _ => Expr.All Expr.IsDenoted) (fun _ _ h => isDenoted_begins h)
      (fun _ _ _ _ _ hleft h => isDenoted_continues hleft h) (fun _ _ _ _ h => h) budget power
      hs.under)
    fun _ _ h => ⟨h.1, h.2.tokens⟩

end Parse

/-- All numbers of a compiled unit were read from its source. -/
theorem allDenoted_of_compile {source : String} {unit : CompilationUnit}
    (h : compile source = .ok unit) : Expr.AllDenoted unit.expressions := by
  obtain ⟨tokens, s, htokens, hunit⟩ := compile_eq_ok_iff.1 h
  have hmade := (Parse.returns_compilationUnit
    (fun p s hs => Parse.isDenoted_exprWithin s.budget p hs)
    (Parse.over_ofTokens htokens)).of_eq_ok hunit
  exact hmade.expressions

/-- The projection to JSON is faithful. Two units that were compiled are the same if their
projections are, even if the order of fields does not count and an infinite number counts as
null; and they are the same if the texts of their projections are. -/
theorem eq_of_toJson_eq {source source' : String} {unit unit' : CompilationUnit}
    (h : compile source = .ok unit) (h' : compile source' = .ok unit') :
    (unit.toJson.canonical = unit'.toJson.canonical → unit = unit') ∧
    ∀ level, unit.toJson.pretty level = unit'.toJson.pretty level → unit = unit' := by
  have hvalues : unit.toJson.canonical = unit'.toJson.canonical → unit = unit' :=
    faithful_unit unit (allDenoted_of_compile h) unit' (allDenoted_of_compile h')
  refine ⟨hvalues, ?_⟩
  intro level htext
  exact hvalues (Json.canonical_eq_of_pretty_eq htext)

/-- Only the form of one expression differs between the two, and not its place. -/
theorem eq_of_toJson_eq_initializer :
    ∃ unit unit', compile "class C { object x = null; }" = .ok unit ∧
      compile "class C { object x = this; }" = .ok unit' ∧
      unit.toJson.canonical ≠ unit'.toJson.canonical ∧
      unit.toJson.pretty 0 ≠ unit'.toJson.pretty 0 := by
  obtain ⟨unit, h, hform⟩ : ∃ unit, compile "class C { object x = null; }" = .ok unit ∧
      unit.expressions.map Expr.formName = ["Literal"] := exists_eq_ok (by decide +kernel)
  obtain ⟨unit', h', hform'⟩ : ∃ unit', compile "class C { object x = this; }" = .ok unit' ∧
      unit'.expressions.map Expr.formName = ["This"] := exists_eq_ok (by decide +kernel)
  have hne : unit ≠ unit' := by
    intro heq
    rw [heq, hform'] at hform
    exact absurd hform (by decide)
  obtain ⟨hvalues, htexts⟩ := eq_of_toJson_eq h h'
  exact ⟨unit, unit', h, h', fun heq => hne (hvalues heq), fun heq => hne (htexts 0 heq)⟩

end ClassScript

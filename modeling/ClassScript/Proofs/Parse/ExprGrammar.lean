import ClassScript.Proofs.Parse.TakesAfter
import ClassScript.Proofs.Script.Spelling

/-!
# The grammar of expressions

`Spells e w` says that the tokens `w` spell the tree `e`, in their order and with nothing
left over: names and literals by their tokens, operators between their operands, and the
forms that the parser recognises by shape as what they are written like. An element's
property is spelled as a member, a call on an element as a call of such a property, and a
host form as a call of the host object's member. Beyond the tree there are parentheses
around an expression, a comma after the last argument, and suffixes of a type that are
repeated or change places. The grammar knows no precedence.

A node's span is part of the relation. It runs from a token of the spelling to another one,
which the constructors name.

The parser reads spellings only (`spells_expr`). What continues an expression `left` reads
what is missing after any spelling of it (`Extends`), so the forms that take `left` apart,
such as a call of an element's property, need not know how it was spelled.
-/

namespace ClassScript.Parse

variable {α : Type}

/-! ### Lists -/

/-- Values with the tokens of each, at least one, and commas between them. -/
inductive Series : List (α × List Token) → List α → List Token → Prop
  | one {a : α} {w : List Token} : Series [(a, w)] [a] w
  | more {parts : List (α × List Token)} {a : α} {as : List α} {w v : List Token} {c : Token} :
      c.kind = .comma → Series parts as v → Series ((a, w) :: parts) (a :: as) (w ++ c :: v)

/-- Values with the tokens of each, and commas between them. If nothing follows the last
comma, it stands after the last value. -/
inductive Items : List (α × List Token) → List α → List Token → Prop
  | nil : Items [] [] []
  | last {a : α} {w : List Token} : Items [(a, w)] [a] w
  | more {parts : List (α × List Token)} {a : α} {as : List α} {w v : List Token} {c : Token} :
      c.kind = .comma → Items parts as v → Items ((a, w) :: parts) (a :: as) (w ++ c :: v)

/-- Nothing, or values in angle brackets. -/
inductive Angles : List (α × List Token) → List α → List Token → Prop
  | none : Angles [] [] []
  | some {parts : List (α × List Token)} {as : List α} {v : List Token} {o c : Token} :
      o.kind = .less → Series parts as v → c.kind = .greater → Angles parts as (o :: (v ++ [c]))

/-- Values in parentheses. -/
inductive Parens : List (α × List Token) → List α → List Token → Prop
  | mk {parts : List (α × List Token)} {as : List α} {v : List Token} {o c : Token} :
      o.kind = .openParen → Items parts as v → c.kind = .closeParen →
      Parens parts as (o :: (v ++ [c]))

/-- Parentheses are there, also around nothing. -/
theorem Parens.exists_stop {parts : List (α × List Token)} {as : List α} {w : List Token}
    (h : Parens parts as w) : ∃ stop, stopOf? w = some stop := by
  cases h with
  | mk => exact ⟨_, stopOf?_cons_concat _ _ _⟩

/-! ### The grammar -/

/-- How a type is laid out: its name, its arguments and its suffixes. -/
structure TypeLayout (type : TypeRef) (parts : List (TypeRef × List Token))
    (d a v : List Token) : Prop where
  name : NameTokens type.name d
  arguments : Angles parts type.arguments a
  suffixes : Suffixes v
  nullable : type.nullable = true ↔ ∃ t ∈ v, t.kind = .question
  isArray : type.isArray = true ↔ ∃ t ∈ v, t.kind = .openBracket
  start : startOf? d = some type.span.start
  stop : stopOf? (d ++ a ++ v) = some type.span.stop

/-- The tokens spell the type. -/
inductive TypeSpells : TypeRef → List Token → Prop
  | mk {type : TypeRef} {parts : List (TypeRef × List Token)} {d a v : List Token} :
      TypeLayout type parts d a v → (∀ p ∈ parts, TypeSpells p.1 p.2) →
      TypeSpells type (d ++ a ++ v)

/-- The tokens spell the expression. -/
inductive Spells : Expr → List Token → Prop
  | identifier {t : Token} : t.kind = .identifier → Spells (.identifier t.text t.span) [t]
  | number {t : Token} {value : Binary64} : t.kind = .number →
      Binary64.ofText? t.text = some value → Spells (.literal (.number value) t.span) [t]
  | string {t : Token} {value : String} : t.kind = .string ∨ t.kind = .char →
      Escape.literalValue? t.text = some value → Spells (.literal (.string value) t.span) [t]
  | boolean {t : Token} {value : Bool} : t.kind = (if value then .kwTrue else .kwFalse) →
      Spells (.literal (.boolean value) t.span) [t]
  | null {t : Token} : t.kind = .kwNull → Spells (.literal .null t.span) [t]
  | this {t : Token} : t.kind = .kwThis → Spells (.this t.span) [t]
  | base {t : Token} : t.kind = .kwBase → Spells (.base t.span) [t]
  /-- Parentheses leave no trace. -/
  | group {o c : Token} {w : List Token} {e : Expr} : o.kind = .openParen → Spells e w →
      c.kind = .closeParen → Spells e (o :: (w ++ [c]))
  | unary {m : Token} {w : List Token} {op : UnaryOp} {e : Expr} : m.kind = op.kind →
      Spells e w → Spells (.unary op e ⟨m.span.start, e.span.stop⟩) (m :: w)
  | binary {m : Token} {u v : List Token} {op : BinaryOp} {left right : Expr} :
      Spells left u → m.kind = op.kind → Spells right v →
      Spells (.binary op left right ⟨left.span.start, right.span.stop⟩) (u ++ m :: v)
  | update {m : Token} {u : List Token} {op : UpdateOp} {left : Expr} :
      Spells left u → m.kind = op.kind →
      Spells (.update op left ⟨left.span.start, m.span.stop⟩) (u ++ [m])
  | assign {m : Token} {u v : List Token} {op : AssignOp} {left right : Expr} :
      Spells left u → m.kind = op.kind → Spells right v →
      Spells (.assign op left right ⟨left.span.start, right.span.stop⟩) (u ++ m :: v)
  | call {u v : List Token} {parts : List (Expr × List Token)} {left : Expr}
      {arguments : List Expr} {stop : Position} :
      Spells left u → (∀ p ∈ parts, Spells p.1 p.2) → Parens parts arguments v →
      stopOf? v = some stop → Spells (.call left arguments ⟨left.span.start, stop⟩) (u ++ v)
  | member {d n : Token} {u : List Token} {left : Expr} :
      Spells left u → d.kind = .dot → n.kind = .identifier →
      Spells (.member left n.text n.span ⟨left.span.start, n.span.stop⟩) (u ++ [d, n])
  | index {o c : Token} {u v : List Token} {left key : Expr} :
      Spells left u → o.kind = .openBracket → Spells key v → c.kind = .closeBracket →
      Spells (.index left key ⟨left.span.start, c.span.stop⟩) (u ++ o :: (v ++ [c]))
  | create {n : Token} {u v : List Token} {parts : List (Expr × List Token)} {type : TypeRef}
      {arguments : List Expr} {stop : Position} :
      n.kind = .kwNew → TypeSpells type u → (∀ p ∈ parts, Spells p.1 p.2) →
      Parens parts arguments v → stopOf? v = some stop →
      Spells (.create type arguments ⟨n.span.start, stop⟩) (n :: (u ++ v))
  /-- An element is written like any new object, by the bare name of its type. -/
  | domCreate {n : Token} {u v : List Token} {parts : List (Expr × List Token)} {name : String}
      {arguments : List Expr} {stop : Position} :
      n.kind = .kwNew → NameTokens name u → (∀ p ∈ parts, Spells p.1 p.2) →
      Parens parts arguments v → stopOf? v = some stop →
      Spells (.domCreate name arguments ⟨n.span.start, stop⟩) (n :: (u ++ v))
  /-- An element's property is written like any member. -/
  | domProperty {d n : Token} {u : List Token} {left : Expr} :
      Spells left u → d.kind = .dot → n.kind = .identifier →
      Spells (.domProperty left n.text ⟨left.span.start, n.span.stop⟩) (u ++ [d, n])
  /-- A call on an element is written like a call of its property, which may stand in
  parentheses. -/
  | domCall {u v : List Token} {parts : List (Expr × List Token)} {object : Expr}
      {name : String} {span : Span} {arguments : List Expr} {stop : Position} :
      Spells (.domProperty object name span) u → (∀ p ∈ parts, Spells p.1 p.2) →
      Parens parts arguments v → stopOf? v = some stop →
      Spells (.domCall object name arguments ⟨span.start, stop⟩) (u ++ v)
  /-- The path is the first argument of a call of the host object's member `Call`. -/
  | hostCall {u v : List Token} {parts : List (Expr × List Token)} {path : String}
      {span span₁ span₂ span₃ : Span} {arguments : List Expr} {stop : Position} :
      Spells (.member (.identifier hostObject span₁) "Call" span₂ span) u →
      (∀ p ∈ parts, Spells p.1 p.2) →
      Parens parts (.literal (.string path) span₃ :: arguments) v → stopOf? v = some stop →
      Spells (.hostCall path arguments ⟨span.start, stop⟩) (u ++ v)
  /-- The three parts are the arguments of a call of the host object's member `Set`. -/
  | hostSet {u v : List Token} {parts : List (Expr × List Token)} {object property value : Expr}
      {span span₁ span₂ : Span} {stop : Position} :
      Spells (.member (.identifier hostObject span₁) "Set" span₂ span) u →
      (∀ p ∈ parts, Spells p.1 p.2) → Parens parts [object, property, value] v →
      stopOf? v = some stop →
      Spells (.hostSet object property value ⟨span.start, stop⟩) (u ++ v)

/-- The tokens are what is missing of a spelling of `e` after one of `left`. -/
def Extends (left e : Expr) (v : List Token) : Prop := ∀ u, Spells left u → Spells e (u ++ v)

theorem Extends.refl (e : Expr) : Extends e e [] := by
  intro u hu
  rwa [List.append_nil]

/-- What continues an expression can be continued itself. -/
theorem Extends.trans {left e e' : Expr} {v v' : List Token} (h : Extends left e v)
    (h' : Extends e e' v') : Extends left e' (v ++ v') := by
  intro u hu
  rw [← List.append_assoc]
  exact h' _ (h u hu)

/-! ### Reading lists -/

section

variable {K : Kind → Prop} {P : α → List Token → Prop} {item : Parse α}

/-- The parts of a list, each of them taken by the parser of its items. -/
def Parts (P : α → List Token → Prop) (L : List (α × List Token) → List α → List Token → Prop)
    (as : List α) (w : List Token) : Prop :=
  ∃ parts, (∀ p ∈ parts, P p.1 p.2) ∧ L parts as w

theorem Parts.nil : Parts P Items [] [] := ⟨[], by simp, .nil⟩

theorem Parts.last {a : α} {w : List Token} (h : P a w) : Parts P Items [a] w :=
  ⟨[(a, w)], by simpa using h, .last⟩

theorem Parts.more {a : α} {as : List α} {w v : List Token} {c : Token} (h : P a w)
    (hc : c.kind = .comma) (hrest : Parts P Items as v) :
    Parts P Items (a :: as) (w ++ c :: v) := by
  obtain ⟨parts, hparts, hitems⟩ := hrest
  exact ⟨(a, w) :: parts, List.forall_mem_cons.2 ⟨h, hparts⟩, .more hc hitems⟩

/-- A list in parentheses may end with a comma. -/
theorem takes_items {stop : Kind} (h : ∀ {K : Kind → Prop}, Takes K P item) :
    Takes K (Parts P Items) (commaList stop item) := by
  intro s hs hK
  clear hK
  have hnext {t : State} (ht : t.Ended) (hcomma : t.kind = .comma) :
      t.tokens = t.current :: t.next.tokens := by
    have hadvance := Takes.advance (K := (· = .comma)) (by rintro _ rfl; decide) t ht hcomma
    obtain ⟨w, hw, rfl, -⟩ := hadvance
    exact hw
  have htaken {s t : State} {a : α} (hs : s.Ended) (hitem : item s = .ok a t) :=
    (h (K := fun _ => True) s hs trivial).of_eq_ok hitem
  fun_induction commaList stop item s with
  | case1 => exact ⟨[], rfl, .nil⟩
  | case2 | case3 => trivial
  | case4 s hstop a t hitem hcomma hlt as u hrest ih =>
    obtain ⟨w, hw, ha⟩ := htaken hs hitem
    obtain ⟨v, hv, has⟩ := (ih (hs.of_append hw).next).of_eq_ok hrest
    refine ⟨w ++ t.current :: v, ?_, .more ha hcomma has⟩
    rw [hw, hnext (hs.of_append hw) hcomma, hv, List.append_assoc, List.cons_append]
  | case5 s hstop a t hitem hcomma hlt =>
    obtain ⟨w, hw, ha⟩ := htaken hs hitem
    refine ⟨w ++ [t.current], ?_, .more ha hcomma .nil⟩
    rw [hw, hnext (hs.of_append hw) hcomma, List.append_assoc, List.singleton_append]
  | case6 s hstop a t hitem hcomma =>
    obtain ⟨w, hw, ha⟩ := htaken hs hitem
    exact ⟨w, hw, .last ha⟩

theorem series_of_each {a : α} {as : List α} {w ws : List Token} (ha : P a w)
    (h : Each (fun a w => ∃ c v, w = c :: v ∧ c.kind = .comma ∧ P a v) as ws) :
    Parts P Series (a :: as) (w ++ ws) := by
  induction h generalizing a w with
  | nil => exact ⟨[(a, w)], by simpa using ha, by simpa using Series.one⟩
  | cons hb _ ih =>
    obtain ⟨c, v, rfl, hc, hb⟩ := hb
    obtain ⟨parts, hparts, hseries⟩ := ih hb
    exact ⟨(a, w) :: parts, List.forall_mem_cons.2 ⟨ha, hparts⟩, .more hc hseries⟩

/-- A list in angle brackets may not. -/
theorem takes_series (h : ∀ {K : Kind → Prop}, Takes K P item) :
    Takes K (Parts P Series) (commaSeparated item) := by
  have hother : Takes (fun c => decide (c = .comma) = true)
      (fun a w => ∃ c v, w = c :: v ∧ c.kind = .comma ∧ P a v) (advance >>= fun _ => item) := by
    refine (Takes.advance (by simp)).bind fun c w hc => h.mono fun a v ha => ?_
    obtain ⟨rfl, hc⟩ := hc
    exact ⟨c, v, rfl, by simpa using hc, ha⟩
  refine h.bind fun a w ha => (Takes.many (fun _ => rfl) hother).bind fun as ws has => .pure ?_
  rw [List.append_nil]
  exact series_of_each ha has

end

/-! ### Reading types -/

/-- A suffix, by its token or tokens and where it ends. -/
inductive SuffixSpells : TypeSuffix × Position → List Token → Prop
  | nullable {t : Token} : t.kind = .question → SuffixSpells (.nullable, t.span.stop) [t]
  | array {o c : Token} : o.kind = .openBracket → c.kind = .closeBracket →
      SuffixSpells (.array, c.span.stop) [o, c]

/-- A suffix is one token or two. -/
theorem spells_typeSuffix {K : Kind → Prop} : Takes K SuffixSpells typeSuffix := by
  refine .kind fun c => ?_
  split
  · rename_i hc
    refine (Takes.advance (by rintro _ rfl; simp [hc])).bind fun t w h => .pure ?_
    obtain ⟨rfl, ht⟩ := h
    exact .nullable (ht.trans hc)
  · refine (Takes.expect (by decide)).bind fun o w ho => ?_
    refine (Takes.expect (by decide)).bind fun c w hc => .pure ?_
    obtain ⟨rfl, ho⟩ := ho
    obtain ⟨rfl, hc⟩ := hc
    exact .array ho hc

theorem Suffixes.append {v u : List Token} (hv : Suffixes v) (hu : Suffixes u) :
    Suffixes (v ++ u) := by
  induction hv with
  | nil => exact hu
  | nullable ht _ ih => exact .nullable ht ih
  | array ho hc _ ih => exact .array ho hc ih

/-- Another suffix is recorded in the type, and moves its end. -/
theorem TypeLayout.withSuffix {type : TypeRef} {parts : List (TypeRef × List Token)}
    {d a v u : List Token} {x : TypeSuffix × Position} (h : TypeLayout type parts d a v)
    (hx : SuffixSpells x u) : TypeLayout (withSuffix type x) parts d a (v ++ u) := by
  obtain ⟨hname, harguments, hsuffixes, hnullable, hisArray, hstart, -⟩ := h
  cases hx with
  | nullable ht =>
    refine ⟨hname, harguments, hsuffixes.append (.nullable ht .nil), ?_, ?_, hstart, ?_⟩
    · simp [Parse.withSuffix, ht]
    · simp [Parse.withSuffix, ht, hisArray]
    · simp [← List.append_assoc, Parse.withSuffix]
  | @array o c ho hc =>
    refine ⟨hname, harguments, hsuffixes.append (.array ho hc .nil), ?_, ?_, hstart, ?_⟩
    · simp [Parse.withSuffix, hnullable, or_and_right, exists_or, ho, hc]
    · simp [Parse.withSuffix, or_and_right, exists_or, ho]
    · have hsplit : d ++ a ++ (v ++ [o, c]) = d ++ a ++ v ++ [o] ++ [c] := by simp
      rw [hsplit, stopOf?_concat]
      rfl

/-- Suffixes are laid out one after the other. -/
theorem TypeLayout.foldl_withSuffix {type : TypeRef} {parts : List (TypeRef × List Token)}
    {d a v u : List Token} {xs : List (TypeSuffix × Position)}
    (h : TypeLayout type parts d a v) (hxs : Each SuffixSpells xs u) :
    TypeLayout (xs.foldl Parse.withSuffix type) parts d a (v ++ u) := by
  induction hxs generalizing type v with
  | nil => simpa using h
  | cons hx _ ih =>
    rw [← List.append_assoc]
    exact ih (h.withSuffix hx)

theorem NameTokens.ne_nil {text : String} {d : List Token} (h : NameTokens text d) : d ≠ [] := by
  cases h
  simp

/-- A named type is laid out without suffixes. -/
theorem spells_namedTypeOf {K : Kind → Prop} {argument : Parse TypeRef}
    (h : ∀ {K : Kind → Prop}, Takes K TypeSpells argument) (hruns : Runs argument) :
    Takes K (fun type w => ∃ parts d a, w = d ++ a ∧ TypeLayout type parts d a [] ∧
        ∀ p ∈ parts, TypeSpells p.1 p.2) (namedTypeOf argument) := by
  refine .of_after (.position fun start => ?_)
  refine .bind (takes_dottedName _) (.of_rule fun hP => hP.dottedName _) fun name d hd => ?_
  have hlayout {parts : List (TypeRef × List Token)} {arguments : List TypeRef}
      {a : List Token} {stop : Position} (ha : Angles parts arguments a)
      (hstop : stopOf? (d ++ a) = some stop)
      (hstart : d ++ a ≠ [] → startOf? (d ++ a) = some start) :
      TypeLayout ⟨name, false, arguments, false, ⟨start, stop⟩⟩ parts d a [] := by
    refine ⟨hd, ha, .nil, by simp, by simp, ?_, by rwa [List.append_nil]⟩
    cases hd with
    | mk => exact hstart (by simp)
  refine .accept (by decide) (fun o ho => ?_) ?_
  · simp only [if_true, pure_bind]
    refine .bind (takes_series h) (.commaSeparated hruns) fun types ws htypes => ?_
    refine .expect (by decide) fun c hc => .spanFrom (stopOf?_concat _ _) (.pure fun hstart => ?_)
    obtain ⟨parts, hparts, hseries⟩ := htypes
    have hsplit : [] ++ d ++ [o] ++ ws ++ [c] = d ++ o :: (ws ++ [c]) := by simp
    rw [hsplit] at hstart ⊢
    refine ⟨parts, d, o :: (ws ++ [c]), rfl, hlayout (.some ho hseries hc) ?_ hstart, hparts⟩
    rw [← hsplit, stopOf?_concat]
  · simp only [Bool.false_eq_true, if_false, pure_bind]
    obtain ⟨stop, hstop⟩ := exists_stopOf? hd.ne_nil
    rw [← List.append_nil d] at hstop
    refine .spanFrom (by simpa using hstop) (.pure fun hstart => ?_)
    exact ⟨[], d, [], by simp, hlayout .none hstop (by simpa using hstart), by simp⟩

/-- By induction on the levels that are left. -/
theorem spells_typeWithin {K : Kind → Prop} (n : Nat) (power : Power) :
    Takes K TypeSpells (typeWithin n power) := by
  induction n generalizing K power with
  | zero => exact .tooDeep
  | succ n ih =>
    have hsuffix : Takes (fun c => ((c = .question || c = .openBracket) && power < .call) = true)
        SuffixSpells typeSuffix := spells_typeSuffix
    unfold typeWithin
    refine .after .deepen fun _ => .kind fun c => ?_
    simp only [Parallel.fail_bind]
    split
    · exact .fail _
    · refine (spells_namedTypeOf (ih .default) (runs_typeWithin n .default)).bind
        fun type w htype => ?_
      obtain ⟨parts, d, a, rfl, hlayout, hparts⟩ := htype
      refine (Takes.many (fun _ => rfl) hsuffix).bind fun xs v hxs => ?_
      refine (Takes.surface 1).bind fun _ w hw => .pure ?_
      subst hw
      have hlayout := hlayout.foldl_withSuffix hxs
      rw [List.nil_append] at hlayout
      simpa using TypeSpells.mk hlayout hparts

theorem spells_typeRef {K : Kind → Prop} (power : Power) : Takes K TypeSpells (typeRef power) :=
  fun s => spells_typeWithin s.budget power s

/-- A type that is the bare name of an element type is spelled by that name. -/
theorem TypeSpells.nameTokens {type : TypeRef} {w : List Token} (h : TypeSpells type w)
    (hplain : isPlainElement type = true) : NameTokens type.name w := by
  obtain ⟨hlayout, -⟩ := h
  simp only [isPlainElement, Bool.and_eq_true, Bool.not_eq_true', List.isEmpty_iff] at hplain
  obtain ⟨⟨⟨-, harguments⟩, hisArray⟩, hnullable⟩ := hplain
  obtain ⟨hname, hangles, hsuffixes, hnullable', hisArray', -, -⟩ := hlayout
  rw [hnullable] at hnullable'
  rw [hisArray] at hisArray'
  rw [harguments] at hangles
  -- There is no question mark and no bracket, so there is no suffix.
  cases hsuffixes with
  | nullable ht => exact absurd (hnullable'.2 ⟨_, List.mem_cons_self, ht⟩) (by simp)
  | array ho => exact absurd (hisArray'.2 ⟨_, List.mem_cons_self, ho⟩) (by simp)
  | nil =>
    cases hangles with
    | none => simpa using hname
    | some _ hseries => cases hseries

/-! ### Reading what begins an expression -/

/-- An expression of one token is spelled by it. -/
theorem spells_of_single {t : Token} {e : Expr} (h : Single t e) : Spells e [t] := by
  cases h with
  | number hkind hvalue => exact .number hkind hvalue
  | string hkind hvalue => exact .string hkind hvalue
  | boolean hkind => exact .boolean hkind
  | null hkind => exact .null hkind
  | identifier hkind => exact .identifier hkind
  | this hkind => exact .this hkind
  | base hkind => exact .base hkind

theorem spells_primary {K : Kind → Prop} : Takes K Spells primary := by
  refine takes_single.mono fun e w h => ?_
  obtain ⟨t, rfl, hsingle⟩ := h
  exact spells_of_single hsingle

section

variable {K : Kind → Prop} {operand : Operand}
  (h : ∀ (power : Power) {K : Kind → Prop}, Takes K Spells (operand power))

include h

/-- Parentheses leave no trace in the tree. -/
theorem spells_grouping : Takes K Spells (grouping operand) := by
  refine (Takes.expect (by decide)).bind fun o _ ho => (h .default).bind fun e w he => ?_
  refine (Takes.expect (by decide)).bind fun c _ hc => .pure ?_
  obtain ⟨rfl, ho⟩ := ho
  obtain ⟨rfl, hc⟩ := hc
  simpa using Spells.group ho he hc

/-- Arguments are spelled by their expressions in parentheses. -/
theorem spells_arguments : Takes K (Parts Spells Parens) (arguments operand) := by
  refine (Takes.expect (by decide)).bind fun o _ ho => ?_
  refine (takes_items (h .default)).bind fun es w hes => ?_
  refine (Takes.expectDescribed _ (by decide)).bind fun c _ hc => .pure ?_
  obtain ⟨rfl, ho⟩ := ho
  obtain ⟨rfl, hc⟩ := hc
  obtain ⟨parts, hparts, hitems⟩ := hes
  exact ⟨parts, hparts, by simpa using Parens.mk ho hitems hc⟩

/-- An operator before its operand. -/
theorem spells_prefixed (hK : ∀ c, K c → c = .not ∨ c = .dash) :
    Takes K Spells (prefixed operand) := by
  refine (Takes.advance ?_).bind fun m _ hm => (h .unary).bind fun e w he => .pure ?_
  · intro c hc
    rcases hK c hc with rfl | rfl <;> decide
  · obtain ⟨rfl, hm⟩ := hm
    have hkind : m.kind = (if m.kind = .not then UnaryOp.not else .negate).kind := by
      rcases hK _ hm with hkind | hkind <;> rw [hkind] <;> rfl
    simpa using Spells.unary hkind he

/-- A type and arguments, whether or not an element is created. -/
theorem spells_creation (hruns : ∀ power, Runs (operand power)) :
    Takes K Spells (creation operand) := by
  refine .of_after (.expect (by decide) fun n hn => ?_)
  refine .bind (spells_typeRef .default) (runs_typeRef _) fun type u htype => ?_
  refine .bind (spells_arguments h) (runs_arguments hruns) fun arguments v harguments => ?_
  obtain ⟨parts, hparts, hparens⟩ := harguments
  obtain ⟨stop, hstop⟩ := hparens.exists_stop
  refine .spanFrom (by rw [stopOf?_append, hstop]; rfl) (.pure ?_)
  show Spells _ (n :: (u ++ v))
  split
  · rename_i hplain
    exact .domCreate hn (htype.nameTokens hplain) hparts hparens hstop
  · exact .create hn htype hparts hparens hstop

theorem spells_beginning (hruns : ∀ power, Runs (operand power)) :
    Takes K Spells (beginning operand) := by
  refine .kind fun c => ?_
  split
  iterate 9 exact spells_primary
  · exact spells_prefixed h fun _ hc => .inl hc
  · exact spells_prefixed h fun _ hc => .inr hc
  · exact spells_grouping h
  · exact spells_creation h hruns
  · exact .fail _

/-! ### Reading what continues an expression -/

omit h in
/-- The operator is read before its left side is checked. -/
theorem spells_assigning (left : Expr) (hK : ∀ c, K c → c ≠ .eof) :
    Takes K (fun m w => w = [m] ∧ K m.kind) (assigning left) := by
  refine (Takes.advance hK).bind fun m _ hm => ?_
  obtain ⟨rfl, hm⟩ := hm
  split
  · exact .pure ⟨rfl, hm⟩
  · exact fun _ _ _ => trivial

/-- An assignment extends its left side. -/
theorem spells_assignment (left : Expr) (hK : ∀ c, K c → c.assignOp.kind = c) :
    Takes K (Extends left) (assignment operand left) := by
  refine (spells_assigning left ?_).bind fun m _ hm => (h .default).bind fun e v he => .pure ?_
  · rintro _ hc rfl
    exact absurd (hK _ hc) (by decide)
  · obtain ⟨rfl, hm⟩ := hm
    intro u hu
    simpa using Spells.assign hu (hK _ hm).symm he

omit h in
theorem spells_update (left : Expr) (hK : ∀ c, K c → c = .plusPlus ∨ c = .minusMinus) :
    Takes K (Extends left) (update left) := by
  refine (spells_assigning left ?_).bind fun m _ hm => .pure ?_
  · intro c hc
    rcases hK c hc with rfl | rfl <;> decide
  · obtain ⟨rfl, hm⟩ := hm
    intro u hu
    refine Spells.update hu ?_
    rcases hK _ hm with hkind | hkind <;> rw [hkind] <;> rfl

theorem spells_coalesce (left : Expr) : Takes K (Extends left) (coalesce operand left) := by
  refine (Takes.expect (by decide)).bind fun m _ hm => (h .assignment).bind fun e v he => .pure ?_
  obtain ⟨rfl, hm⟩ := hm
  intro u hu
  have hkind : m.kind = BinaryOp.coalesce.kind := hm
  simpa using Spells.binary hu hkind he

omit h in
/-- An operator is known from its token. -/
theorem kind_of_binaryOp? {c : Kind} {op : BinaryOp} (h : c.binaryOp? = some op) :
    c = op.kind := by
  cases c <;> first | cases h; rfl | cases h

/-- An operator between its operands extends the left one. That its level fits does not matter
here. -/
theorem spells_binary (left : Expr) (power : Power) :
    Takes K (Extends left) (binary operand left power) := by
  refine .kind fun c => ?_
  split
  · exact .fail _
  · rename_i op hop
    obtain rfl := kind_of_binaryOp? hop
    refine (Takes.advance ?_).bind fun m _ hm => (h power).bind fun e v he => .pure ?_
    · rintro _ rfl
      cases op <;> decide
    · obtain ⟨rfl, hm⟩ := hm
      intro u hu
      simpa using Spells.binary hu hm he

omit h in
/-- A member of the host object is spelled with its name. -/
theorem eq_of_hostMember? {e : Expr} {name : String} (h : hostMember? e = some name) :
    ∃ span₁ span₂ span, e = .member (.identifier hostObject span₁) name span₂ span := by
  unfold hostMember? at h
  split at h
  · split at h
    · rename_i hobject
      cases h
      exact ⟨_, _, _, by rw [hobject]⟩
    · cases h
  · cases h

omit h in
/-- Whatever a call is taken for, it is spelled as one. -/
theorem extends_of_callOf {left e : Expr} {arguments : List Expr} {v : List Token}
    {stop : Position} {paren first : Token}
    (hcall : callOf left arguments ⟨left.span.start, stop⟩ paren first = .ok e)
    (harguments : Parts Spells Parens arguments v) (hstop : stopOf? v = some stop) :
    Extends left e v := by
  obtain ⟨parts, hparts, hparens⟩ := harguments
  intro u hu
  unfold callOf at hcall
  split at hcall
  · rename_i hhost
    obtain ⟨span₁, span₂, span, rfl⟩ := eq_of_hostMember? hhost
    split at hcall
    · cases hcall
      exact .hostCall hu hparts hparens hstop
    · cases hcall
  · rename_i hhost
    obtain ⟨span₁, span₂, span, rfl⟩ := eq_of_hostMember? hhost
    split at hcall
    · cases hcall
      exact .hostSet hu hparts hparens hstop
    · cases hcall
  · split at hcall
    · cases hcall
      exact .domCall hu hparts hparens hstop
    · cases hcall
      exact .call hu hparts hparens hstop

/-- A call extends what is called, also if it is kept as something else than a call. -/
theorem spells_call (left : Expr) (hruns : ∀ power, Runs (operand power)) :
    Takes K (Extends left) (call operand left) := by
  refine .of_after (.get fun s => ?_)
  refine .bind (spells_arguments h) (runs_arguments hruns) fun arguments v harguments => ?_
  obtain ⟨stop, hstop⟩ : ∃ stop, stopOf? v = some stop := by
    obtain ⟨parts, -, hparens⟩ := harguments
    exact hparens.exists_stop
  refine .spanFrom (by rw [stopOf?_append, hstop]; rfl) ?_
  split
  · rename_i e hcall
    exact .pure (extends_of_callOf hcall harguments hstop)
  · exact .throw _

omit h in
/-- So does the name of a member, also of an element. -/
theorem spells_member (left : Expr) : Takes K (Extends left) (member left) := by
  refine (Takes.expect (by decide)).bind fun d _ hd => ?_
  refine (Takes.expectDescribed _ (by decide)).bind fun n _ hn => ?_
  obtain ⟨rfl, hd⟩ := hd
  obtain ⟨rfl, hn⟩ := hn
  refine .get fun s => .pure ?_
  intro u hu
  split
  · exact .domProperty hu hd hn
  · exact .member hu hd hn

/-- An index extends what it is taken from. -/
theorem spells_index (left : Expr) (hruns : ∀ power, Runs (operand power)) :
    Takes K (Extends left) (index operand left) := by
  refine .of_after (.expect (by decide) fun o ho => ?_)
  refine .bind (h .default) (hruns _) fun key v hkey => ?_
  refine .expect (by decide) fun c hc => .spanFrom (stopOf?_concat _ _) (.pure ?_)
  intro u hu
  simpa using Spells.index hu ho hkey hc

/-- All ways to go on extend what was read. -/
theorem spells_continuation (left : Expr) (power : Power) (hruns : ∀ power, Runs (operand power)) :
    Takes K (Extends left) (continuation operand left power) := by
  refine .kind fun c => ?_
  split
  iterate 5 exact spells_assignment h left (by rintro _ rfl; rfl)
  · exact spells_coalesce h left
  · exact spells_call h left hruns
  · exact spells_update left fun _ hc => .inl hc
  · exact spells_update left fun _ hc => .inr hc
  · exact spells_member left
  · exact spells_index h left hruns
  · exact spells_binary h left power

end

/-! ### Reading expressions -/

/-- What is read first spells a tree, and each round of the climb extends it. -/
theorem spells_exprWithin_climb (budget : Nat) :
    (∀ (power : Power) {K : Kind → Prop}, Takes K Spells (exprWithin budget power)) ∧
      ∀ (power : Power) (left : Expr) {K : Kind → Prop},
        Takes K (Extends left) (climb budget power left) := by
  induction budget with
  | zero =>
    refine ⟨fun power K => by rw [exprWithin]; exact .tooDeep, fun power left K => ?_⟩
    rw [climb]
    refine .kind fun c => ?_
    split
    · exact .pure (.refl left)
    · split
      · exact .tooDeep
      · exact .pure (.refl left)
  | succ budget ih =>
    obtain ⟨hoperand, hclimb⟩ := ih
    have hruns := runs_exprWithin budget
    refine ⟨fun power K => ?_, fun power left K => ?_⟩
    · rw [exprWithin]
      refine .after .deepen fun _ => (spells_beginning hoperand hruns).bind fun left w hw => ?_
      refine (hclimb power left).bind fun e v hv => (Takes.surface 1).bind fun _ _ hnil => .pure ?_
      subst hnil
      simpa using hv w hw
    · rw [climb]
      refine .kind fun c => ?_
      split
      · exact .pure (.refl left)
      · split
        · refine .after .deepen fun _ =>
            (spells_continuation hoperand left _ hruns).bind fun e w hw => ?_
          refine (hclimb power e).bind fun e' v hv => (Takes.surface 1).bind fun _ _ hnil => ?_
          subst hnil
          exact .pure (by simpa using hw.trans hv)
        · exact .pure (.refl left)

theorem spells_expr (power : Power) {K : Kind → Prop} : Takes K Spells (expr power) :=
  fun s => (spells_exprWithin_climb s.budget).1 power s

/-- The tokens between the state that an expression is read from and the one it leaves spell
the expression, whatever the binding power and the names in scope are. -/
theorem spelling_of_expr {s s' : State} {power : Power} {e : Expr} (hs : s.Ended)
    (h : expr power s = .ok e s') : ∃ w, s.tokens = w ++ s'.tokens ∧ Spells e w :=
  (spells_expr power (K := fun _ => True) s hs trivial).of_eq_ok h

/-- A property of the element `x` is called across parentheses, a host function with a path in
parentheses and a comma after its last argument, and the suffixes of a type are out of order. -/
theorem spelling_of_expr_forms :
    ∃ ts s e s',
      tokenize "(x.Add)(new A.B<C>?[]?(), -y[0]++) ?? JS.Call((\"f\"), z = 1,)" = .ok ts ∧
      s = { State.ofTokens ts with scope := ⟨none, [], ["x"], []⟩ } ∧ s.Ended ∧
      expr .default s = .ok e s' ∧ s'.kind = .eof ∧
      ∃ w, s.tokens = w ++ s'.tokens ∧ Spells e w := by
  have hfound : ∃ ts,
      tokenize "(x.Add)(new A.B<C>?[]?(), -y[0]++) ?? JS.Call((\"f\"), z = 1,)" = .ok ts ∧
      (match expr .default { State.ofTokens ts with scope := ⟨none, [], ["x"], []⟩ } with
        | .ok _ s' => decide (s'.kind = .eof)
        | .error _ _ => false) = true :=
    exists_eq_ok (by decide +kernel)
  obtain ⟨ts, hts, hread⟩ := hfound
  split at hread
  · rename_i e s' he
    have hended : State.Ended { State.ofTokens ts with scope := ⟨none, [], ["x"], []⟩ } :=
      ended_ofTokens ts
    exact ⟨ts, _, e, s', hts, rfl, hended, he, of_decide_eq_true hread, spelling_of_expr hended he⟩
  · cases hread

end ClassScript.Parse

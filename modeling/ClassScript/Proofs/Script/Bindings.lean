import Mathlib.Data.List.Nodup
import ClassScript.Proofs.Script.Resolution

/-!
# The names of parameters and locals

A parameter or a local keeps its name in the script, except that a reserved word gets an
underscore. So no name in the script is reserved, and two names become one exactly if one
of them is a reserved word and the other is that word with an underscore (`Clash`).

A class of the script names its parameters and locals at a `Site`: a parameter list, the
arguments for the constructor of the base class, or a statement of a body. The line of a
site follows from what each bare name is resolved to, and what is bound there is resolved
to its own name in the script.
-/

namespace ClassScript

/-- The names of the parameters and locals of a member. -/
def Member.boundNames : Member → List String
  | .method m => m.parameters.map Parameter.name ++ m.body.toList.flatMap Block.names
  | .constructor k => k.parameters.map Parameter.name ++ k.body.names
  | .field _ => []
  | .property _ => []

namespace Script

/-! ### Names that become one -/

/-- One of the names is a reserved word, and the other is that word with an underscore. -/
def Clash (x y : String) : Prop :=
  x ∈ reservedWords ∧ y = "_" ++ x ∨ y ∈ reservedWords ∧ x = "_" ++ y

instance (x y : String) : Decidable (Clash x y) :=
  inferInstanceAs (Decidable (_ ∨ _))

theorem clash_comm {x y : String} : Clash x y ↔ Clash y x :=
  or_comm

/-- No reserved word begins with an underscore. -/
theorem underscore_not_mem_reservedWords (name : String) : "_" ++ name ∉ reservedWords := by
  have hheads : ∀ word ∈ reservedWords, word.toList.head? ≠ some '_' := by decide
  intro hmem
  exact hheads _ hmem (by simp)

theorem bindingName_of_mem {name : String} (h : name ∈ reservedWords) :
    bindingName name = "_" ++ name := by
  rw [bindingName, if_pos (List.contains_iff_mem.2 h)]

theorem bindingName_of_not_mem {name : String} (h : name ∉ reservedWords) :
    bindingName name = name := by
  rw [bindingName, if_neg (mt List.contains_iff_mem.1 h)]

/-- No name in the script is reserved. -/
theorem bindingName_not_mem_reservedWords (name : String) :
    bindingName name ∉ reservedWords := by
  by_cases hname : name ∈ reservedWords
  · rw [bindingName_of_mem hname]
    exact underscore_not_mem_reservedWords name
  · rwa [bindingName_of_not_mem hname]

/-- A reserved word and a name that is none become one only by the underscore. -/
theorem bindingName_eq_iff_clash {x y : String} (hx : x ∈ reservedWords)
    (hy : y ∉ reservedWords) : bindingName x = bindingName y ↔ Clash x y := by
  rw [bindingName_of_mem hx, bindingName_of_not_mem hy, Clash]
  simp [hx, hy, eq_comm]

/-- Two names become one only if they clash. -/
theorem bindingName_eq_iff {x y : String} :
    bindingName x = bindingName y ↔ x = y ∨ Clash x y := by
  by_cases hx : x ∈ reservedWords <;> by_cases hy : y ∈ reservedWords
  · -- The underscore is the same on both sides, and no reserved word begins with one.
    have hclash : ¬ Clash x y := by
      intro h
      rcases h with ⟨-, rfl⟩ | ⟨-, rfl⟩
      · exact underscore_not_mem_reservedWords x hy
      · exact underscore_not_mem_reservedWords y hx
    rw [bindingName_of_mem hx, bindingName_of_mem hy, or_iff_left hclash]
    simp [← String.toList_inj]
  · have hne : x ≠ y := fun heq => hy (heq ▸ hx)
    rw [or_iff_right hne]
    exact bindingName_eq_iff_clash hx hy
  · have hne : x ≠ y := fun heq => hx (heq ▸ hy)
    rw [or_iff_right hne, eq_comm, clash_comm]
    exact bindingName_eq_iff_clash hy hx
  · simp [bindingName_of_not_mem hx, bindingName_of_not_mem hy, Clash, hx, hy]

theorem not_clash_self (name : String) : ¬ Clash name name := by
  intro h
  rcases h with ⟨hname, heq⟩ | ⟨hname, heq⟩ <;>
    exact underscore_not_mem_reservedWords name (heq ▸ hname)

/-- Names stay apart in the script exactly if they are apart and no two of them clash. -/
theorem nodup_map_bindingName_iff (names : List String) :
    (names.map bindingName).Nodup ↔ names.Nodup ∧ ∀ x ∈ names, ∀ y ∈ names, ¬ Clash x y := by
  constructor
  · intro h
    have hnames := h.of_map
    refine ⟨hnames, fun x hx y hy hclash => ?_⟩
    have heq : x = y :=
      (List.nodup_map_iff_inj_on hnames).1 h x hx y hy (bindingName_eq_iff.2 (.inr hclash))
    rw [heq] at hclash
    exact not_clash_self y hclash
  · intro ⟨hnames, hclash⟩
    refine (List.nodup_map_iff_inj_on hnames).2 fun x hx y hy heq => ?_
    exact (bindingName_eq_iff.1 heq).resolve_right (hclash x hx y hy)

/-! ### Where names are bound and referred to -/

/-- The text of a first value, with the sign before it. -/
def firstValueText : Option Expr → String
  | some e => " = " ++ exprText none e
  | none => ""

/-- The comment that stands for a statement without a form in the script. -/
def commentText (construct : Unsupported) : String :=
  "/* unsupported: " ++ construct.describe ++ " */"

/-- The first line of a statement, where bare names are resolved by `ρ`. -/
def stmtText (ρ : String → String) : Stmt → String
  | .block _ _ => "\x7b"
  | .expression e _ => exprText none (e.rename ρ) ++ ";"
  | .variable _ name value _ =>
    "let " ++ bindingName name ++ firstValueText (value.map (Expr.rename ρ)) ++ ";"
  | .return none _ => "return;"
  | .return (some e) _ => "return " ++ exprText none (e.rename ρ) ++ ";"
  | .unsupported construct _ => commentText construct

/-- Where a class of the script names parameters and locals: the parameter list of a
function with the text before it, the arguments for the constructor of the base class, and
a statement at its place in a body. The parameters in scope are given too. -/
inductive Site where
  | parameters (head : String) (ps : List Parameter)
  | baseArguments (ps : List Parameter) (arguments : List Expr)
  | statement (level : Nat) (ps : List Parameter) (place : Place) (s : Stmt)

namespace Site

/-- The names of the parameters and locals that are bound at a site. -/
def bound : Site → List String
  | .parameters _ ps => ps.map Parameter.name
  | .baseArguments ps _ => ps.map Parameter.name
  | .statement _ ps place _ => ps.map Parameter.name ++ place.visible

/-- The line of a site, where bare names are resolved by `ρ`. -/
def line (ρ : String → String) : Site → Line
  | .parameters head ps =>
    .code 1 (head ++ "(" ++ commaJoined (ps.map fun p =>
      bindingName p.name ++ firstValueText (p.defaultValue.map (Expr.rename ρ))) ++ ") \x7b")
  | .baseArguments _ arguments =>
    .code 2 ("super(" ++ commaJoined (arguments.map fun e => exprText none (e.rename ρ)) ++ ");")
  | .statement level _ place s => .code (level + place.frames.length) (stmtText ρ s)

/-- The sites of a class. -/
inductive In (c : ClassDecl) : Site → Prop
  | method {m : Method} : m ∈ c.methods →
      In c (.parameters (staticWord m.isStatic ++ m.name) m.parameters)
  | constructor {k : Constructor} : instanceConstructor? c = some k →
      In c (.parameters "constructor" k.parameters)
  | baseArguments {k : Constructor} {arguments : List Expr} {span : Span} :
      instanceConstructor? c = some k → c.baseClass.isSome = true →
      k.chain = some ⟨.base, arguments, span⟩ → In c (.baseArguments k.parameters arguments)
  | statement {level : Nat} {ps : List Parameter} {body : Block} {place : Place} {s : Stmt} :
      EmitsBody c level ps body → place.fill s = body.body → In c (.statement level ps place s)

/-- All that is declared up to a site, also the locals of blocks that are closed before. -/
def declared : Site → List String
  | .parameters _ ps => ps.map Parameter.name
  | .baseArguments ps _ => ps.map Parameter.name
  | .statement _ ps place _ => ps.map Parameter.name ++ Stmt.namesOf place.earlier

/-- What is bound at a site is declared there. -/
theorem bound_subset_declared (site : Site) : site.bound ⊆ site.declared := by
  cases site with
  | statement level ps place s =>
    refine List.append_subset.2 ⟨List.subset_append_left _ _, fun name hname => ?_⟩
    exact List.mem_append_right _ (Stmt.mem_namesOf.2 (.inl hname))
  | _ => exact List.Subset.refl _

end Site

/-- A name that is declared is resolved to its own name in the script. -/
theorem resolve_declareAll_of_mem (scope : Scope) {names : List String} {name : String}
    (h : name ∈ names) : (scope.declareAll names).resolve name = bindingName name := by
  obtain ⟨locals, heq, hmem⟩ := scope.declareAll_eq names
  rw [heq, Scope.resolve, if_pos (List.contains_iff_mem.2 ((hmem name).2 (.inr h)))]

/-! ### The lines of the sites -/

theorem parameterText_eq (scope : Scope) (p : Parameter) :
    parameterText scope p =
      bindingName p.name ++ firstValueText (p.defaultValue.map (Expr.rename scope.resolve)) := by
  unfold parameterText
  cases p.defaultValue with
  | none => simp [firstValueText]
  | some e => simp [firstValueText, exprText_rename, String.append_assoc]

/-- The first line of a statement follows from what bare names are resolved to. -/
theorem stmtLines_head (level : Nat) (scope : Scope) (s : Stmt) :
    ∃ more, (stmtLines level scope s).1 = .code level (stmtText scope.resolve s) :: more := by
  cases s with
  | block body span => exact ⟨_, rfl⟩
  | expression e span => simp [stmtText, stmtLines, exprText_rename]
  | «variable» type name value span =>
    cases value with
    | none => simp [stmtText, stmtLines, firstValueText]
    | some e => simp [stmtText, stmtLines, firstValueText, exprText_rename, String.append_assoc]
  | «return» value span =>
    cases value with
    | none => exact ⟨[], rfl⟩
    | some e => simp [stmtText, stmtLines, exprText_rename]
  | unsupported construct span => exact ⟨[], rfl⟩

/-- The lines of a method are lines of its class. -/
theorem methodLines_subset {c : ClassDecl} {m : Method} (hm : m ∈ c.methods) :
    methodLines 1 c m ⊆ classLines c := by
  refine (infix_classLines ?_).subset
  simp only [classSections, List.mem_append, List.mem_map]
  exact .inr ⟨m, hm, rfl⟩

theorem constructorLines_subset {c : ClassDecl} {k : Constructor}
    (hk : instanceConstructor? c = some k) : constructorLines 1 c k ⊆ classLines c := by
  refine (infix_classLines ?_).subset
  simp only [classSections, List.mem_append, List.mem_map]
  exact .inl (.inl (.inr ⟨k, by simp [hk], rfl⟩))

/-- The line of a site is in the class, where all that is declared up to the site is taken
for a local. -/
theorem Site.In.line_mem {c : ClassDecl} {site : Site} (h : site.In c) :
    site.line ((Scope.ofClass c).declareAll site.declared).resolve ∈ classLines c := by
  cases h with
  | @method m hm =>
    refine methodLines_subset hm ?_
    simp only [Site.line, Site.declared, ← Scope.declareParameters_eq, ← parameterText_eq]
    exact List.mem_cons_self
  | @constructor k hk =>
    refine constructorLines_subset hk ?_
    simp only [Site.line, Site.declared, ← Scope.declareParameters_eq, ← parameterText_eq]
    exact List.mem_cons_self
  | @baseArguments k arguments span hk hbase hchain =>
    refine constructorLines_subset hk ?_
    simp [Site.line, Site.declared, ← Scope.declareParameters_eq, exprText_rename,
      constructorLines, chainLines, hbase, hchain, exprTexts_eq_map]
  | @statement level ps body place s hbody hfill =>
    refine hbody.isInfix.subset ?_
    obtain ⟨rest, hrest⟩ := stmtsLines_fill level ((Scope.ofClass c).declareParameters ps) place s
    rw [bodyLines, ← hfill, hrest, Site.line, Site.declared, Scope.declareAll_append,
      ← Scope.declareParameters_eq]
    obtain ⟨more, hmore⟩ := stmtLines_head (level + place.frames.length)
      (((Scope.ofClass c).declareParameters ps).declareAll (Stmt.namesOf place.earlier)) s
    rw [hmore]
    simp

/-- What becomes of the names of parameters and locals. None is a reserved word in the script,
and different names of a member become one exactly if they clash. So a parameter list of the
script names a parameter twice exactly if it does so in the source or two of its names clash,
and a reference is taken for that to another parameter or local exactly if the two clash. -/
theorem bound_names_merge_exactly (c : ClassDecl) :
    (∀ m ∈ c.members, ∀ x ∈ m.boundNames, bindingName x ∉ reservedWords ∧
      ∀ y ∈ m.boundNames, x ≠ y → (bindingName x = bindingName y ↔ Clash x y)) ∧
    (∀ head ps, (Site.parameters head ps).In c →
      ((ps.map fun p => bindingName p.name).Nodup ↔ (ps.map Parameter.name).Nodup ∧
        ∀ p ∈ ps, ∀ q ∈ ps, ¬ Clash p.name q.name)) ∧
    ∀ site : Site, site.In c → ∃ ρ : String → String, site.line ρ ∈ classLines c ∧
      ∀ x ∈ site.bound, ρ x = bindingName x ∧
        ∀ y ∈ site.bound, x ≠ y → (ρ x = bindingName y ↔ Clash x y) := by
  have hmerge : ∀ {x y : String}, x ≠ y → (bindingName x = bindingName y ↔ Clash x y) := by
    intro x y hne
    rw [bindingName_eq_iff, or_iff_right hne]
  refine ⟨?_, ?_, ?_⟩
  · intro m _ x _
    exact ⟨bindingName_not_mem_reservedWords x, fun y _ => hmerge⟩
  · intro head ps _
    have hnames := nodup_map_bindingName_iff (ps.map Parameter.name)
    simpa [Function.comp_def] using hnames
  · intro site hsite
    refine ⟨_, hsite.line_mem, fun x hx => ?_⟩
    have hx := resolve_declareAll_of_mem (Scope.ofClass c) (site.bound_subset_declared hx)
    exact ⟨hx, fun y _ hne => hx ▸ hmerge hne⟩

/-- A parameter and a local that are reserved words stay apart from each other and from a
parameter with an underscore. -/
theorem bound_names_merge_exactly_apart :
    ∃ u,
      compile "class T { int F(int delete, int _x) { int let = _x; return delete + let; } }" =
        .ok u ∧
      ∃ c ∈ u.classes, ∃ m ∈ c.methods, ∃ (place : Place) (s : Stmt),
        (m.parameters.map fun p => bindingName p.name).Nodup ∧
        (Site.statement 2 m.parameters place s).bound = ["delete", "_x", "let"] ∧
        ∃ ρ : String → String,
          (Site.statement 2 m.parameters place s).line ρ ∈ classLines c ∧
          ρ "delete" = "_delete" ∧ ρ "let" = "_let" ∧ ρ "delete" ≠ bindingName "_x" := by
  have hfound : ∃ u,
      compile "class T { int F(int delete, int _x) { int let = _x; return delete + let; } }" =
        .ok u ∧
      ∃ c ∈ u.classes, ∃ m ∈ c.methods, m.parameters.map Parameter.name = ["delete", "_x"] ∧
        ∃ body ∈ m.body.toList,
          (Place.last? body.body).any (fun last => last.1.visible = ["let"]) = true :=
    exists_eq_ok (by decide +kernel)
  obtain ⟨u, hu, c, hc, m, hm, hnames, body, hbody, hlast⟩ := hfound
  obtain ⟨⟨place, s⟩, hplace, hvisible⟩ := (Option.any_eq_true _ _).1 hlast
  have hsite : (Site.statement 2 m.parameters place s).In c :=
    .statement (.method hm (Option.mem_toList.1 hbody)) (Place.fill_of_last? hplace)
  have hbound : (Site.statement 2 m.parameters place s).bound = ["delete", "_x", "let"] := by
    rw [Site.bound, hnames, of_decide_eq_true hvisible]
    rfl
  obtain ⟨-, hlist, hlines⟩ := bound_names_merge_exactly c
  obtain ⟨ρ, hline, hρ⟩ := hlines _ hsite
  rw [hbound] at hρ
  refine ⟨u, hu, c, hc, m, hm, place, s, ?_, hbound, ρ, hline, ?_, ?_, ?_⟩
  · rw [hlist _ _ (.method hm), hnames]
    have hapart : ∀ x ∈ ["delete", "_x"], ∀ y ∈ ["delete", "_x"], ¬ Clash x y := by decide
    rw [← hnames] at hapart
    simp only [List.forall_mem_map] at hapart
    exact ⟨by decide, hapart⟩
  · exact (hρ "delete" (by decide)).1
  · exact (hρ "let" (by decide)).1
  · rw [ne_eq, (hρ "delete" (by decide)).2 "_x" (by decide) (by decide)]
    decide

/-- A reserved word and the same word with an underscore are two parameters of the source and
one name in the script. -/
theorem underscored_parameter_merges :
    ∃ u, compile "class T { int F(int delete, int _delete) { return delete; } }" =
        .ok u ∧
      ∃ c ∈ u.classes, ∃ m ∈ c.methods, m.parameters.map Parameter.name = ["delete", "_delete"] ∧
        bindingName "delete" = bindingName "_delete" ∧
        methodLines 1 c m = [.code 1 "F(_delete, _delete) \x7b", .code 2 "return _delete;",
          .code 1 "\x7d"] :=
  exists_eq_ok (by decide +kernel)

end Script

end ClassScript

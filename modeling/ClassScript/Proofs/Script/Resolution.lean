import ClassScript.Proofs.Parse.Declarations
import ClassScript.Proofs.Script.Spelling
import ClassScript.Proofs.Tree.Rewriting
import ClassScript.Script.Program

/-!
# What a bare name becomes

In a body of a class, a bare name is a parameter, a local or a member of the class,
and the script reaches each of them differently. A local is declared by a `let`,
which the script binds up to the end of the block around it.

A `Place` is a way to see a body as a statement with what stands around it. The line
that a statement at a place becomes is known (`stmtsLines_fill`): it is the text of its
expression with every bare name resolved, where the names taken for locals are the
parameters and all that is declared before the place. These are the locals that are
bound there (`visible`), and those of blocks that are closed before the place
(`closed`), which are bound no longer.
-/

namespace ClassScript

namespace Expr

/-- A bare name, renamed. Other nodes stay. -/
def renameNode (ρ : String → String) : Expr → Expr
  | .identifier name span => .identifier (ρ name) span
  | e => e

/-- The expression with its bare names renamed. -/
abbrev rename (ρ : String → String) : Expr → Expr := mapNodes (renameNode ρ)

end Expr

namespace Stmt

/-- The local that a statement declares in the block that it stands in. -/
def declared? : Stmt → Option String
  | .variable _ name _ _ => some name
  | _ => none

/-- The locals of the blocks in a statement. None of them is bound after it. -/
def enclosed : Stmt → List String
  | .block body _ => namesOf body
  | _ => []

/-- The expression of a statement, with what the line of the statement begins with. -/
def emitted? : Stmt → Option (String × Expr)
  | .expression e _ => some ("", e)
  | .variable _ name (some e) _ => some ("let " ++ Script.bindingName name ++ " = ", e)
  | .return (some e) _ => some ("return ", e)
  | _ => none

theorem mem_names {s : Stmt} {name : String} :
    name ∈ s.names ↔ s.declared? = some name ∨ name ∈ s.enclosed := by
  cases s <;> simp [names, declared?, enclosed, eq_comm]

theorem mem_namesOf {ss : List Stmt} {name : String} :
    name ∈ namesOf ss ↔ name ∈ ss.filterMap declared? ∨ name ∈ ss.flatMap enclosed := by
  simp only [namesOf_eq_flatMap, List.mem_flatMap, List.mem_filterMap, mem_names]
  constructor
  · rintro ⟨s, hs, h | h⟩
    · exact .inl ⟨s, hs, h⟩
    · exact .inr ⟨s, hs, h⟩
  · rintro (⟨s, hs, h⟩ | ⟨s, hs, h⟩)
    · exact ⟨s, hs, .inl h⟩
    · exact ⟨s, hs, .inr h⟩

end Stmt

namespace ClassDecl

/-- Is `name` the name of a member that is no constructor? -/
def hasMember (c : ClassDecl) (name : String) : Bool :=
  c.members.any fun m => m.kind ≠ .constructor && m.name = name

/-- Is `name` the name of such a member of the instances? -/
def hasInstanceMember (c : ClassDecl) (name : String) : Bool :=
  c.members.any fun m => m.kind ≠ .constructor && m.name = name && !m.isStatic

/-- How the script reaches a member by its name. -/
def qualified (c : ClassDecl) (name : String) : String :=
  if c.hasInstanceMember name then "this." ++ name else c.name ++ "." ++ name

end ClassDecl

namespace Script

/-! ### Resolving names is renaming -/

theorem sameShape_rename (ρ : String → String) (e : Expr) : SameShape (e.rename ρ) e := by
  cases e with
  | binary op left right span => cases op <;> exact ⟨rfl, rfl, rfl⟩
  | _ => exact ⟨rfl, rfl, rfl⟩

theorem exprTexts_rename_iff {ρ : String → String} {scope : Option Scope} {es : List Expr} :
    exprTexts none (Expr.mapNodesAll (Expr.renameNode ρ) es) = exprTexts scope es ↔
      ∀ e ∈ es, exprText none (e.rename ρ) = exprText scope e := by
  rw [Expr.mapNodesAll_eq_map, exprTexts_eq_map, exprTexts_eq_map, List.map_map, List.map_inj_left]
  rfl

/-- The text of an expression in a scope is its text with all names resolved. -/
theorem exprText_rename (scope : Scope) (e : Expr) :
    exprText none (e.rename scope.resolve) = exprText scope e := by
  induction e using Expr.induction_children with
  | step e ih =>
    cases e <;> simp only [Expr.children, List.forall_mem_cons, ← exprTexts_rename_iff] at ih <;>
      simp only [Expr.mapNodes, Expr.renameNode, exprText, resolve,
        (sameShape_rename _ _).wrapsLeft, (sameShape_rename _ _).wrapsRight,
        (sameShape_rename _ _).wrapsObject, (sameShape_rename _ _).precedence, ih]

/-! ### The scope that statements leave -/

/-- Adds locals one after another. -/
def Scope.declareAll (scope : Scope) (names : List String) : Scope :=
  names.foldl Scope.declare scope

namespace Scope

variable (scope : Scope)

theorem declareAll_append (names names' : List String) :
    scope.declareAll (names ++ names') = (scope.declareAll names).declareAll names' :=
  List.foldl_append

theorem declareParameters_eq (ps : List Parameter) :
    scope.declareParameters ps = scope.declareAll (ps.map Parameter.name) :=
  List.foldl_map.symm

/-- Only the locals change, by the names that are added. -/
theorem declareAll_eq (names : List String) :
    ∃ locals, scope.declareAll names = { scope with locals := locals } ∧
      ∀ name, name ∈ locals ↔ name ∈ scope.locals ∨ name ∈ names := by
  induction names generalizing scope with
  | nil => exact ⟨scope.locals, rfl, by simp⟩
  | cons n names ih =>
    obtain ⟨locals, heq, hmem⟩ := ih (scope.declare n)
    refine ⟨locals, heq, fun name => ?_⟩
    rw [hmem]
    simp only [declare, List.mem_insert_iff, List.mem_cons]
    constructor
    · rintro ((h | h) | h)
      · exact .inr (.inl h)
      · exact .inl h
      · exact .inr (.inr h)
    · rintro (h | h | h)
      · exact .inl (.inr h)
      · exact .inl (.inl h)
      · exact .inr h

end Scope

mutual

/-- A statement adds all locals that are declared in it, also those of its blocks. -/
theorem stmtLines_scope (level : Nat) (scope : Scope) (s : Stmt) :
    (stmtLines level scope s).2 = scope.declareAll s.names := by
  cases s with
  | block body span => exact stmtsLines_scope (level + 1) scope body
  | «variable» type name value span => cases value <;> rfl
  | «return» value span => cases value <;> rfl
  | expression e span => rfl
  | unsupported construct span => rfl

theorem stmtsLines_scope (level : Nat) (scope : Scope) (ss : List Stmt) :
    (stmtsLines level scope ss).2 = scope.declareAll (Stmt.namesOf ss) := by
  cases ss with
  | nil => rfl
  | cons s ss =>
    rw [Stmt.namesOf, Scope.declareAll_append, ← stmtLines_scope level]
    exact stmtsLines_scope level _ ss

end

theorem stmtsLines_append (level : Nat) (scope : Scope) (ss ss' : List Stmt) :
    (stmtsLines level scope (ss ++ ss')).1 = (stmtsLines level scope ss).1 ++
      (stmtsLines level (scope.declareAll (Stmt.namesOf ss)) ss').1 := by
  induction ss generalizing scope with
  | nil => rfl
  | cons s ss ih =>
    rw [Stmt.namesOf, Scope.declareAll_append, ← stmtLines_scope level]
    simp only [List.cons_append, stmtsLines, ih, List.append_assoc]

theorem stmtLines_emitted (level : Nat) (scope : Scope) {s : Stmt} {head : String} {e : Expr}
    (h : s.emitted? = some (head, e)) :
    (stmtLines level scope s).1 = [.code level (head ++ exprText scope e ++ ";")] := by
  unfold Stmt.emitted? at h
  split at h
  · cases h
    rw [String.empty_append]
    rfl
  · cases h
    rfl
  · cases h
    rfl
  · cases h

/-! ### Places in a body -/

/-- A block around a place, with the statements before and after the block. -/
structure Frame where
  before : List Stmt
  span : Span
  after : List Stmt

/-- A place for a statement in a body: the blocks around it, the outermost first, and
the statements before and after it in its own block. -/
structure Place where
  frames : List Frame
  before : List Stmt
  after : List Stmt

namespace Place

variable (p : Place)

/-- The statements of a body with `s` at the place. -/
def fill (s : Stmt) : List Stmt :=
  p.frames.foldr (fun f inner => f.before ++ .block inner f.span :: f.after)
    (p.before ++ s :: p.after)

/-- The last statement of a body and its place, in the block that ends the body if there
is one. -/
def last? (ss : List Stmt) : Option (Place × Stmt) :=
  ss.getLast?.bind fun
    | .block inner span =>
      inner.getLast?.map fun s => (⟨[⟨ss.dropLast, span, []⟩], inner.dropLast, []⟩, s)
    | s => some (⟨[], ss.dropLast, []⟩, s)

theorem fill_of_last? {p : Place} {ss : List Stmt} {s : Stmt} (h : last? ss = some (p, s)) :
    p.fill s = ss := by
  obtain ⟨t, ht, h⟩ := Option.bind_eq_some_iff.1 h
  obtain ⟨before, rfl⟩ := List.getLast?_eq_some_iff.1 ht
  split at h
  · obtain ⟨s', hs', hplace⟩ := Option.map_eq_some_iff.1 h
    obtain ⟨inner, rfl⟩ := List.getLast?_eq_some_iff.1 hs'
    cases hplace
    simp [fill]
  · cases h
    simp [fill]

/-- The statements before the place, in its own block and in those around it. -/
def earlier : List Stmt := p.frames.flatMap Frame.before ++ p.before

/-- The locals that are bound at the place. -/
def visible : List String := p.earlier.filterMap Stmt.declared?

/-- The locals of blocks that are closed before the place. -/
def closed : List String := p.earlier.flatMap Stmt.enclosed

/-- A parameter or a local has the name at the place. -/
def Binds (ps : List Parameter) (name : String) : Prop :=
  name ∈ ps.map Parameter.name ∨ name ∈ p.visible

instance (ps : List Parameter) (name : String) : Decidable (p.Binds ps name) :=
  inferInstanceAs (Decidable (_ ∨ _))

/-- The lines that open the blocks around a place, with all that stands before. -/
def openingLines : List Frame → Nat → Scope → List Stmt → List Line
  | [], level, scope, own => (stmtsLines level scope own).1
  | f :: frames, level, scope, own =>
    (stmtsLines level scope f.before).1 ++ .code level "\x7b" ::
      openingLines frames (level + 1) (scope.declareAll (Stmt.namesOf f.before)) own

/-- The lines of a body before the one of the place. -/
def linesBefore (level : Nat) (scope : Scope) : List Line :=
  openingLines p.frames level scope p.before

end Place

theorem stmtsLines_around (level : Nat) (scope : Scope) (before after : List Stmt) (s : Stmt) :
    ∃ rest, (stmtsLines level scope (before ++ s :: after)).1 = (stmtsLines level scope before).1 ++
      ((stmtLines level (scope.declareAll (Stmt.namesOf before)) s).1 ++ rest) := by
  rw [stmtsLines_append, stmtsLines]
  exact ⟨_, rfl⟩

/-- The lines of a body begin with those before a place, and those of the statement
there follow. All that is declared before the place is in scope. -/
theorem stmtsLines_fill (level : Nat) (scope : Scope) (p : Place) (s : Stmt) :
    ∃ rest, (stmtsLines level scope (p.fill s)).1 =
      p.linesBefore level scope ++
        ((stmtLines (level + p.frames.length)
          (scope.declareAll (Stmt.namesOf p.earlier)) s).1 ++ rest) := by
  obtain ⟨frames, before, after⟩ := p
  induction frames generalizing level scope with
  | nil => exact stmtsLines_around level scope before after s
  | cons f frames ih =>
    obtain ⟨inner, hinner⟩ := ih (level + 1) (scope.declareAll (Stmt.namesOf f.before))
    obtain ⟨outer, houter⟩ := stmtsLines_around level scope f.before f.after
      (.block (Place.fill ⟨frames, before, after⟩ s) f.span)
    have hdepth : level + 1 + frames.length = level + (f :: frames).length := by
      rw [List.length_cons]
      omega
    have hearlier : Stmt.namesOf (Place.earlier ⟨f :: frames, before, after⟩) =
        Stmt.namesOf f.before ++ Stmt.namesOf (Place.earlier ⟨frames, before, after⟩) := by
      simp [Place.earlier, Stmt.namesOf_eq_flatMap]
    refine ⟨inner ++ .code level "\x7d" :: outer, ?_⟩
    rw [hearlier, Scope.declareAll_append, ← hdepth]
    refine houter.trans ?_
    simp only [stmtLines, hinner, Place.linesBefore, Place.openingLines, List.append_assoc,
      List.cons_append, List.nil_append]

/-! ### What a scope makes of a member's name -/

theorem mem_instanceMembers {c : ClassDecl} {name : String} :
    name ∈ (Scope.ofClass c).instanceMembers ↔ c.hasInstanceMember name = true := by
  simp only [Scope.ofClass, ClassDecl.hasInstanceMember, List.mem_map, List.mem_filter,
    List.any_eq_true]
  refine exists_congr fun m => ?_
  cases m <;> simp [Scope.isNamed, Member.kind, and_assoc, and_comm]

/-- A member that no instance has is one of the class. -/
theorem mem_staticMembers {c : ClassDecl} {name : String} (h : c.hasMember name = true)
    (hinstance : c.hasInstanceMember name = false) :
    name ∈ (Scope.ofClass c).staticMembers := by
  obtain ⟨m, hm, hname⟩ := List.any_eq_true.1 h
  have hstatic := List.any_eq_false.1 hinstance m hm
  simp only [Bool.and_eq_true, hname, true_and, Bool.not_eq_true, Bool.not_eq_false'] at hstatic
  simp only [Scope.ofClass, List.mem_map, List.mem_filter]
  refine ⟨m, ⟨⟨hm, ?_⟩, hstatic⟩, ?_⟩
  · cases m <;> simp_all [Scope.isNamed, Member.kind]
  · simp_all

/-- In a scope of the class, a member's name is a local if it is declared, and is
qualified otherwise. -/
theorem resolve_declareAll {c : ClassDecl} {name : String} (names : List String)
    (h : c.hasMember name = true) :
    ((Scope.ofClass c).declareAll names).resolve name =
      if name ∈ names then bindingName name else c.qualified name := by
  obtain ⟨locals, hscope, hlocals⟩ := (Scope.ofClass c).declareAll_eq names
  have hmem : name ∈ locals ↔ name ∈ names := by
    rw [hlocals]
    exact or_iff_right List.not_mem_nil
  rw [hscope, Scope.resolve]
  by_cases hdeclared : name ∈ names
  · simp [hmem, hdeclared]
  · cases hinstance : c.hasInstanceMember name with
    | true => simp [hmem, hdeclared, mem_instanceMembers, ClassDecl.qualified, hinstance]
    | false =>
      have hclass : (Scope.ofClass c).className = c.name := rfl
      simp [hmem, hdeclared, mem_instanceMembers, ClassDecl.qualified, hinstance,
        mem_staticMembers h hinstance, hclass]

/-- A name with something and a point before it is not the name of a local. -/
theorem bindingName_ne (front name : String) : bindingName name ≠ front ++ "." ++ name := by
  intro heq
  obtain ⟨mark, hmark, hname⟩ : ∃ mark : List Char, (mark = [] ∨ mark = ['_']) ∧
      (bindingName name).toList = mark ++ name.toList := by
    unfold bindingName
    split
    · exact ⟨['_'], .inr rfl, by simp⟩
    · exact ⟨[], .inl rfl, rfl⟩
  have hchars : mark ++ name.toList = front.toList ++ ['.'] ++ name.toList := by
    rw [← hname, heq]
    simp
  have hlast := congrArg List.getLast? (List.append_cancel_right hchars)
  rw [List.getLast?_concat] at hlast
  rcases hmark with rfl | rfl <;> cases hlast

theorem bindingName_ne_qualified (c : ClassDecl) (name : String) :
    bindingName name ≠ c.qualified name := by
  unfold ClassDecl.qualified
  split
  · exact bindingName_ne "this" name
  · exact bindingName_ne c.name name

/-! ### The bodies of a class -/

/-- The bodies that a class of the script has, with their level of indentation and the
parameters around them. The body of a static constructor is a block after the class,
which has none. -/
inductive EmitsBody (c : ClassDecl) : Nat → List Parameter → Block → Prop
  | method {m : Method} {body : Block} : m ∈ c.methods → m.body = some body →
      EmitsBody c 2 m.parameters body
  | constructor {k : Constructor} : instanceConstructor? c = some k →
      EmitsBody c 2 k.parameters k.body
  | staticConstructor {k : Constructor} : staticConstructor? c = some k → EmitsBody c 1 [] k.body

theorem infix_separated {lines : List Line} {sections : List (List Line)} (h : lines ∈ sections) :
    lines <:+: separated sections := by
  induction sections with
  | nil => cases h
  | cons first sections ih =>
    cases sections with
    | nil =>
      obtain rfl := List.mem_singleton.1 h
      exact List.infix_refl _
    | cons second sections =>
      rcases List.mem_cons.1 h with rfl | h
      · exact (List.prefix_append _ _).isInfix
      · exact (ih h).trans ((List.suffix_cons _ _).trans (List.suffix_append _ _)).isInfix

theorem infix_classLines {c : ClassDecl} {lines : List Line} (h : lines ∈ classSections 1 c) :
    lines <:+: classLines c :=
  (infix_separated h).trans
    ⟨[.code 0 (classHeader c)], .code 0 "\x7d" :: staticLines c, by simp [classLines]⟩

/-- The lines of a body stand among those of its class. -/
theorem EmitsBody.isInfix {c : ClassDecl} {level : Nat} {ps : List Parameter} {body : Block}
    (h : EmitsBody c level ps body) :
    bodyLines level ((Scope.ofClass c).declareParameters ps) body <:+: classLines c := by
  cases h with
  | @method m body hm hbody =>
    have hsection : methodLines 1 c m ∈ classSections 1 c := by
      simp only [classSections, List.mem_append, List.mem_map]
      exact .inr ⟨m, hm, rfl⟩
    refine List.IsInfix.trans ?_ (infix_classLines hsection)
    rw [methodLines, hbody]
    exact ⟨[_], [_], rfl⟩
  | @constructor k hk =>
    have hsection : constructorLines 1 c k ∈ classSections 1 c := by
      simp only [classSections, List.mem_append, List.mem_map]
      exact .inl (.inl (.inr ⟨k, by simp [hk], rfl⟩))
    refine List.IsInfix.trans ?_ (infix_classLines hsection)
    exact ⟨_ :: chainLines _ _ _ _, [_], rfl⟩
  | @staticConstructor k hk =>
    have hlines : bodyLines 1 (Scope.ofClass c) k.body <:+: staticLines c := by
      rw [staticLines, hk]
      refine List.IsInfix.trans ?_ (List.suffix_append _ _).isInfix
      exact ⟨[_], [_], rfl⟩
    refine hlines.trans ?_
    exact ((List.suffix_cons _ _).trans (List.suffix_append _ _)).isInfix

/-! ### Bare names at a place -/

mutual

/-- An expression of a statement that stands between others, at a place in all of them. -/
theorem Place.exists_fill_around {e : Expr} (before : List Stmt) (s : Stmt) (after : List Stmt)
    (he : e ∈ s.expressions) : ∃ (p : Place) (s' : Stmt) (head : String),
      p.fill s' = before ++ s :: after ∧ s'.emitted? = some (head, e) := by
  cases s with
  | block body span =>
    obtain ⟨p, s', head, hfill, hs'⟩ := Place.exists_fill [] body he
    refine ⟨⟨⟨before, span, after⟩ :: p.frames, p.before, p.after⟩, s', head, ?_, hs'⟩
    rw [← List.nil_append body, ← hfill]
    rfl
  | expression e' span =>
    obtain rfl := List.mem_singleton.1 he
    exact ⟨⟨[], before, after⟩, _, _, rfl, rfl⟩
  | «variable» type name value span =>
    obtain rfl := Option.mem_toList.1 he
    exact ⟨⟨[], before, after⟩, _, _, rfl, rfl⟩
  | «return» value span =>
    obtain rfl := Option.mem_toList.1 he
    exact ⟨⟨[], before, after⟩, _, _, rfl, rfl⟩
  | unsupported construct span => cases he

/-- An expression of statements stands at a place in them. -/
theorem Place.exists_fill {e : Expr} (before ss : List Stmt) (he : e ∈ Stmt.expressionsOf ss) :
    ∃ (p : Place) (s : Stmt) (head : String),
      p.fill s = before ++ ss ∧ s.emitted? = some (head, e) := by
  cases ss with
  | nil => cases he
  | cons s ss =>
    rcases List.mem_append.1 he with he | he
    · exact Place.exists_fill_around before s ss he
    · rw [← List.singleton_append, ← List.append_assoc]
      exact Place.exists_fill (before ++ [s]) ss he

end

/-- What becomes of the bare names in a body of a class. Its lines stand in the class, every
expression in it stands at a place, and the line of a place is known. In that line the
name of a member is a local if a parameter or a local has it, also one of a block that
is closed before the place, and else it is qualified. That is what block scope makes of
it exactly if no such local has the name or something that is bound has it too. -/
theorem bare_names_at_place {c : ClassDecl} {level : Nat} {ps : List Parameter} {body : Block}
    (hbody : EmitsBody c level ps body) :
    bodyLines level ((Scope.ofClass c).declareParameters ps) body <:+: classLines c ∧
    (∀ e ∈ body.expressions, ∃ (p : Place) (s : Stmt) (head : String),
      p.fill s = body.body ∧ s.emitted? = some (head, e)) ∧
    ∀ (p : Place) (s : Stmt) (head : String) (e : Expr),
      p.fill s = body.body → s.emitted? = some (head, e) →
      ∃ ρ : String → String,
        (∃ rest, bodyLines level ((Scope.ofClass c).declareParameters ps) body =
          p.linesBefore level ((Scope.ofClass c).declareParameters ps) ++
            .code (level + p.frames.length) (head ++ exprText none (e.rename ρ) ++ ";") :: rest) ∧
        ∀ name, c.hasMember name = true →
          ρ name = (if p.Binds ps name ∨ name ∈ p.closed then bindingName name
            else c.qualified name) ∧
          (ρ name = (if p.Binds ps name then bindingName name else c.qualified name) ↔
            (name ∈ p.closed → p.Binds ps name)) := by
  refine ⟨hbody.isInfix, fun e he => Place.exists_fill [] body.body he, ?_⟩
  intro p s head e hplace hs
  let declared := ps.map Parameter.name ++ Stmt.namesOf p.earlier
  have hdeclared (name : String) : name ∈ declared ↔ p.Binds ps name ∨ name ∈ p.closed := by
    rw [List.mem_append, Stmt.mem_namesOf, ← or_assoc]
    rfl
  refine ⟨((Scope.ofClass c).declareAll declared).resolve, ?_, fun name hname => ?_⟩
  · obtain ⟨rest, hrest⟩ := stmtsLines_fill level ((Scope.ofClass c).declareParameters ps) p s
    refine ⟨rest, ?_⟩
    rw [bodyLines, ← hplace, hrest, stmtLines_emitted _ _ hs, exprText_rename,
      Scope.declareParameters_eq, Scope.declareAll_append]
    rfl
  · rw [resolve_declareAll declared hname]
    simp only [hdeclared, true_and]
    by_cases hbinds : p.Binds ps name
    · simp [hbinds]
    · by_cases hclosed : name ∈ p.closed
      · simp [hbinds, hclosed, bindingName_ne_qualified]
      · simp [hbinds, hclosed]

/-- In a block, a local of the block and a parameter hide members, and another member
is reached through the class. -/
theorem bare_names_at_place_nested :
    ∃ u,
      compile "class T { int x; int y; static int z; void M(int x) { { int y = x; y = z; } } }" =
        .ok u ∧
      ∃ c ∈ u.classes, ∃ m ∈ c.methods, ∃ (body : Block) (p : Place) (s : Stmt) (e : Expr),
        EmitsBody c 2 m.parameters body ∧ p.fill s = body.body ∧ s.emitted? = some ("", e) ∧
        exprText none e = "y = z" ∧
        ∃ ρ : String → String, ρ "x" = "x" ∧ ρ "y" = "y" ∧ ρ "z" = "T.z" ∧
          ∃ before rest, bodyLines 2 ((Scope.ofClass c).declareParameters m.parameters) body =
            before ++ .code 3 ("" ++ exprText none (e.rename ρ) ++ ";") :: rest := by
  have hfound : ∃ u,
      compile "class T { int x; int y; static int z; void M(int x) { { int y = x; y = z; } } }" =
        .ok u ∧
      ∃ c ∈ u.classes, ∃ m ∈ c.methods, ∃ body ∈ m.body.toList, (Place.last? body.body).any
        (fun last => last.2.emitted?.any (fun emitted => emitted.1 = "" &&
            exprText none emitted.2 = "y = z")
          && last.1.Binds m.parameters "x" && last.1.Binds m.parameters "y"
          && !last.1.Binds m.parameters "z" && !last.1.closed.contains "z"
          && last.1.frames.length = 1) = true ∧
        c.hasMember "x" = true ∧ c.hasMember "y" = true ∧ c.hasMember "z" = true ∧
        c.qualified "z" = "T.z" :=
    exists_eq_ok (by decide +kernel)
  obtain ⟨u, hu, c, hc, m, hm, body, hbody, hlast, hx, hy, hz, hqualified⟩ := hfound
  have hemits : EmitsBody c 2 m.parameters body := .method hm (Option.mem_toList.1 hbody)
  obtain ⟨⟨p, s⟩, hplace, hlast⟩ := (Option.any_eq_true _ _).1 hlast
  simp only [Bool.and_eq_true, decide_eq_true_eq, Bool.not_eq_true', decide_eq_false_iff_not,
    List.contains_eq_mem] at hlast
  obtain ⟨⟨⟨⟨⟨hemitted, hbindsX⟩, hbindsY⟩, hbindsZ⟩, hclosed⟩, hframes⟩ := hlast
  obtain ⟨⟨head, e⟩, hemitted, htext⟩ := (Option.any_eq_true _ _).1 hemitted
  simp only [Bool.and_eq_true, decide_eq_true_eq] at htext
  obtain ⟨rfl, htext⟩ := htext
  have hfill := Place.fill_of_last? hplace
  obtain ⟨ρ, ⟨rest, hrest⟩, hρ⟩ := (bare_names_at_place hemits).2.2 p s "" e hfill hemitted
  rw [hframes] at hrest
  refine ⟨u, hu, c, hc, m, hm, body, p, s, e, hemits, hfill, hemitted, htext, ρ, ?_, ?_, ?_, _,
    rest, hrest⟩
  · rw [(hρ "x" hx).1, if_pos (.inl hbindsX)]
    decide
  · rw [(hρ "y" hy).1, if_pos (.inl hbindsY)]
    decide
  · rw [(hρ "z" hz).1, if_neg (not_or.2 ⟨hbindsZ, hclosed⟩), hqualified]

/-- A local of a block hides the member of its name after the block, where it is bound
no longer. -/
theorem closed_block_hides_member :
    ∃ u, compile "class T { int x; void M() { { int x = 1; } x = 2; } }" = .ok u ∧
      ∃ c ∈ u.classes, ∃ m ∈ c.methods, ∃ (body : Block) (p : Place) (s : Stmt) (e : Expr),
        m.body = some body ∧ p.fill s = body.body ∧ s.emitted? = some ("", e) ∧
        exprText none e = "x = 2" ∧ c.hasInstanceMember "x" = true ∧ ¬ p.Binds m.parameters "x" ∧
        bodyLines 2 ((Scope.ofClass c).declareParameters m.parameters) body =
          [.code 2 "\x7b", .code 3 "let x = 1;", .code 2 "\x7d", .code 2 "x = 2;"] := by
  have hfound : ∃ u,
      compile "class T { int x; void M() { { int x = 1; } x = 2; } }" = .ok u ∧
      ∃ c ∈ u.classes, ∃ m ∈ c.methods, ∃ body ∈ m.body.toList, (Place.last? body.body).any
        (fun last => last.2.emitted?.any (fun emitted => emitted.1 = "" &&
            exprText none emitted.2 = "x = 2")
          && !last.1.Binds m.parameters "x") = true ∧
        c.hasInstanceMember "x" = true ∧
        bodyLines 2 ((Scope.ofClass c).declareParameters m.parameters) body =
          [.code 2 "\x7b", .code 3 "let x = 1;", .code 2 "\x7d", .code 2 "x = 2;"] :=
    exists_eq_ok (by decide +kernel)
  obtain ⟨u, hu, c, hc, m, hm, body, hbody, hlast, hinstance, hlines⟩ := hfound
  obtain ⟨⟨p, s⟩, hplace, hlast⟩ := (Option.any_eq_true _ _).1 hlast
  simp only [Bool.and_eq_true, Bool.not_eq_true', decide_eq_false_iff_not] at hlast
  obtain ⟨hemitted, hbinds⟩ := hlast
  obtain ⟨⟨head, e⟩, hemitted, htext⟩ := (Option.any_eq_true _ _).1 hemitted
  simp only [Bool.and_eq_true, decide_eq_true_eq] at htext
  obtain ⟨rfl, htext⟩ := htext
  exact ⟨u, hu, c, hc, m, hm, body, p, s, e, Option.mem_toList.1 hbody,
    Place.fill_of_last? hplace, hemitted, htext, hinstance, hbinds, hlines⟩

end Script

end ClassScript

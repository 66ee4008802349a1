import Mathlib.Data.List.Basic
import Mathlib.Data.List.Induction
import ClassScript.Proofs.Check.Findings
import ClassScript.Proofs.Parse.Declarations
import ClassScript.Script.Program

/-!
# Constructors that the script drops

The script of a class has a place for one constructor of the instances and for one
static constructor. All others are dropped: their bodies can be replaced by anything
without a change to the script (`ClassDecl.Drops`). Those are the constructors that
come after another of their kind (`ClassDecl.drops_iff_repeats`).

The checks remember only whether there was a constructor of the instances. They warn at
each of these that is dropped, and are silent about a second static constructor
(`warned_and_dropped_constructors`).
-/

namespace ClassScript

/-- The member with another body, if it is a constructor. -/
def Member.withBody (body : Block) : Member → Member
  | .constructor k => .constructor { k with body := body }
  | m => m

namespace ClassDecl

/-- The class with another body for the constructor at a place among the members. -/
def setBody (c : ClassDecl) (i : Nat) (body : Block) : ClassDecl :=
  { c with members := c.members.modify i (Member.withBody body) }

/-- There is a constructor at the place, and the script of the class is the same
whatever its body is. -/
def Drops (c : ClassDecl) (i : Nat) : Prop :=
  (∃ k, c.members[i]? = some (.constructor k)) ∧
    ∀ body, Script.classLines (c.setBody i body) = Script.classLines c

/-! ### The script of a class with another body -/

section

variable (c : ClassDecl) (i : Nat) (body : Block)

/-- What is taken from the members without looking at bodies of constructors stays the same. -/
theorem filterMap_setBody {β : Type} {f : Member → Option β}
    (hf : ∀ m : Member, f (m.withBody body) = f m) :
    (c.setBody i body).members.filterMap f = c.members.filterMap f := by
  simp only [setBody]
  generalize c.members = ms
  induction ms generalizing i with
  | nil => simp
  | cons m ms ih =>
    cases i with
    | zero => simp [List.filterMap_cons, hf]
    | succ i => simp [List.filterMap_cons, ih]

theorem methods_setBody : (c.setBody i body).methods = c.methods :=
  filterMap_setBody c i body fun m => by cases m <;> rfl

theorem properties_setBody : (c.setBody i body).properties = c.properties :=
  filterMap_setBody c i body fun m => by cases m <;> rfl

theorem slots_setBody :
    (c.setBody i body).members.filterMap Script.slot? = c.members.filterMap Script.slot? :=
  filterMap_setBody c i body fun m => by cases m <;> rfl

/-- Constructors are not reached by name. -/
theorem ofClass_setBody : Script.Scope.ofClass (c.setBody i body) = Script.Scope.ofClass c := by
  have hnamed : (c.setBody i body).members.filter Script.Scope.isNamed =
      c.members.filter Script.Scope.isNamed := by
    rw [← List.filterMap_eq_filter]
    exact filterMap_setBody c i body fun m => by cases m <;> rfl
  rw [Script.Scope.ofClass, Script.Scope.ofClass, hnamed]
  rfl

/-- Only the section of the constructor can see another body. -/
theorem classSections_setBody (level : Nat) :
    Script.classSections level (c.setBody i body) =
      Script.slotSection level c
        ++ (Script.instanceConstructor? (c.setBody i body)).toList.map
            (Script.constructorLines level c)
        ++ c.properties.map (Script.accessorLines level)
        ++ c.methods.map (Script.methodLines level c) := by
  have hslots : Script.slotSection level (c.setBody i body) = Script.slotSection level c := by
    rw [Script.slotSection, Script.slotSection, Script.instanceSlots, Script.instanceSlots,
      slots_setBody, ofClass_setBody]
  have hconstructor : Script.constructorLines level (c.setBody i body) =
      Script.constructorLines level c := by
    funext k
    rw [Script.constructorLines, Script.constructorLines, ofClass_setBody]
    rfl
  have hmethod : Script.methodLines level (c.setBody i body) = Script.methodLines level c := by
    funext m
    rw [Script.methodLines, Script.methodLines, ofClass_setBody]
    rfl
  rw [Script.classSections, hslots, hconstructor, hmethod, properties_setBody, methods_setBody]

/-- Behind the class, only the block of the static constructor can see another body. -/
theorem staticLines_setBody :
    Script.staticLines (c.setBody i body) =
      (Script.staticSlots c).map (fun s =>
          .code 0 (c.name ++ "." ++ s.name ++ " = " ++ s.value (Script.Scope.ofClass c) ++ ";"))
        ++ (match Script.staticConstructor? (c.setBody i body) with
          | some k =>
            .code 0 "\x7b" :: Script.bodyLines 1 (Script.Scope.ofClass c) k.body ++ [.code 0 "\x7d"]
          | none => []) := by
  rw [Script.staticLines, Script.staticSlots, slots_setBody, ofClass_setBody]
  rfl

end

/-! ### Which constructors are dropped -/

/-- Is there a constructor at the place, and an earlier one of its kind? -/
def repeats (members : List Member) (i : Nat) : Bool :=
  match members[i]? with
  | some (.constructor k) =>
    ((members.take i).filterMap Member.constructor?).any (·.isStatic == k.isStatic)
  | _ => false

theorem instanceConstructor?_eq (c : ClassDecl) :
    Script.instanceConstructor? c = c.constructors.find? (·.isStatic == false) := by
  simp [Script.instanceConstructor?]

theorem staticConstructor?_eq (c : ClassDecl) :
    Script.staticConstructor? c = c.constructors.find? (·.isStatic == true) := by
  simp [Script.staticConstructor?]

/-- Between any two sections stands one blank line. -/
theorem length_separated (sections : List (List Script.Line)) :
    (Script.separated sections).length = sections.flatten.length + (sections.length - 1) := by
  induction sections with
  | nil => rfl
  | cons lines sections ih =>
    cases sections with
    | nil => simp [Script.separated]
    | cons lines' sections =>
      simp only [Script.separated, List.length_append, List.length_cons, List.flatten_cons] at ih ⊢
      omega

section

variable {c : ClassDecl} {i : Nat} {k : Constructor} (h : c.members[i]? = some (.constructor k))

include h

theorem setBody_self : c.setBody i k.body = c := by
  have hmembers : c.members.modify i (Member.withBody k.body) = c.members := by
    apply List.ext_getElem?
    intro j
    rw [List.getElem?_modify]
    by_cases hj : i = j
    · subst hj
      simp [h, Member.withBody]
    · simp [hj]
  rw [setBody, hmembers]

/-- The first constructor of a kind is looked for before the place, at it and behind it. -/
theorem find?_setBody (body : Block) (static : Bool) :
    (c.setBody i body).constructors.find? (·.isStatic == static) =
      (((c.members.take i).filterMap Member.constructor?).find? (·.isStatic == static)).or
        (if k.isStatic = static then some { k with body := body }
          else ((c.members.drop (i + 1)).filterMap Member.constructor?).find?
            (·.isStatic == static)) := by
  obtain ⟨hi, hk⟩ := List.getElem?_eq_some_iff.1 h
  rw [constructors, setBody, List.modify_eq_take_cons_drop hi, hk]
  by_cases hstatic : k.isStatic = static <;>
    simp [List.find?_append, Member.withBody, Member.constructor?, hstatic]

/-- A constructor repeats if the search for its kind ends before its place. -/
theorem repeats_eq_true_iff :
    repeats c.members i = true ↔
      (((c.members.take i).filterMap Member.constructor?).find?
        (·.isStatic == k.isStatic)).isSome := by
  simp only [repeats, h, List.find?_isSome, List.any_eq_true]

/-- The body of a constructor does not matter for those of the other kind, nor if
there is an earlier one of its own. -/
theorem find?_setBody_eq (body : Block) {static : Bool}
    (hother : k.isStatic = static → repeats c.members i = true) :
    (c.setBody i body).constructors.find? (·.isStatic == static) =
      c.constructors.find? (·.isStatic == static) := by
  have hself := find?_setBody h k.body static
  rw [setBody_self h] at hself
  rw [hself, find?_setBody h]
  by_cases hstatic : k.isStatic = static
  · have hearlier := (repeats_eq_true_iff h).1 (hother hstatic)
    rw [hstatic] at hearlier
    rw [Option.or_of_isSome hearlier, Option.or_of_isSome hearlier]
  · simp [hstatic]

/-- If there is none of its kind before, a constructor is the one that is found. -/
theorem find?_setBody_first (body : Block) (hfirst : repeats c.members i = false) {static : Bool}
    (hkind : k.isStatic = static) :
    (c.setBody i body).constructors.find? (·.isStatic == static) =
      some { k with body := body } := by
  have hearlier := mt (repeats_eq_true_iff h).2 (by simp [hfirst])
  rw [hkind, Option.not_isSome_iff_eq_none] at hearlier
  rw [find?_setBody h, hearlier, if_pos hkind, Option.none_or]

theorem find?_first (hfirst : repeats c.members i = false) {static : Bool}
    (hkind : k.isStatic = static) : c.constructors.find? (·.isStatic == static) = some k := by
  have hself := find?_setBody_first h k.body hfirst hkind
  rw [setBody_self h] at hself
  exact hself

/-- A constructor that is not the first of its kind does not reach the script. -/
theorem classLines_setBody_of_repeats (body : Block) (hrepeats : repeats c.members i = true) :
    Script.classLines (c.setBody i body) = Script.classLines c := by
  have hinstance : Script.instanceConstructor? (c.setBody i body) =
      Script.instanceConstructor? c := by
    rw [instanceConstructor?_eq, instanceConstructor?_eq, find?_setBody_eq h body fun _ => hrepeats]
  have hstatic : Script.staticConstructor? (c.setBody i body) = Script.staticConstructor? c := by
    rw [staticConstructor?_eq, staticConstructor?_eq, find?_setBody_eq h body fun _ => hrepeats]
  rw [Script.classLines, classSections_setBody, staticLines_setBody, hinstance, hstatic]
  rfl

/-- The script of a class grows by as much as its first constructor does. -/
theorem length_classSections_setBody (body : Block) (hfirst : repeats c.members i = false)
    (hkind : k.isStatic = false) :
    (Script.separated (Script.classSections 1 (c.setBody i body))).length
        + (Script.constructorLines 1 c k).length =
      (Script.separated (Script.classSections 1 c)).length
        + (Script.constructorLines 1 c { k with body := body }).length := by
  have hnew := find?_setBody_first h body hfirst hkind
  have hold := find?_first h hfirst hkind
  rw [← instanceConstructor?_eq] at hnew hold
  rw [classSections_setBody, Script.classSections, hnew, hold]
  simp only [length_separated, List.flatten_append, List.length_append, Option.toList_some,
    List.map_cons, List.map_nil, List.flatten_cons, List.length_cons]
  omega

/-- The same of the first static constructor, whose block stands behind the class. -/
theorem length_staticLines_setBody (body : Block) (hfirst : repeats c.members i = false)
    (hkind : k.isStatic = true) :
    (Script.staticLines (c.setBody i body)).length
        + (Script.bodyLines 1 (Script.Scope.ofClass c) k.body).length =
      (Script.staticLines c).length
        + (Script.bodyLines 1 (Script.Scope.ofClass c) body).length := by
  have hnew := find?_setBody_first h body hfirst hkind
  have hold := find?_first h hfirst hkind
  rw [← staticConstructor?_eq] at hnew hold
  rw [staticLines_setBody, Script.staticLines, hnew, hold]
  simp only [List.length_append, List.length_cons]
  omega

/-- With one more statement in the body of a constructor that is the first of its kind,
the script of the class has one more line. -/
theorem length_classLines_setBody_first (span : Span) (hfirst : repeats c.members i = false) :
    (Script.classLines
        (c.setBody i ⟨.return none span :: k.body.body, k.body.span⟩)).length =
      (Script.classLines c).length + 1 := by
  generalize hbody : (⟨.return none span :: k.body.body, k.body.span⟩ : Block) = body
  have hlonger : ∀ level scope, (Script.bodyLines level scope body).length =
      (Script.bodyLines level scope k.body).length + 1 := by
    simp [← hbody, Script.bodyLines, Script.stmtsLines, Script.stmtLines]
  have hparts : ∀ c : ClassDecl, (Script.classLines c).length =
      (Script.separated (Script.classSections 1 c)).length + (Script.staticLines c).length + 2 := by
    intro c
    simp only [Script.classLines, List.length_append, List.length_cons]
    omega
  rw [hparts, hparts]
  cases hkind : k.isStatic with
  | false =>
    have hsections := length_classSections_setBody h body hfirst hkind
    have hlines : (Script.constructorLines 1 c { k with body := body }).length =
        (Script.constructorLines 1 c k).length + 1 := by
      simp [Script.constructorLines, hlonger]
      omega
    have hstatics : Script.staticLines (c.setBody i body) = Script.staticLines c := by
      rw [staticLines_setBody, staticConstructor?_eq, find?_setBody_eq h body (by simp [hkind]),
        ← staticConstructor?_eq]
      rfl
    rw [hstatics]
    omega
  | true =>
    have hstatics := length_staticLines_setBody h body hfirst hkind
    have hsections : Script.classSections 1 (c.setBody i body) = Script.classSections 1 c := by
      rw [classSections_setBody, instanceConstructor?_eq, find?_setBody_eq h body (by simp [hkind]),
        ← instanceConstructor?_eq]
      rfl
    rw [hsections]
    have := hlonger 1 (Script.Scope.ofClass c)
    omega

end

/-- The first of a kind is not dropped, since a longer body makes a longer script. -/
theorem drops_iff_repeats (c : ClassDecl) (i : Nat) : c.Drops i ↔ repeats c.members i = true := by
  constructor
  · intro ⟨⟨k, h⟩, hbody⟩
    by_contra hfirst
    have hlength := length_classLines_setBody_first h default (by simpa using hfirst)
    rw [hbody] at hlength
    omega
  · intro hrepeats
    obtain ⟨k, h⟩ : ∃ k, c.members[i]? = some (.constructor k) := by
      rw [repeats] at hrepeats
      split at hrepeats
      · exact ⟨_, by assumption⟩
      · cases hrepeats
    exact ⟨⟨k, h⟩, fun body => classLines_setBody_of_repeats h body hrepeats⟩

instance (c : ClassDecl) (i : Nat) : Decidable (c.Drops i) :=
  decidable_of_iff _ (drops_iff_repeats c i).symm

/-- The constructors that are dropped, in order. -/
def dropped (c : ClassDecl) : List Constructor :=
  c.members.zipIdx.filterMap fun p => if c.Drops p.2 then p.1.constructor? else none

/-- Later members do not matter. -/
theorem repeats_append {members : List Member} {i : Nat} (hi : i < members.length) (m : Member) :
    repeats (members ++ [m]) i = repeats members i := by
  rw [repeats, repeats, List.getElem?_append_left hi,
    List.take_append_of_le_length (Nat.le_of_lt hi)]

/-- The constructors that repeat an earlier one of their kind. -/
def repeated (members : List Member) : List Constructor :=
  members.zipIdx.filterMap fun p => if repeats members p.2 then p.1.constructor? else none

theorem dropped_eq (c : ClassDecl) : c.dropped = repeated c.members := by
  simp only [dropped, repeated, drops_iff_repeats]

theorem repeats_length (members : List Member) (k : Constructor) :
    repeats (members ++ [.constructor k]) members.length =
      (members.filterMap Member.constructor?).any (·.isStatic == k.isStatic) := by
  rw [repeats, List.getElem?_append_right (Nat.le_refl _), Nat.sub_self, List.take_left]
  rfl

/-- The members are walked through from the left, as the checks do. -/
theorem repeated_append (members : List Member) (m : Member) :
    repeated (members ++ [m]) = repeated members ++
      (if repeats (members ++ [m]) members.length then m.constructor?.toList else []) := by
  have hearlier : ∀ p ∈ members.zipIdx,
      (if repeats (members ++ [m]) p.2 then p.1.constructor? else none) =
        if repeats members p.2 then p.1.constructor? else none := by
    intro p hp
    rw [repeats_append (List.snd_lt_of_mem_zipIdx hp)]
  rw [repeated, List.zipIdx_append, List.filterMap_append, List.filterMap_congr hearlier,
    repeated]
  congr 1
  by_cases hm : repeats (members ++ [m]) members.length
  · cases hk : m.constructor? <;> simp [hm, hk]
  · simp [hm]

/-- Of each kind, all constructors but the first are repeated ones. -/
theorem filter_repeated (members : List Member) (static : Bool) :
    (repeated members).filter (·.isStatic == static) =
      ((members.filterMap Member.constructor?).filter (·.isStatic == static)).tail := by
  induction members using List.reverseRecOn with
  | nil => rfl
  | append_singleton members m ih =>
    rw [repeated_append, List.filter_append, ih, List.filterMap_append, List.filter_append]
    cases m with
    | constructor k =>
      rw [repeats_length]
      generalize members.filterMap Member.constructor? = earlier
      by_cases hkind : k.isStatic = static
      · subst hkind
        have hany : earlier.any (·.isStatic == k.isStatic) = true ↔
            earlier.filter (·.isStatic == k.isStatic) ≠ [] := by
          simp [List.filter_eq_nil_iff]
        by_cases hnil : earlier.filter (·.isStatic == k.isStatic) = []
        · rw [if_neg (mt hany.1 (not_not.2 hnil)), hnil]
          simp [Member.constructor?]
        · rw [if_pos (hany.2 hnil), List.tail_append_of_ne_nil hnil]
          rfl
      · split <;> simp [Member.constructor?, hkind]
    | _ => simp [Member.constructor?, List.filterMap_cons]

/-- Of the static constructors all are dropped but the first. -/
theorem length_dropped (c : ClassDecl) :
    c.dropped.length = (c.dropped.filter (·.isStatic == false)).length
      + ((c.constructors.filter (·.isStatic == true)).length - 1) := by
  have hkinds : c.dropped.length = (c.dropped.filter (·.isStatic == false)).length
      + (c.dropped.filter (·.isStatic == true)).length := by
    simpa using c.dropped.length_eq_length_filter_add (·.isStatic == false)
  have hstatic : c.dropped.filter (·.isStatic == true) =
      (c.constructors.filter (·.isStatic == true)).tail := by
    rw [dropped_eq, filter_repeated]
    rfl
  rw [hkinds, hstatic, List.length_tail]

end ClassDecl

/-! ### Warnings -/

namespace Check

/-- Is the finding that a constructor comes after another? -/
def Finding.isExtraConstructor : Finding → Bool
  | .extraConstructor _ => true
  | _ => false

/-- The warnings about constructors of a class. -/
def constructorWarnings (source : List Char) (c : ClassDecl) : List Diagnostic :=
  (classDiagnostics source c).filter (·.finding.isExtraConstructor)

/-- The warning at a constructor of a class. -/
def constructorWarning (source : List Char) (c : ClassDecl) (k : Constructor) : Diagnostic :=
  ⟨.extraConstructor c.name, nameSpan source k.name k.span⟩

theorem isExtraConstructor_ofDeclarations : OfDeclarations Finding.isExtraConstructor :=
  ⟨fun _ => rfl, fun _ _ => rfl, fun _ => rfl, fun _ _ => rfl⟩

/-- Other members than constructors are not mistaken for one. -/
theorem declare_of_constructor?_eq_none (d : Declared) (className : String) {m : Member}
    (hm : m.constructor? = none) :
    (d.declare className m).1.hasConstructor = d.hasConstructor ∧
      (d.declare className m).2.filter Finding.isExtraConstructor = none := by
  have hname : ∀ name kind, (d.addName name kind).hasConstructor = d.hasConstructor := by
    intro name kind
    rw [Declared.addName]
    split <;> rfl
  cases m with
  | constructor k => simp [Member.constructor?] at hm
  | method m =>
    simp only [Declared.declare, hname, true_and]
    split <;> rfl
  | property p =>
    simp only [Declared.declare, hname, true_and]
    split <;> rfl
  | field f =>
    simp only [Declared.declare, hname, true_and]
    split <;> rfl

/-- All constructors of the instances get a warning, except the first of all. -/
theorem filter_membersDiagnostics (source : List Char) (c : ClassDecl) (d : Declared)
    (members : List Member) :
    (membersDiagnostics source c d members).filter (·.finding.isExtraConstructor) =
      let constructors := (members.filterMap Member.constructor?).filter (·.isStatic == false)
      (if d.hasConstructor then constructors else constructors.tail).map
        (constructorWarning source c) := by
  induction members generalizing d with
  | nil => simp [membersDiagnostics]
  | cons m members ih =>
    rw [isExtraConstructor_ofDeclarations.filter_membersDiagnostics_cons, ih]
    cases hm : m.constructor? with
    | none =>
      obtain ⟨hhas, hclash⟩ := declare_of_constructor?_eq_none d c.name hm
      simp [hhas, hclash, hm]
    | some k =>
      obtain rfl : m = .constructor k := by
        cases m <;> simp_all [Member.constructor?]
      by_cases hkind : k.isStatic
      · simp [Declared.declare, hkind, Member.constructor?]
      · by_cases hseen : d.hasConstructor
        · simp [Declared.declare, hkind, hseen, Member.constructor?, constructorWarning]
          rfl
        · simp [Declared.declare, hkind, hseen, Member.constructor?]

/-- The warnings are about dropped constructors, but never about a static one. -/
theorem constructorWarnings_eq (source : List Char) (c : ClassDecl) :
    constructorWarnings source c =
      (c.dropped.filter (·.isStatic == false)).map (constructorWarning source c) := by
  rw [constructorWarnings, classDiagnostics, filter_membersDiagnostics, ClassDecl.dropped_eq,
    ClassDecl.filter_repeated]
  rfl

end Check

/-- The checks warn at exactly those constructors of the instances that are dropped. So
there are as many warnings about a class as dropped constructors if and only if the
class has at most one static constructor. -/
theorem warned_and_dropped_constructors (unit : CompilationUnit) (source : String) :
    (check unit source).filter (·.finding.isExtraConstructor) =
      unit.classes.flatMap (Check.constructorWarnings source.toList) ∧
    ∀ c : ClassDecl,
      Check.constructorWarnings source.toList c =
        (c.dropped.filter (·.isStatic == false)).map
          (Check.constructorWarning source.toList c) ∧
      ((Check.constructorWarnings source.toList c).length = c.dropped.length ↔
        (c.constructors.filter (·.isStatic == true)).length ≤ 1) := by
  constructor
  · exact Check.isExtraConstructor_ofDeclarations.filter_classesDiagnostics _ [] unit.classes
  · intro c
    have hwarnings := Check.constructorWarnings_eq source.toList c
    constructor
    · exact hwarnings
    · rw [hwarnings, List.length_map, c.length_dropped]
      omega

/-- A second static constructor is dropped without a warning. -/
theorem second_static_constructor_silent :
    ∃ u, compile "class T { static T() { } static T() { x(); } }" = .ok u ∧
      check u "class T { static T() { } static T() { x(); } }" = [] ∧
      u.classes.map (·.dropped.length) = [1] :=
  exists_eq_ok (by decide +kernel)

end ClassScript

import Mathlib.Data.List.Pairwise
import ClassScript.Proofs.Check.DuplicateMembers
import ClassScript.Proofs.Script.Resolution

/-!
# The slots of a class

A field has a slot of its own name and a property one of a name that is made from its own.
The checks compare the names of the members and not those of the slots. In a class without
errors two slots still have different names, except for those of a field and a property
where the field has the name that is made for the property (`slots_shared_exactly`).
-/

namespace ClassScript

/-! ### Classes without errors -/

/-- In a class of a unit without errors no two members are in conflict. -/
theorem ClassDecl.pairwise_conflicts_of_check {unit : CompilationUnit} {source : String}
    (hcheck : ∀ d ∈ check unit source, d.isError = false) {c : ClassDecl}
    (hc : c ∈ unit.classes) : c.members.Pairwise fun a b => a.conflicts b = false := by
  have hnone : (check unit source).filter (·.finding.isDuplicateMember) = [] := by
    refine List.filter_eq_nil_iff.2 fun d hd hduplicate => ?_
    have hd := hcheck d hd
    obtain ⟨finding, span⟩ := d
    cases finding <;> cases hduplicate
    cases hd
  rw [check, Check.isDuplicateMember_ofDeclarations.filter_classesDiagnostics,
    List.flatMap_eq_nil_iff] at hnone
  have hrejected : Check.duplicateErrors source.toList c = [] := hnone c hc
  rw [Check.duplicateErrors_eq, List.map_eq_nil_iff] at hrejected
  have hpairwise := (pairwise_of_rejectedFrom_eq_nil hrejected).2
  rw [← List.zipIdx_map_fst 0 c.members]
  exact List.pairwise_map.2 hpairwise

namespace Script

/-! ### Slots with one name -/

/-- The field has the name that is made for the slot of the property. -/
def Shares (f : Field) (p : Property) : Prop :=
  f.isStatic = p.isStatic ∧ f.name = backingSlot p.name

theorem backingSlot_inj {x y : String} (h : backingSlot x = backingSlot y) : x = y := by
  simpa [backingSlot, ← String.toList_inj] using h

/-- One of the members is a property, and the other a field that shares its slot. -/
def SharedSlot (a b : Member) : Prop :=
  ∃ f p, Shares f p ∧ (a = .field f ∧ b = .property p ∨ a = .property p ∧ b = .field f)

/-- Two fields or two properties without conflict have different slots. -/
theorem sharedSlot_of_name_eq {a b : Member} {s t : Slot} (hconflict : a.conflicts b = false)
    (hs : slot? a = some s) (ht : slot? b = some t) (hstatic : s.isStatic = t.isStatic)
    (hname : s.name = t.name) : SharedSlot a b := by
  cases a with
  | field f =>
    cases hs
    cases b with
    | field g =>
      cases ht
      have hne : f.name ≠ g.name := by simpa [Member.conflicts, Member.name] using hconflict
      exact absurd hname hne
    | property p =>
      cases ht
      exact ⟨f, p, ⟨hstatic, hname⟩, .inl ⟨rfl, rfl⟩⟩
    | _ => cases ht
  | property p =>
    cases hs
    cases b with
    | field f =>
      cases ht
      exact ⟨f, p, ⟨hstatic.symm, hname.symm⟩, .inr ⟨rfl, rfl⟩⟩
    | property q =>
      cases ht
      have hne : p.name ≠ q.name := by simpa [Member.conflicts, Member.name] using hconflict
      exact absurd (backingSlot_inj hname) hne
    | _ => cases ht
  | _ => cases hs

/-- The slots of two members have different names, where both are of the class or both of its
instances. -/
def SlotsApart (isStatic : Bool) (a b : Member) : Prop :=
  ∀ s, slot? a = some s → ∀ t, slot? b = some t →
    s.isStatic = isStatic → t.isStatic = isStatic → s.name ≠ t.name

instance (isStatic : Bool) : Std.Symm (SlotsApart isStatic) where
  symm _ _ h s hs t ht hstatic hstatic' := (h t ht s hs hstatic' hstatic).symm

/-- The names of the slots, in the words of their members. -/
theorem nodup_slots_iff_pairwise (members : List Member) (isStatic : Bool) :
    (((members.filterMap slot?).filter (·.isStatic = isStatic)).map Slot.name).Nodup ↔
      members.Pairwise (SlotsApart isStatic) := by
  simp only [List.Nodup, List.pairwise_map, List.pairwise_filter, List.pairwise_filterMap,
    decide_eq_true_eq]
  exact Iff.rfl

/-- Where no two members are in conflict, only a field and a property can share a slot. -/
theorem pairwise_slotsApart_iff {members : List Member}
    (h : members.Pairwise fun a b => a.conflicts b = false) (isStatic : Bool) :
    members.Pairwise (SlotsApart isStatic) ↔
      ∀ f p, .field f ∈ members → .property p ∈ members → f.isStatic = isStatic →
        ¬ Shares f p := by
  constructor
  · intro hapart f p hf hp hstatic ⟨hsame, hname⟩
    have hfp : SlotsApart isStatic (.field f) (.property p) := hapart.forall hf hp (by simp)
    exact hfp _ rfl _ rfl hstatic (hsame ▸ hstatic) hname
  · intro hshares
    refine h.imp_of_mem fun {a b} ha hb hconflict s hs t ht hstatic hstatic' hname => ?_
    obtain ⟨f, p, hfp, ⟨rfl, rfl⟩ | ⟨rfl, rfl⟩⟩ :=
      sharedSlot_of_name_eq hconflict hs ht (hstatic.trans hstatic'.symm) hname
    · cases hs
      exact hshares f p ha hb hstatic hfp
    · cases ht
      exact hshares f p hb ha hstatic' hfp

theorem mem_fields_iff {c : ClassDecl} {f : Field} : f ∈ c.fields ↔ .field f ∈ c.members := by
  rw [ClassDecl.fields, List.mem_filterMap]
  constructor
  · intro ⟨m, hm, hf⟩
    cases m <;> cases hf
    exact hm
  · intro hf
    exact ⟨_, hf, rfl⟩

theorem mem_properties_iff {c : ClassDecl} {p : Property} :
    p ∈ c.properties ↔ .property p ∈ c.members := by
  rw [ClassDecl.properties, List.mem_filterMap]
  constructor
  · intro ⟨m, hm, hp⟩
    cases m <;> cases hp
    exact hm
  · intro hp
    exact ⟨_, hp, rfl⟩

/-- The slots of instances and of the class are those of its members. -/
theorem instanceSlots_eq (c : ClassDecl) :
    instanceSlots c = (c.members.filterMap slot?).filter (·.isStatic = false) := by
  simp [instanceSlots]

theorem staticSlots_eq (c : ClassDecl) :
    staticSlots c = (c.members.filterMap slot?).filter (·.isStatic = true) := by
  simp [staticSlots]

/-- The line that sets up a slot, with what stands before its name. -/
def slotLine (c : ClassDecl) (level : Nat) (before : String) (s : Slot) : Line :=
  .code level (before ++ s.name ++ " = " ++ s.value (Scope.ofClass c) ++ ";")

/-- Each slot has its line, in the order of the members. -/
theorem infix_instanceSlots (c : ClassDecl) :
    (instanceSlots c).map (slotLine c 1 "") <:+: classLines c := by
  cases hslots : instanceSlots c with
  | nil => exact List.nil_infix
  | cons s slots =>
    refine infix_classLines ?_
    simp [classSections, slotSection, hslots, slotLine]

theorem infix_staticSlots (c : ClassDecl) :
    (staticSlots c).map (slotLine c 0 (c.name ++ ".")) <:+: classLines c := by
  have hstatic : (staticSlots c).map (slotLine c 0 (c.name ++ ".")) <+: staticLines c :=
    List.prefix_append _ _
  exact hstatic.isInfix.trans ((List.suffix_cons _ _).trans (List.suffix_append _ _)).isInfix

/-- In a class of a unit without errors, the lines that set up the slots are known, and two
slots have one name exactly if they are those of a property and of a field that has the name
made for it. So it is for the slots of the instances and for those of the class. -/
theorem slots_shared_exactly {unit : CompilationUnit} {source : String}
    (hcheck : ∀ d ∈ check unit source, d.isError = false) {c : ClassDecl}
    (hc : c ∈ unit.classes) :
    (instanceSlots c).map (slotLine c 1 "") <:+: classLines c ∧
    (staticSlots c).map (slotLine c 0 (c.name ++ ".")) <:+: classLines c ∧
    (((instanceSlots c).map Slot.name).Nodup ↔
      ∀ f ∈ c.fields, ∀ p ∈ c.properties, f.isStatic = false → ¬ Shares f p) ∧
    (((staticSlots c).map Slot.name).Nodup ↔
      ∀ f ∈ c.fields, ∀ p ∈ c.properties, f.isStatic = true → ¬ Shares f p) ∧
    c.members.Pairwise fun a b => ∀ s ∈ slot? a, ∀ t ∈ slot? b,
      s.isStatic = t.isStatic → (s.name = t.name ↔ SharedSlot a b) := by
  have hpairwise := ClassDecl.pairwise_conflicts_of_check hcheck hc
  have hslots : ∀ isStatic : Bool,
      (((c.members.filterMap slot?).filter (·.isStatic = isStatic)).map Slot.name).Nodup ↔
        ∀ f ∈ c.fields, ∀ p ∈ c.properties, f.isStatic = isStatic → ¬ Shares f p := by
    intro isStatic
    rw [nodup_slots_iff_pairwise, pairwise_slotsApart_iff hpairwise]
    simp only [mem_fields_iff, mem_properties_iff]
    exact ⟨fun h f hf p hp => h f p hf hp, fun h f p hf hp => h f hf p hp⟩
  refine ⟨infix_instanceSlots c, infix_staticSlots c, ?_, ?_, ?_⟩
  · rw [instanceSlots_eq]
    exact hslots false
  · rw [staticSlots_eq]
    exact hslots true
  · refine hpairwise.imp fun {a b} hconflict s hs t ht hstatic => ?_
    constructor
    · exact sharedSlot_of_name_eq hconflict hs ht hstatic
    · rintro ⟨f, p, ⟨-, hname⟩, ⟨rfl, rfl⟩ | ⟨rfl, rfl⟩⟩
      · cases hs
        cases ht
        exact hname
      · cases hs
        cases ht
        exact hname.symm

/-- A static field may have the name made for a property of the instances. -/
theorem slots_shared_exactly_static :
    ∃ u,
      compile "class T { static int __P; int P { get; set; } int p; static int Q { get; set; } }" =
        .ok u ∧
      ∃ c ∈ u.classes, (instanceSlots c).map Slot.name = ["__P", "p"] ∧
        (staticSlots c).map Slot.name = ["__P", "__Q"] ∧
        (∀ d ∈ check u
          "class T { static int __P; int P { get; set; } int p; static int Q { get; set; } }",
          d.isError = false) ∧
        ∀ f ∈ c.fields, ∀ p ∈ c.properties, ¬ Shares f p := by
  have hfound : ∃ u,
      compile "class T { static int __P; int P { get; set; } int p; static int Q { get; set; } }" =
        .ok u ∧
      ∃ c ∈ u.classes, (instanceSlots c).map Slot.name = ["__P", "p"] ∧
        (staticSlots c).map Slot.name = ["__P", "__Q"] ∧
        ∀ d ∈ check u
          "class T { static int __P; int P { get; set; } int p; static int Q { get; set; } }",
          d.isError = false :=
    exists_eq_ok (by decide +kernel)
  obtain ⟨u, hu, c, hc, hinstance, hstatic, hcheck⟩ := hfound
  obtain ⟨-, -, hinstances, hstatics, -⟩ := slots_shared_exactly hcheck hc
  rw [hinstance] at hinstances
  rw [hstatic] at hstatics
  refine ⟨u, hu, c, hc, hinstance, hstatic, hcheck, fun f hf p hp => ?_⟩
  cases hsort : f.isStatic with
  | false => exact hinstances.1 (by decide) f hf p hp hsort
  | true => exact hstatics.1 (by decide) f hf p hp hsort

/-- A field with the name made for a property shares its slot, though the checks have nothing
to say about it. -/
theorem backing_field_shares_slot :
    ∃ u,
      compile
          "class T { int __P; int P { get; set; } static int __Q; static int Q { get; set; } }" =
        .ok u ∧
      check u
          "class T { int __P; int P { get; set; } static int __Q; static int Q { get; set; } }" =
        [] ∧
      ∃ c ∈ u.classes, (instanceSlots c).map Slot.name = ["__P", "__P"] ∧
        (staticSlots c).map Slot.name = ["__Q", "__Q"] :=
  exists_eq_ok (by decide +kernel)

end Script

end ClassScript

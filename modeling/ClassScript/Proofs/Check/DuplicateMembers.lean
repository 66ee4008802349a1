import Mathlib.Data.List.Basic
import ClassScript.Proofs.Check.Findings
import ClassScript.Proofs.Parse.Declarations

/-!
# Members declared twice

Some members cannot stand in one class (`Member.conflicts`). The checks go through a class
with a small table: for each name the kind of member that took it first, and the methods
by name and number of parameters. The table is not the list of the members seen so far,
since members that clash are noted too.

Nevertheless the checks report exactly the members that are rejected if members are kept
first come, first served (`ClassDecl.rejected`): a member is rejected if it conflicts with
one that was kept (`Check.Follows.declare`). So only a member with an earlier one in conflict
is reported, and a class without a report has no two members in conflict
(`duplicate_members_reported`).
-/

namespace ClassScript

/-! ### Conflicts -/

/-- Can a class not have both members? Two methods may have one name if they differ in the
number of parameters. A constructor is in nobody's way. -/
def Member.conflicts : Member → Member → Bool
  | .constructor _, _ => false
  | _, .constructor _ => false
  | .method a, .method b => a.name == b.name && a.parameters.length == b.parameters.length
  | a, b => a.name == b.name

namespace ClassDecl

/-- The members that are rejected, with their places, where `kept` are those kept so far. -/
def rejectedFrom (kept : List Member) : List (Member × Nat) → List (Member × Nat)
  | [] => []
  | (m, i) :: rest =>
    if kept.any (·.conflicts m) then (m, i) :: rejectedFrom kept rest
    else rejectedFrom (m :: kept) rest

/-- The members of a class that are rejected, with their places, if members are kept first
come, first served. -/
def rejected (c : ClassDecl) : List (Member × Nat) :=
  rejectedFrom [] c.members.zipIdx

/-- The members at the two places are in conflict. -/
def ConflictAt (c : ClassDecl) (j i : Nat) : Prop :=
  ∃ a b, c.members[j]? = some a ∧ c.members[i]? = some b ∧ a.conflicts b = true

end ClassDecl

/-! ### The table of the checks -/

namespace Check

/-- Is the finding that a member is already declared? -/
def Finding.isDuplicateMember : Finding → Bool
  | .duplicateMember _ _ => true
  | _ => false

/-- The errors about members of a class that are already declared. -/
def duplicateErrors (source : List Char) (c : ClassDecl) : List Diagnostic :=
  (classDiagnostics source c).filter (·.finding.isDuplicateMember)

/-- The error that a member of a class is already declared. -/
def duplicateError (source : List Char) (c : ClassDecl) (m : Member) : Diagnostic :=
  ⟨.duplicateMember c.name m.name, nameSpan source m.name m.span⟩

/-- The member is a field or property with the name. -/
def HoldsValue (name : String) : Member → Prop
  | .field f => f.name = name
  | .property p => p.name = name
  | _ => False

/-- The member is a method with the name and number of parameters. -/
def IsMethod (key : String × Nat) : Member → Prop
  | .method m => (m.name, m.parameters.length) = key
  | _ => False

/-- The member has the name for its own. -/
def TakesName (name : String) (m : Member) : Prop :=
  HoldsValue name m ∨ ∃ n, IsMethod (name, n) m

theorem takesName_method_iff {name : String} {m : Method} :
    TakesName name (.method m) ↔ name = m.name := by
  simp [TakesName, HoldsValue, IsMethod, eq_comm]

/-- A method is in conflict with a field or property of its name, or a method like it. -/
theorem conflicts_method_iff {k : Member} {m : Method} : k.conflicts (.method m) = true ↔
    HoldsValue m.name k ∨ IsMethod (m.name, m.parameters.length) k := by
  cases k <;> simp [Member.conflicts, HoldsValue, IsMethod, Member.name]

/-- A field or property is in conflict with all members of its name. -/
theorem conflicts_value_iff {k m : Member} (hm : HoldsValue m.name m) :
    k.conflicts m = true ↔ TakesName m.name k := by
  cases m <;> cases k <;>
    simp_all [Member.conflicts, TakesName, HoldsValue, IsMethod, Member.name]

section

variable {m : Member} (hm : HoldsValue m.name m)

include hm

theorem holdsValue_iff {name : String} : HoldsValue name m ↔ name = m.name := by
  cases m <;> simp_all [HoldsValue, Member.name, eq_comm]

theorem not_isMethod_of_holdsValue (key : String × Nat) : ¬ IsMethod key m := by
  cases m <;> simp_all [HoldsValue, IsMethod]

theorem takesName_value_iff {name : String} : TakesName name m ↔ name = m.name := by
  simp [TakesName, holdsValue_iff hm, not_isMethod_of_holdsValue hm]

end

/-- The table tells what members were kept: which names are taken, which of them by a field
or property, and for the others which methods there are. -/
structure Follows (d : Declared) (kept : List Member) : Prop where
  taken : ∀ name, (d.members.lookup name).isSome = true ↔ ∃ k ∈ kept, TakesName name k
  values : ∀ name, d.holdsValue name = true ↔ ∃ k ∈ kept, HoldsValue name k
  methods : ∀ key, d.holdsValue key.1 = false → (key ∈ d.methods ↔ ∃ k ∈ kept, IsMethod key k)

namespace Declared

variable (d : Declared) (name : String) (kind : MemberKind)

/-- The first member with a name decides on its entry. -/
theorem lookup_addName (other : String) :
    (d.addName name kind).members.lookup other =
      (d.members.lookup other).or (if other = name then some kind else none) := by
  rw [addName]
  by_cases htaken : (d.members.lookup name).isSome
  · rw [if_pos htaken]
    by_cases hother : other = name
    · rw [hother, Option.or_of_isSome htaken]
    · rw [if_neg hother, Option.or_none]
  · have hsingle : [(name, kind)].lookup other = if other = name then some kind else none := by
      by_cases hother : other = name <;> simp [hother]
    rw [if_neg htaken, List.lookup_append, hsingle]

/-- A name counts as that of a field or property if the first member of that name is one. -/
theorem holdsValue_addName (other : String) :
    (d.addName name kind).holdsValue other = true ↔
      d.holdsValue other = true ∨ other = name ∧ (d.members.lookup other).isSome = false ∧
        (kind = .field ∨ kind = .property) := by
  simp only [holdsValue, lookup_addName]
  by_cases hother : other = name
  · cases hlookup : d.members.lookup other with
    | none => cases kind <;> simp [hother]
    | some first => cases first <;> simp
  · simp [hother]

theorem isSome_lookup_addName (other : String) :
    ((d.addName name kind).members.lookup other).isSome = true ↔
      other = name ∨ (d.members.lookup other).isSome = true := by
  rw [lookup_addName, Option.isSome_or]
  by_cases hother : other = name <;> simp [hother]

theorem addName_methods : (d.addName name kind).methods = d.methods := by
  rw [addName]
  split <;> rfl

end Declared

/-- Before any member the table is empty. -/
theorem Follows.empty : Follows .empty [] := by
  constructor <;> simp [Declared.empty, Declared.holdsValue]

section

variable {d : Declared} {kept : List Member} (h : Follows d kept)

include h

/-- The table tells whether a method is in conflict with a kept member. -/
theorem Follows.clash_method (m : Method) :
    (d.holdsValue m.name = true ∨ (m.name, m.parameters.length) ∈ d.methods) ↔
      ∃ k ∈ kept, k.conflicts (.method m) = true := by
  simp only [conflicts_method_iff, and_or_left, exists_or, ← h.values]
  by_cases hvalue : d.holdsValue m.name = true
  · simp [hvalue]
  · rw [h.methods _ (by simpa using hvalue)]

/-- A method that is not kept is noted all the same, which tells nothing new. -/
theorem Follows.reject_method {m : Method}
    (hclash : d.holdsValue m.name = true ∨ (m.name, m.parameters.length) ∈ d.methods) :
    Follows { d.addName m.name .method with
      methods := d.methods.insert (m.name, m.parameters.length) } kept := by
  have htaken : (d.members.lookup m.name).isSome = true := by
    rw [h.taken]
    obtain ⟨k, hk, hconflict⟩ := (h.clash_method m).1 hclash
    exact ⟨k, hk, (conflicts_method_iff.1 hconflict).imp_right fun hm => ⟨_, hm⟩⟩
  have hsame : d.addName m.name .method = d := by
    rw [Declared.addName, if_pos htaken]
  rw [hsame]
  constructor
  · exact h.taken
  · exact h.values
  · intro key hvalue
    rw [← h.methods key hvalue, List.mem_insert_iff]
    constructor
    · intro hmem
      rcases hmem with rfl | hmem
      · exact hclash.resolve_left (ne_true_of_eq_false hvalue)
      · exact hmem
    · exact .inr

/-- The table goes on to follow if a method is kept. -/
theorem Follows.keep_method (m : Method) :
    Follows { d.addName m.name .method with
      methods := d.methods.insert (m.name, m.parameters.length) } (.method m :: kept) := by
  have hvalues : ∀ name, (d.addName m.name .method).holdsValue name = d.holdsValue name := by
    intro name
    rw [Bool.eq_iff_iff, Declared.holdsValue_addName]
    simp
  constructor
  · intro name
    rw [List.exists_mem_cons_iff, ← h.taken, takesName_method_iff]
    exact d.isSome_lookup_addName m.name .method name
  · intro name
    rw [List.exists_mem_cons_iff, ← h.values, ← hvalues]
    simp only [HoldsValue, false_or]
    exact Iff.rfl
  · intro key hkey
    have hkey : d.holdsValue key.1 = false := (hvalues key.1).symm.trans hkey
    rw [List.exists_mem_cons_iff, ← h.methods key hkey, List.mem_insert_iff]
    exact or_congr_left eq_comm

/-- A field or property clashes with every earlier member of its name. -/
theorem Follows.clash_value {m : Member} (hm : HoldsValue m.name m) :
    (d.members.lookup m.name).isSome = true ↔ ∃ k ∈ kept, k.conflicts m = true := by
  simp only [h.taken, conflicts_value_iff hm]

/-- A field or property that is kept is the first of its name. -/
theorem Follows.keep_value {m : Member} {kind : MemberKind} (hm : HoldsValue m.name m)
    (hkind : kind = .field ∨ kind = .property)
    (hfree : (d.members.lookup m.name).isSome = false) :
    Follows (d.addName m.name kind) (m :: kept) := by
  have hvalues : ∀ name, (d.addName m.name kind).holdsValue name = true ↔
      name = m.name ∨ d.holdsValue name = true := by
    intro name
    rw [Declared.holdsValue_addName, or_comm]
    refine or_congr_left ⟨And.left, ?_⟩
    rintro rfl
    exact ⟨rfl, hfree, hkind⟩
  constructor
  · intro name
    rw [List.exists_mem_cons_iff, ← h.taken, Declared.isSome_lookup_addName, takesName_value_iff hm]
  · intro name
    rw [List.exists_mem_cons_iff, ← h.values, hvalues, holdsValue_iff hm]
  · intro key hkey
    have hother : d.holdsValue key.1 = false := by
      rw [← Bool.not_eq_true] at hkey ⊢
      exact mt (fun hvalue => (hvalues key.1).2 (.inr hvalue)) hkey
    rw [List.exists_mem_cons_iff, ← h.methods key hother, Declared.addName_methods]
    exact (or_iff_right (not_isMethod_of_holdsValue hm key)).symm

/-- A constructor is not in the table of names. -/
theorem Follows.keep_constructor (k : Constructor) (hasConstructor : Bool) :
    Follows { d with hasConstructor } (.constructor k :: kept) := by
  constructor
  · intro name
    rw [List.exists_mem_cons_iff, ← h.taken]
    simp [TakesName, HoldsValue, IsMethod]
  · intro name
    rw [List.exists_mem_cons_iff, ← h.values]
    simp only [HoldsValue, false_or]
    exact Iff.rfl
  · intro key hkey
    rw [List.exists_mem_cons_iff, ← h.methods key hkey]
    simp [IsMethod]

/-- A field or property that is not kept changes nothing, since its name is taken. -/
theorem Follows.declare_value {m : Member} {kind : MemberKind} (hm : HoldsValue m.name m)
    (hkind : kind = .field ∨ kind = .property) :
    (d.members.lookup m.name).isSome = kept.any (·.conflicts m) ∧
    Follows (d.addName m.name kind) (if kept.any (·.conflicts m) then kept else m :: kept) := by
  have hclash : (d.members.lookup m.name).isSome = kept.any (·.conflicts m) := by
    rw [Bool.eq_iff_iff, h.clash_value hm, List.any_eq_true]
  refine ⟨hclash, ?_⟩
  rw [← hclash]
  by_cases htaken : (d.members.lookup m.name).isSome = true
  · rw [if_pos htaken, Declared.addName, if_pos htaken]
    exact h
  · rw [if_neg htaken]
    exact h.keep_value hm hkind (Bool.eq_false_iff.2 htaken)

/-- Both cases of a method: the table stays as it is or takes the method. -/
theorem Follows.declare_method (m : Method) :
    (d.holdsValue m.name || d.methods.contains (m.name, m.parameters.length)) =
      kept.any (·.conflicts (.method m)) ∧
    Follows { d.addName m.name .method with
        methods := d.methods.insert (m.name, m.parameters.length) }
      (if kept.any (·.conflicts (.method m)) then kept else .method m :: kept) := by
  have hclash : (d.holdsValue m.name || d.methods.contains (m.name, m.parameters.length)) =
      kept.any (·.conflicts (.method m)) := by
    rw [Bool.eq_iff_iff, Bool.or_eq_true, List.contains_iff_mem, h.clash_method, List.any_eq_true]
  refine ⟨hclash, ?_⟩
  by_cases hconflict : kept.any (·.conflicts (.method m)) = true
  · rw [if_pos hconflict]
    exact h.reject_method ((h.clash_method m).2 (List.any_eq_true.1 hconflict))
  · rw [if_neg hconflict]
    exact h.keep_method m

omit h in
theorem filter_duplicateMember (clash : Bool) (className name : String) :
    (if clash then some (Finding.duplicateMember className name) else none).filter
        Finding.isDuplicateMember =
      if clash then some (.duplicateMember className name) else none := by
  cases clash <;> rfl

/-- A member is reported if it conflicts with one that was kept, and the table goes on to
tell what is kept. -/
theorem Follows.declare (className : String) (m : Member) :
    (d.declare className m).2.filter Finding.isDuplicateMember =
      (if kept.any (·.conflicts m) then some (.duplicateMember className m.name) else none) ∧
    Follows (d.declare className m).1 (if kept.any (·.conflicts m) then kept else m :: kept) := by
  cases m with
  | constructor k =>
    have hfree : kept.any (·.conflicts (.constructor k)) = false := by
      rw [List.any_eq_false]
      intro m _
      cases m <;> simp [Member.conflicts]
    rw [hfree, Declared.declare]
    split
    · exact ⟨rfl, h.keep_constructor k d.hasConstructor⟩
    split
    · exact ⟨rfl, h.keep_constructor k d.hasConstructor⟩
    · exact ⟨rfl, h.keep_constructor k true⟩
  | method m =>
    obtain ⟨hclash, hfollows⟩ := h.declare_method m
    exact ⟨hclash ▸ filter_duplicateMember _ className m.name, hfollows⟩
  | field f =>
    obtain ⟨hclash, hfollows⟩ := h.declare_value (m := .field f) rfl (.inl rfl)
    exact ⟨hclash ▸ filter_duplicateMember _ className f.name, hfollows⟩
  | property p =>
    obtain ⟨hclash, hfollows⟩ := h.declare_value (m := .property p) rfl (.inr rfl)
    exact ⟨hclash ▸ filter_duplicateMember _ className p.name, hfollows⟩

end

/-! ### The reports -/

theorem isDuplicateMember_ofDeclarations : OfDeclarations Finding.isDuplicateMember :=
  ⟨fun _ => rfl, fun _ _ => rfl, fun _ => rfl, fun _ _ => rfl⟩

/-- By induction on the members, with the table following those that were kept. -/
theorem filter_membersDiagnostics_isDuplicateMember (source : List Char) (c : ClassDecl)
    {d : Declared} {kept : List Member} (h : Follows d kept) (members : List Member)
    (start : Nat) :
    (membersDiagnostics source c d members).filter (·.finding.isDuplicateMember) =
      (ClassDecl.rejectedFrom kept (members.zipIdx start)).map
        fun p => duplicateError source c p.1 := by
  induction members generalizing d kept start with
  | nil => rfl
  | cons m members ih =>
    obtain ⟨hfound, hfollows⟩ := h.declare c.name m
    rw [isDuplicateMember_ofDeclarations.filter_membersDiagnostics_cons, hfound,
      ih hfollows (start + 1), List.zipIdx_cons, ClassDecl.rejectedFrom]
    split <;> rfl

theorem duplicateErrors_eq (source : List Char) (c : ClassDecl) :
    duplicateErrors source c = c.rejected.map fun p => duplicateError source c p.1 :=
  filter_membersDiagnostics_isDuplicateMember source c .empty c.members 0

end Check

/-! ### First come, first served -/

namespace ClassDecl

/-- What is rejected conflicts with an earlier member. -/
theorem exists_of_mem_rejectedFrom {kept : List Member} {rest : List (Member × Nat)}
    {p : Member × Nat} (h : p ∈ rejectedFrom kept rest) :
    ∃ front back, rest = front ++ p :: back ∧
      ∃ k ∈ kept ++ front.map Prod.fst, k.conflicts p.1 = true := by
  fun_induction rejectedFrom kept rest with
  | case1 => simp at h
  | case2 kept m i rest hconflict ih =>
    rcases List.mem_cons.1 h with rfl | h
    · obtain ⟨k, hk, hkm⟩ := List.any_eq_true.1 hconflict
      exact ⟨[], rest, rfl, k, List.mem_append_left _ hk, hkm⟩
    · obtain ⟨front, back, rfl, k, hk, hkp⟩ := ih h
      refine ⟨(m, i) :: front, back, rfl, k, ?_, hkp⟩
      simp only [List.map_cons, List.mem_append, List.mem_cons] at hk ⊢
      exact hk.imp_right .inr
  | case3 kept m i rest hconflict ih =>
    obtain ⟨front, back, rfl, k, hk, hkp⟩ := ih h
    refine ⟨(m, i) :: front, back, rfl, k, ?_, hkp⟩
    simp only [List.map_cons, List.cons_append, List.mem_append, List.mem_cons] at hk ⊢
    rcases hk with hk | hk | hk
    · exact .inr (.inl hk)
    · exact .inl hk
    · exact .inr (.inr hk)

/-- If nothing is rejected, all members are kept and no two are in conflict. -/
theorem pairwise_of_rejectedFrom_eq_nil {kept : List Member} {rest : List (Member × Nat)}
    (h : rejectedFrom kept rest = []) :
    (∀ k ∈ kept, ∀ p ∈ rest, k.conflicts p.1 = false) ∧
      rest.Pairwise fun p q => p.1.conflicts q.1 = false := by
  fun_induction rejectedFrom kept rest with
  | case1 => simp
  | case2 => cases h
  | case3 kept m i rest hconflict ih =>
    obtain ⟨hkept, hrest⟩ := ih h
    obtain ⟨hm, hkept⟩ := List.forall_mem_cons.1 hkept
    constructor
    · intro k hk
      have hfree : k.conflicts m = false :=
        Bool.eq_false_iff.2 fun hkm => hconflict (List.any_eq_true.2 ⟨k, hk, hkm⟩)
      exact List.forall_mem_cons.2 ⟨hfree, hkept k hk⟩
    · exact List.pairwise_cons.2 ⟨hm, hrest⟩

/-- A member is rejected because of an earlier one. -/
theorem conflictAt_of_mem_rejected {c : ClassDecl} {m : Member} {i : Nat}
    (h : (m, i) ∈ c.rejected) : c.members[i]? = some m ∧ ∃ j < i, c.ConflictAt j i := by
  obtain ⟨front, back, hmembers, k, hk, hkm⟩ := exists_of_mem_rejectedFrom h
  -- The places in the list of places are the places in the class.
  have hplace : ∀ j : Nat, (front ++ (m, i) :: back)[j]? = c.members[j]?.map (·, j) := by
    intro j
    rw [← hmembers, List.getElem?_zipIdx, Nat.zero_add]
  have hself := hplace front.length
  rw [List.getElem?_append_right (Nat.le_refl _), Nat.sub_self, List.getElem?_cons_zero] at hself
  obtain ⟨m', hm', hpair⟩ := Option.map_eq_some_iff.1 hself.symm
  obtain ⟨rfl, rfl⟩ := Prod.mk.inj hpair
  refine ⟨hm', ?_⟩
  obtain ⟨p, hp, rfl⟩ := List.mem_map.1 hk
  obtain ⟨j, hj, rfl⟩ := List.getElem_of_mem hp
  have hother := hplace j
  rw [List.getElem?_append_left hj, List.getElem?_eq_getElem hj] at hother
  obtain ⟨k, hk, hpair⟩ := Option.map_eq_some_iff.1 hother.symm
  rw [← hpair] at hkm
  exact ⟨j, hj, k, m', hk, hm', hkm⟩

/-- One of two members in conflict is rejected, or one in conflict with them before. -/
theorem rejected_ne_nil_of_conflictAt {c : ClassDecl} {j i : Nat} (hlt : j < i)
    (h : c.ConflictAt j i) : c.rejected ≠ [] := by
  intro hnil
  have hpairwise := (pairwise_of_rejectedFrom_eq_nil hnil).2
  obtain ⟨a, b, ha, hb, hconflict⟩ := h
  obtain ⟨hj, rfl⟩ := List.getElem?_eq_some_iff.1 ha
  obtain ⟨hi, rfl⟩ := List.getElem?_eq_some_iff.1 hb
  have hfree :=
    List.pairwise_iff_getElem.1 hpairwise j i (by simpa using hj) (by simpa using hi) hlt
  simp [hconflict] at hfree

end ClassDecl

/-- The checks report exactly the members that are rejected, first come, first served. A
member is reported only if an earlier one conflicts with it, and if two members of a class
are in conflict, one is reported. -/
theorem duplicate_members_reported (unit : CompilationUnit) (source : String) :
    (check unit source).filter (·.finding.isDuplicateMember) =
      unit.classes.flatMap (Check.duplicateErrors source.toList) ∧
    ∀ c : ClassDecl,
      Check.duplicateErrors source.toList c =
        c.rejected.map (fun p => Check.duplicateError source.toList c p.1) ∧
      (∀ m i, (m, i) ∈ c.rejected → c.members[i]? = some m ∧ ∃ j < i, c.ConflictAt j i) ∧
      ((∃ j i, j < i ∧ c.ConflictAt j i) → Check.duplicateErrors source.toList c ≠ []) := by
  constructor
  · exact Check.isDuplicateMember_ofDeclarations.filter_classesDiagnostics _ [] unit.classes
  · intro c
    have herrors := Check.duplicateErrors_eq source.toList c
    refine ⟨herrors, fun m i => ClassDecl.conflictAt_of_mem_rejected, ?_⟩
    intro ⟨j, i, hlt, hconflict⟩
    rw [herrors, ne_eq, List.map_eq_nil_iff]
    exact ClassDecl.rejected_ne_nil_of_conflictAt hlt hconflict

/-- Two fields are rejected because of the method before them; a method that comes after the
first of them is kept. -/
theorem duplicate_members_reported_overloads :
    ∃ u, compile "class T { void x(int a) { } int x; void x() { } int x; }" =
        .ok u ∧
      ∃ c ∈ u.classes, c.rejected.map Prod.snd = [1, 3] ∧ (∃ j < 3, c.ConflictAt j 3) ∧
        Check.duplicateErrors "".toList c ≠ [] := by
  have hfound : ∃ u,
      compile "class T { void x(int a) { } int x; void x() { } int x; }" =
        .ok u ∧
      ∃ c ∈ u.classes, c.rejected.map Prod.snd = [1, 3] :=
    exists_eq_ok (by decide +kernel)
  obtain ⟨u, hu, c, hc, hplaces⟩ := hfound
  obtain ⟨⟨m, i⟩, hmem, rfl⟩ : ∃ p ∈ c.rejected, p.2 = 3 := by
    rw [← List.mem_map, hplaces]
    decide
  obtain ⟨-, hsound, hcomplete⟩ := (duplicate_members_reported u "").2 c
  obtain ⟨-, j, hj, hconflict⟩ := hsound m _ hmem
  exact ⟨u, hu, c, hc, hplaces, ⟨j, hj, hconflict⟩, hcomplete ⟨j, _, hj, hconflict⟩⟩

end ClassScript

import ClassScript.Tree.Json

/-!
# JSON values up to their text

Two values can have the same text. The fields of an object are written in the order of their
names, and a number that is not finite is written as null. `Json.canonical` takes a value to
the one of them that has its fields in order and no such numbers.

Fields with different names can be told from the canonical object: all of them, if the names
are known (`sameValues_of_canonical_eq`), and the tag in any case (`tag_eq`).
-/

namespace ClassScript.Json

mutual

/-- The value with its fields sorted by name, and null for numbers that are not finite. -/
def canonical : Json → Json
  | .null => .null
  | .bool value => .bool value
  | .count value => .count value
  | .number value => if value.isFinite then .number value else .null
  | .string value => .string value
  | .array items => .array (canonicalItems items)
  | .object fields => .object ((canonicalFields fields).mergeSort fun a b => a.1 ≤ b.1)

@[inherit_doc canonical]
def canonicalItems : List Json → List Json
  | [] => []
  | item :: items => item.canonical :: canonicalItems items

@[inherit_doc canonical]
def canonicalFields : List (String × Json) → List (String × Json)
  | [] => []
  | (name, value) :: fields => (name, value.canonical) :: canonicalFields fields

end

@[simp] theorem tag_fst (name : String) : (tag name).1 = "type" := rfl

theorem canonicalItems_eq_map (items : List Json) : canonicalItems items = items.map canonical := by
  induction items with
  | nil => rfl
  | cons item items ih => rw [canonicalItems, ih, List.map_cons]

theorem canonicalFields_eq_map (fields : List (String × Json)) :
    canonicalFields fields = fields.map fun field => (field.1, field.2.canonical) := by
  induction fields with
  | nil => rfl
  | cons field fields ih => rw [canonicalFields, ih, List.map_cons]

/-- The canonical form keeps the names. -/
theorem names_canonicalFields (fields : List (String × Json)) :
    (canonicalFields fields).map Prod.fst = fields.map Prod.fst := by
  rw [canonicalFields_eq_map, List.map_map]
  rfl

/-! ### Fields -/

/-- Sorting only changes the order. -/
theorem perm_of_canonical_eq {fs gs : List (String × Json)}
    (h : (object fs).canonical = (object gs).canonical) :
    (canonicalFields fs).Perm (canonicalFields gs) := by
  have hsorted : (canonicalFields fs).mergeSort (fun a b => a.1 ≤ b.1) =
      (canonicalFields gs).mergeSort (fun a b => a.1 ≤ b.1) := Json.object.inj h
  have hperm := List.mergeSort_perm (canonicalFields fs) fun a b => a.1 ≤ b.1
  rw [hsorted] at hperm
  exact hperm.symm.trans (List.mergeSort_perm _ _)

/-- Fields with the same names, all different, are the same if they are in another order. -/
theorem eq_of_perm_of_names {α : Type} {fs gs : List (String × α)} (hperm : fs.Perm gs)
    (hnames : fs.map Prod.fst = gs.map Prod.fst) (hnodup : (fs.map Prod.fst).Nodup) : fs = gs := by
  induction fs generalizing gs with
  | nil => exact hperm.nil_eq
  | cons f fs ih =>
    cases gs with
    | nil => cases hnames
    | cons g gs =>
      obtain ⟨-, hrest⟩ := List.cons.inj hnames
      obtain ⟨hnew, hnodup⟩ := List.nodup_cons.1 hnodup
      have hmem : f ∈ g :: gs := hperm.mem_iff.1 List.mem_cons_self
      have hfg : f = g := by
        rcases List.mem_cons.1 hmem with hfg | hlater
        · exact hfg
        · -- The name of `f` would come up again among the others.
          have hagain : f.1 ∈ gs.map Prod.fst := List.mem_map_of_mem hlater
          rw [← hrest] at hagain
          exact absurd hagain hnew
      subst hfg
      rw [ih hperm.cons_inv hrest hnodup]

/-- The values of the fields are the same one by one. -/
def SameValues : List (String × Json) → List (String × Json) → Prop
  | [], [] => True
  | f :: fs, g :: gs => f.2.canonical = g.2.canonical ∧ SameValues fs gs
  | _, _ => False

/-- By induction on the fields, which are compared in their order. -/
theorem sameValues_of_canonicalFields_eq {fs gs : List (String × Json)}
    (h : canonicalFields fs = canonicalFields gs) : SameValues fs gs := by
  induction fs generalizing gs with
  | nil =>
    cases gs with
    | nil => exact trivial
    | cons g gs => cases h
  | cons f fs ih =>
    cases gs with
    | nil => cases h
    | cons g gs =>
      obtain ⟨hhead, htail⟩ := List.cons.inj h
      exact ⟨(Prod.mk.inj hhead).2, ih htail⟩

/-- Where the names are the same and all different, a canonical object tells its fields. -/
theorem sameValues_of_canonical_eq {fs gs : List (String × Json)}
    (h : (object fs).canonical = (object gs).canonical)
    (hnames : fs.map Prod.fst = gs.map Prod.fst) (hnodup : (fs.map Prod.fst).Nodup) :
    SameValues fs gs := by
  apply sameValues_of_canonicalFields_eq
  apply eq_of_perm_of_names (perm_of_canonical_eq h)
  · rw [names_canonicalFields, names_canonicalFields, hnames]
  · rw [names_canonicalFields]
    exact hnodup

/-- A canonical object tells its tag. -/
theorem tag_eq {a b : String} {fs gs : List (String × Json)}
    (h : (object (tag a :: fs)).canonical = (object (tag b :: gs)).canonical)
    (hgs : "type" ∉ gs.map Prod.fst) : a = b := by
  have hmem : ("type", Json.string a) ∈ canonicalFields (tag b :: gs) :=
    (perm_of_canonical_eq h).mem_iff.1 List.mem_cons_self
  rcases List.mem_cons.1 hmem with hhead | hlater
  · exact Json.string.inj (congrArg Prod.snd hhead)
  · have hname := List.mem_map_of_mem (f := Prod.fst) hlater
    rw [names_canonicalFields] at hname
    exact absurd hname hgs

end ClassScript.Json

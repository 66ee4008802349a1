import ClassScript.Check.Basic

/-!
# Findings of one sort

The checks of a unit filtered by a predicate on findings. A member leads to a finding of its
declaration and to others that do not depend on what was declared before. A predicate that
holds of none of the others (`OfDeclarations`) sees the declarations only, one after another.
-/

namespace ClassScript.Check

/-- Only the declaration of a member can lead to a finding of this sort. -/
structure OfDeclarations (sort : Finding → Bool) : Prop where
  duplicateClass : ∀ name, sort (.duplicateClass name) = false
  abstractMethod : ∀ className name, sort (.abstractMethod className name) = false
  droppedBaseCall : ∀ className, sort (.droppedBaseCall className) = false
  instanceMember : ∀ className name, sort (.instanceMember className name) = false

/-- A finding of another sort is not located. -/
theorem filter_located (sort : Finding → Bool) (found : Option Finding) (span : Span) :
    (found.toList.map fun f => (⟨f, span⟩ : Diagnostic)).filter (sort ·.finding) =
      (found.filter sort).toList.map (⟨·, span⟩) := by
  cases found with
  | none => rfl
  | some f => cases hf : sort f <;> simp [Option.filter, hf]

namespace OfDeclarations

variable {sort : Finding → Bool} (h : OfDeclarations sort)

include h

/-- Of what is found at a member, only its declaration is left. -/
theorem filter_memberDiagnostics (source : List Char) (c : ClassDecl) (m : Member)
    (clash : Option Finding) :
    (memberDiagnostics source c m clash).filter (sort ·.finding) =
      (clash.filter sort).toList.map (⟨·, nameSpan source m.name m.span⟩) := by
  have habstract : (abstractFinding? c m).filter sort = none := by
    unfold abstractFinding?
    split
    · split <;> simp [h.abstractMethod]
    · rfl
  have hbase : (baseCallDiagnostic? source c m).toList.filter (sort ·.finding) = [] := by
    rw [baseCallDiagnostic?.eq_def]
    split
    · split <;> simp [h.droppedBaseCall]
    · rfl
  have hinstance : (instanceFinding? c m).filter sort = none := by
    unfold instanceFinding?
    split <;> simp [h.instanceMember]
  simp only [memberDiagnostics, List.filter_append, filter_located, habstract, hbase, hinstance]
  simp

/-- One member after another: what its declaration led to, then what follows from the table
that it left. -/
theorem filter_membersDiagnostics_cons (source : List Char) (c : ClassDecl) (d : Declared)
    (m : Member) (members : List Member) :
    (membersDiagnostics source c d (m :: members)).filter (sort ·.finding) =
      ((d.declare c.name m).2.filter sort).toList.map (⟨·, nameSpan source m.name m.span⟩) ++
        (membersDiagnostics source c (d.declare c.name m).1 members).filter (sort ·.finding) := by
  rw [membersDiagnostics, List.filter_append, h.filter_memberDiagnostics]

/-- One class after another, whatever their names are. -/
theorem filter_classesDiagnostics (source : List Char) (seen : List String)
    (classes : List ClassDecl) :
    (classesDiagnostics source seen classes).filter (sort ·.finding) =
      classes.flatMap fun c => (classDiagnostics source c).filter (sort ·.finding) := by
  induction classes generalizing seen with
  | nil => rfl
  | cons c classes ih =>
    have hclass : (if seen.contains c.name then
        [(⟨.duplicateClass c.name, nameSpan source c.name c.span⟩ : Diagnostic)] else []).filter
          (sort ·.finding) = [] := by
      split <;> simp [h.duplicateClass]
    simp only [classesDiagnostics, List.filter_append, ih, List.flatMap_cons, hclass,
      List.nil_append]

end OfDeclarations

end ClassScript.Check

import Mathlib.Data.List.Forall2
import ClassScript.Check.Basic
import ClassScript.Proofs.Parse.DeclaredNames
import ClassScript.Proofs.Source.Lines

/-!
# What diagnostics point at

A diagnostic is about a class, a member, or a call of the base class's constructor, and which one
it is does not depend on the source text (`CompilationUnit.reports`, `check_eq`). The text serves
to find the name: the first whole occurrence of it in the text of the declaration is pointed at.

The token that declares the name stands whole in that text, so there is always something to
point at, and it is this token exactly if the name does not stand whole in the text before it. A
type of the same name, or a comment, draws the diagnostic to itself
(`diagnostics_point_exactly`).
-/

namespace ClassScript

open Parse Source Text

/-! ### What is reported, and on what -/

namespace Check

/-- What is reported on a member, and on which subject, where `clash` is what its declaration led
to. -/
def memberReports (c : ClassDecl) (m : Member) (clash : Option Finding) :
    List (Subject × Finding) :=
  clash.toList.map (.member m, ·)
    ++ (abstractFinding? c m).toList.map (.member m, ·)
    ++ (m.baseCall?.filter fun _ => c.baseClass.isNone).toList.map
      (.baseCall ·, .droppedBaseCall c.name)
    ++ (instanceFinding? c m).toList.map (.member m, ·)

/-- What is reported on members, of which the class has declared `d` before. -/
def membersReports (c : ClassDecl) (d : Declared) : List Member → List (Subject × Finding)
  | [] => []
  | m :: ms =>
    memberReports c m (d.declare c.name m).2 ++ membersReports c (d.declare c.name m).1 ms

/-- What is reported on classes, where `seen` are the names of those before. -/
def classesReports (seen : List String) : List ClassDecl → List (Subject × Finding)
  | [] => []
  | c :: cs =>
    (if seen.contains c.name then [(.classDecl c, .duplicateClass c.name)] else [])
      ++ membersReports c .empty c.members ++ classesReports (c.name :: seen) cs

/-- A finding, at the name of its subject. -/
def locate (source : List Char) (r : Subject × Finding) : Diagnostic :=
  ⟨r.2, nameSpan source r.1.name r.1.span⟩

/-- The check of a base call, in the words of reports. -/
theorem baseCallDiagnostic?_eq (source : List Char) (c : ClassDecl) (m : Member) :
    baseCallDiagnostic? source c m = (m.baseCall?.filter fun _ => c.baseClass.isNone).map
      fun chain => locate source (.baseCall chain, .droppedBaseCall c.name) := by
  cases m with
  | method | property | field => rfl
  | constructor k =>
    obtain ⟨_, _, chain, _, _, _, _⟩ := k
    rcases chain with _ | ⟨_ | _, arguments, span⟩
    · rfl
    · show (if c.baseClass.isNone then _ else _) = _
      cases c.baseClass <;> rfl
    · rfl

/-- A diagnostic is a report that is located in the source. -/
theorem memberDiagnostics_eq (source : List Char) (c : ClassDecl) (m : Member)
    (clash : Option Finding) :
    memberDiagnostics source c m clash = (memberReports c m clash).map (locate source) := by
  have hown (findings : Option Finding) :
      findings.toList.map (⟨·, nameSpan source m.name m.span⟩) =
        (findings.toList.map (Subject.member m, ·)).map (locate source) := by
    rw [List.map_map]
    rfl
  have hcall : (baseCallDiagnostic? source c m).toList =
      ((m.baseCall?.filter fun _ => c.baseClass.isNone).toList.map
        (Subject.baseCall ·, Finding.droppedBaseCall c.name)).map (locate source) := by
    rw [baseCallDiagnostic?_eq, List.map_map]
    cases m.baseCall?.filter fun _ => c.baseClass.isNone <;> rfl
  simp only [memberDiagnostics, memberReports, List.map_append, hown, hcall]

/-- The table of declared members does not depend on the source. -/
theorem membersDiagnostics_eq (source : List Char) (c : ClassDecl) (d : Declared)
    (ms : List Member) :
    membersDiagnostics source c d ms = (membersReports c d ms).map (locate source) := by
  induction ms generalizing d with
  | nil => rfl
  | cons m ms ih =>
    rw [membersReports, List.map_append, ← memberDiagnostics_eq, ← ih]
    rfl

theorem classesDiagnostics_eq (source : List Char) (seen : List String) (cs : List ClassDecl) :
    classesDiagnostics source seen cs = (classesReports seen cs).map (locate source) := by
  induction cs generalizing seen with
  | nil => rfl
  | cons c cs ih =>
    have hduplicate : (if seen.contains c.name then
          [(⟨.duplicateClass c.name, nameSpan source c.name c.span⟩ : Diagnostic)] else []) =
        (if seen.contains c.name then
          [(Subject.classDecl c, Finding.duplicateClass c.name)] else []).map (locate source) := by
      split <;> rfl
    rw [classesDiagnostics, classesReports, List.map_append, List.map_append, ← ih,
      ← membersDiagnostics_eq, ← hduplicate]
    rfl

/-- A report on a member is about the member or about its base call. -/
theorem mem_subjects_of_memberReports {c : ClassDecl} {m : Member} {clash : Option Finding}
    {r : Subject × Finding} (h : r ∈ memberReports c m clash) : r.1 ∈ m.subjects := by
  simp only [memberReports, List.mem_append, List.mem_map, Option.mem_toList] at h
  rcases h with ((⟨f, -, rfl⟩ | ⟨f, -, rfl⟩) | ⟨chain, hchain, rfl⟩) | ⟨f, -, rfl⟩
  · exact List.mem_cons_self
  · exact List.mem_cons_self
  · have hchain := (Option.filter_eq_some_iff.1 hchain).1
    exact List.mem_cons_of_mem _ (List.mem_map.2 ⟨chain, by simpa using hchain, rfl⟩)
  · exact List.mem_cons_self

theorem mem_subjects_of_membersReports {c : ClassDecl} {d : Declared} {ms : List Member}
    {r : Subject × Finding} (h : r ∈ membersReports c d ms) :
    r.1 ∈ ms.flatMap Member.subjects := by
  induction ms generalizing d with
  | nil => cases h
  | cons m ms ih =>
    rw [List.flatMap_cons]
    rcases List.mem_append.1 h with h | h
    · exact List.mem_append_left _ (mem_subjects_of_memberReports h)
    · exact List.mem_append_right _ (ih h)

theorem mem_subjects_of_classesReports {seen : List String} {cs : List ClassDecl}
    {r : Subject × Finding} (h : r ∈ classesReports seen cs) : ∃ c ∈ cs, r.1 ∈ c.subjects := by
  induction cs generalizing seen with
  | nil => cases h
  | cons c cs ih =>
    rcases List.mem_append.1 h with h | h
    · refine ⟨c, List.mem_cons_self, ?_⟩
      rcases List.mem_append.1 h with h | h
      · split at h
        · obtain rfl := List.mem_singleton.1 h
          exact List.mem_cons_self
        · cases h
      · exact List.mem_cons_of_mem _ (mem_subjects_of_membersReports h)
    · obtain ⟨c', hc', hr⟩ := ih h
      exact ⟨c', List.mem_cons_of_mem c hc', hr⟩

end Check

/-- What the checks report on a unit, each with the subject that it is about. -/
def CompilationUnit.reports (unit : CompilationUnit) : List (Subject × Check.Finding) :=
  Check.classesReports [] unit.classes

theorem check_eq (unit : CompilationUnit) (source : String) :
    check unit source = unit.reports.map (Check.locate source.toList) :=
  Check.classesDiagnostics_eq source.toList [] unit.classes

/-! ### Where a name is found -/

/-- The span of the text `word` behind `front`. -/
def spanBehind (front word : List Char) : Span :=
  ⟨Position.start.after front, Position.start.after (front ++ word)⟩

/-- A text has at most one front of a given length. -/
theorem append_inj_of_byteLength {cs front front' rest rest' : List Char} (h : cs = front ++ rest)
    (h' : cs = front' ++ rest') (hlength : byteLength front = byteLength front') :
    front = front' := by
  obtain ⟨taken, rfl⟩ := exists_append_of_byteLength_le h h' (Nat.le_of_eq hlength)
  have hnil : taken = [] := by
    refine Classical.byContradiction fun hne => ?_
    have := byteLength_pos hne
    rw [byteLength_append] at hlength
    omega
  rw [hnil, List.append_nil]

/-- The end of a word is in some line of the source. -/
theorem not_behindLastLine_word {front word rest : List Char} (hne : word ≠ [])
    (hword : ∀ c ∈ word, isWordChar c = true) :
    ¬ BehindLastLine ((front ++ word) ++ rest) (byteLength (front ++ word)) := by
  rw [behindLastLine_append_iff]
  rintro ⟨-, hlast⟩
  have hmem : '\n' ∈ word := by
    rw [List.getLast?_append, List.getLast?_eq_some_getLast hne, Option.some_or] at hlast
    exact Option.some.inj hlast ▸ List.getLast_mem hne
  have hblank : isWordChar '\n' = false := wordClass_isWordChar.blank _ (by decide)
  rw [hword _ hmem] at hblank
  cases hblank

section

variable {name : String} (hne : name.toList ≠ [])
  (hword : ∀ c ∈ name.toList, isWordChar c = true)

include hne hword

/-- A name that stands whole behind `lead` is pointed at exactly if it does not stand whole in
`lead`; else an occurrence in `lead` is. -/
theorem nameSpan_append {source front lead after rest : List Char} {span : Span}
    (hsource : source = front ++ ((lead ++ (name.toList ++ after)) ++ rest))
    (hstart : span.start.offset = byteLength front)
    (hstop : span.stop.offset = byteLength front + byteLength (lead ++ (name.toList ++ after)))
    (hapart : Apart isWordChar lead after) :
    (¬ HasWord isWordChar name.toList lead ∧
      Check.nameSpan source name span = spanBehind (front ++ lead) name.toList) ∨
    ∃ a b, lead = a ++ (name.toList ++ b) ∧ Apart isWordChar a b ∧
      Check.nameSpan source name span = spanBehind (front ++ a) name.toList := by
  have hslice : slice? source (byteLength front) span.stop.offset =
      some (lead ++ (name.toList ++ after)) := by
    rw [hsource, hstop, slice?_append]
  -- Both ends of an occurrence are places that the lines of the text lead to.
  have hfound {a b : List Char} (hsplit : lead ++ (name.toList ++ after) = a ++ (name.toList ++ b))
      (ha : findWord? isWordChar name.toList (lead ++ (name.toList ++ after)) =
        some (byteLength a)) :
      Check.nameSpan source name span = spanBehind (front ++ a) name.toList := by
    have hbefore : source = (front ++ a) ++ (name.toList ++ (b ++ rest)) := by
      rw [hsource, hsplit]
      simp
    have hbehind : source = ((front ++ a) ++ name.toList) ++ (b ++ rest) := by
      rw [hbefore, ← List.append_assoc]
    have hfirst : positionAt? source (byteLength front + byteLength a) =
        some (Position.start.after (front ++ a)) := by
      rw [← byteLength_append, hbefore]
      refine positionAt?_append ?_
      rw [behindLastLine_append_iff]
      exact fun h => hne (List.append_eq_nil_iff.1 h.1).1
    have hlast : positionAt? source
        (byteLength front + byteLength a + byteLength name.toList) =
          some (Position.start.after (front ++ a ++ name.toList)) := by
      rw [← byteLength_append, ← byteLength_append, hbehind]
      exact positionAt?_append (not_behindLastLine_word hne hword)
    simp [Check.nameSpan, hslice, ha, hstart, hfirst, hlast, spanBehind]
  rcases findWord?_append hne hword hapart with ⟨hno, h⟩ | ⟨a, b, hlead, ha, h⟩
  · exact .inl ⟨hno, hfound rfl h⟩
  · refine .inr ⟨a, b, hlead, ha, hfound (b := b ++ (name.toList ++ after)) ?_ h⟩
    rw [hlead]
    simp

/-- A name that the text of a declaration begins with is pointed at there. -/
theorem nameSpan_of_begins {source front after rest : List Char} {span : Span}
    (hsource : source = front ++ ((name.toList ++ after) ++ rest))
    (hstart : span.start.offset = byteLength front)
    (hstop : span.stop.offset = byteLength front + byteLength (name.toList ++ after))
    (hafter : ∀ c ∈ after.head?, isWordChar c = false) :
    Check.nameSpan source name span = spanBehind front name.toList := by
  have hapart : Apart isWordChar [] after := ⟨nofun, hafter⟩
  rcases nameSpan_append hne hword hsource hstart hstop hapart with ⟨-, hspan⟩ | ⟨a, b, hnil, -⟩
  · rw [hspan, List.append_nil]
  · simp [hne] at hnil

end

/-! ### The text of a declaration -/

/-- A true position is known from its offset. -/
theorem Position.IsTrue.eq_after {source : String} {p : Position} {before rest : List Char}
    (h : p.IsTrue source) (hsource : source.toList = before ++ rest)
    (hoffset : p.offset = byteLength before) : p = Position.start.after before := by
  obtain ⟨before', rest', hsource', rfl⟩ := isTrue_iff.1 h
  rw [offset_start_after] at hoffset
  rw [append_inj_of_byteLength hsource' hsource hoffset]

/-- The text of a subject is `lead`, its name and `after`, and its name is not continued on either
side. -/
structure StandsIn (source : String) (x : Subject) (n : Token)
    (front lead after rest : List Char) : Prop where
  isWord : IsWord x.name.toList
  text : n.text = x.name
  source_eq : source.toList = front ++ ((lead ++ (x.name.toList ++ after)) ++ rest)
  start : x.span.start = Position.start.after front
  stop : x.span.stop = Position.start.after (front ++ (lead ++ (x.name.toList ++ after)))
  span : n.span = spanBehind (front ++ lead) x.name.toList
  apart : Apart isWordChar lead after

/-- The text of tokens of which one is followed by a punctuator, around that one. It is the first
thing in the text if it is the first of the tokens. -/
theorem exists_text_around {source : String} {tokens front r : List Token} {n q : Token}
    {start stop : Position} (htokens : tokenize source = .ok tokens)
    (hwithin : front ++ n :: q :: r <:+: tokens) (hq : q.kind.isPunctuator = true)
    (hstart : startOf? (front ++ n :: q :: r) = some start)
    (hstop : stopOf? (front ++ n :: q :: r) = some stop) :
    ∃ cs lead behind ds,
      source.toList = cs ++ ((lead ++ (n.text.toList ++ behind)) ++ ds) ∧
      start = Position.start.after cs ∧
      stop = Position.start.after (cs ++ (lead ++ (n.text.toList ++ behind))) ∧
      n.span = spanBehind (cs ++ lead) n.text.toList ∧
      (∀ c ∈ behind.head?, isWordChar c = false) ∧ (front = [] → lead = []) := by
  have hn : n ∈ front ++ n :: q :: r := by simp
  have htrue {t : Token} (ht : t ∈ front ++ n :: q :: r) :=
    isTrue_of_tokenize htokens t (hwithin.subset ht)
  obtain ⟨us, vs, htokens_eq⟩ := hwithin
  have hw : Ordered (front ++ n :: q :: r) := by
    have hordered := ordered_of_tokenize htokens
    rw [← htokens_eq] at hordered
    exact hordered.left.right
  have hpair : tokens = (us ++ front) ++ n :: q :: (r ++ vs) := by
    rw [← htokens_eq]
    simp
  obtain ⟨before, after, hsource, hbefore, hafter, hnot⟩ :=
    not_word_after htokens hpair wordClass_isWordChar hq
  have hsource' : source.toList = (before ++ n.text.toList) ++ after := by
    rw [hsource, List.append_assoc]
  -- The first token begins before `n` or with it, and the last ends behind it.
  obtain ⟨first, hfirst, rfl⟩ := exists_of_startOf? hstart
  obtain ⟨last, hlast, rfl⟩ := exists_of_stopOf? hstop
  obtain ⟨cs, _, hcs, hx⟩ := isTrue_iff.1 (htrue hfirst).1
  obtain ⟨es, ds, hes, hx'⟩ := isTrue_iff.1 (htrue hlast).2
  have hle := hw.start_le hstart hn
  have hle' := hw.le_stop hstop hn
  rw [hx, offset_start_after, hbefore] at hle
  rw [hx', offset_start_after, hafter] at hle'
  obtain ⟨lead, rfl⟩ := exists_append_of_byteLength_le hcs hsource hle
  obtain ⟨behind, rfl⟩ := exists_append_of_byteLength_le hsource' hes hle'
  have hafter_eq : after = behind ++ ds := by
    rw [hsource', List.append_assoc _ behind] at hes
    exact List.append_cancel_left hes
  refine ⟨cs, lead, behind, ds, by rw [hes]; simp, hx, by rw [hx']; simp, ?_, ?_, ?_⟩
  · exact congr (congrArg Span.mk ((htrue hn).1.eq_after hsource hbefore))
      ((htrue hn).2.eq_after hsource' hafter)
  · intro c hc
    refine hnot c ?_
    rw [hafter_eq, List.head?_append, hc]
    rfl
  · rintro rfl
    have hsame : cs = cs ++ lead := by
      refine append_inj_of_byteLength hcs hsource ?_
      rw [← hbefore, ← offset_start_after, ← hx]
      exact congrArg Position.offset (Option.some.inj hstart).symm
    exact List.self_eq_append_right.1 hsame

section

variable {source : String} {tokens front rest : List Token} {x : Subject} {n : Token}
  (htokens : tokenize source = .ok tokens) (hwithin : front ++ n :: rest <:+: tokens)
  (h : NamedBy x front n rest)

include htokens hwithin h

theorem isWord_of_namedBy : IsWord x.name.toList ∧ n.text = x.name := by
  have hmem : n ∈ tokens := hwithin.subset (by simp)
  have hkind : n.kind.isWord = true := by
    rw [h.kind]
    cases x <;> rfl
  obtain ⟨-, hlexeme⟩ := vocabulary_of_isSpelled htokens hmem (by simp [Kind.isSpelled, hkind])
  have htext : n.text = x.name := by
    cases x with
    | classDecl | member => exact h.text h.kind
    | baseCall chain =>
      rw [h.kind] at hlexeme
      have hmem : Kind.kwBase ∈ Kind.keywords ++ Kind.punctuators := by decide
      exact String.toList_injective (eq_spelled_of_vocabulary hlexeme hmem)
  exact ⟨htext ▸ isWord_of_vocabulary hlexeme hkind, htext⟩

/-- What stands before the name does not go on with it, if the declaration has not just begun. -/
theorem not_word_before_name {before after : List Char} (hsource : source.toList = before ++ after)
    (hstart : n.span.start.offset = byteLength before) (hfront : front ≠ []) :
    ∀ c ∈ before.getLast?, isWordChar c = false := by
  obtain ⟨us, vs, htokens_eq⟩ := hwithin
  obtain ⟨front, p, rfl⟩ := (List.eq_nil_or_concat front).resolve_left hfront
  have hp : p.kind.isSpelled = true := h.leads.spelled p (by simp)
  have hn : n.kind.isWord = true := by
    rw [h.kind]
    cases x <;> rfl
  have hpair : tokens = (us ++ front) ++ p :: n :: (rest ++ vs) := by
    rw [← htokens_eq]
    simp
  obtain ⟨before', after', hsource', hstart', hnot⟩ :=
    not_word_before htokens hpair wordClass_isWordChar hp hn
  rwa [append_inj_of_byteLength hsource hsource' (hstart.symm.trans hstart')]

/-- The text of a subject, around its name. -/
theorem exists_standsIn : ∃ cs lead after ds, StandsIn source x n cs lead after ds := by
  obtain ⟨hword, htext⟩ := isWord_of_namedBy htokens hwithin h
  obtain ⟨q, r, rfl, hq⟩ := h.next
  obtain ⟨cs, lead, behind, ds, hsource, hstart, hstop, hspan, hbehind, hfirst⟩ :=
    exists_text_around htokens hwithin hq h.start h.stop
  rw [htext] at hsource hstop hspan
  refine ⟨cs, lead, behind, ds, hword, htext, hsource, hstart, hstop, hspan, ?_, hbehind⟩
  intro c hc
  have hfront : front ≠ [] := by
    intro hnil
    rw [hfirst hnil] at hc
    cases hc
  have hbefore : source.toList = (cs ++ lead) ++ ((x.name.toList ++ behind) ++ ds) := by
    rw [hsource]
    simp only [List.append_assoc]
  have hoffset : n.span.start.offset = byteLength (cs ++ lead) := by
    rw [hspan]
    exact offset_start_after _
  refine not_word_before_name htokens hwithin h hbefore hoffset hfront c ?_
  rw [List.getLast?_append, hc]
  rfl

end

/-! ### Diagnostics -/

/-- A name is made of characters of words, and has one at least. -/
theorem StandsIn.name_word {source : String} {x : Subject} {n : Token}
    {front lead after rest : List Char} (h : StandsIn source x n front lead after rest) :
    x.name.toList ≠ [] ∧ ∀ c ∈ x.name.toList, isWordChar c = true :=
  ⟨h.isWord.ne_nil, fun c hc => wordClass_isWordChar.part c (h.isWord.isWordPart c hc)⟩

/-- The search for the name finds its token, unless the name stands whole in the text before it. -/
theorem StandsIn.nameSpan {source : String} {x : Subject} {n : Token}
    {front lead after rest : List Char} (h : StandsIn source x n front lead after rest) :
    (¬ HasWord isWordChar x.name.toList lead ∧
      Check.nameSpan source.toList x.name x.span = n.span) ∨
    ∃ a b, lead = a ++ (x.name.toList ++ b) ∧ Apart isWordChar a b ∧
      Check.nameSpan source.toList x.name x.span = spanBehind (front ++ a) x.name.toList := by
  obtain ⟨hne, hword⟩ := h.name_word
  rw [h.span]
  refine nameSpan_append hne hword h.source_eq ?_ ?_ h.apart
  · rw [h.start, offset_start_after]
  · rw [h.stop, offset_start_after, byteLength_append]

/-- Where a report on a subject points, if the token `n` names the subject: at this token, unless
the name stands whole in the text before it. Then it points into that text. -/
def PointsAt (source : String) (x : Subject) (n : Token) (span : Span) : Prop :=
  ∃ lead, slice? source.toList x.span.start.offset n.span.start.offset = some lead ∧
    (span = n.span ↔ ¬ HasWord isWordChar x.name.toList lead) ∧
    (HasWord isWordChar x.name.toList lead → ∃ a b, lead = a ++ (x.name.toList ++ b) ∧
      Apart isWordChar a b ∧ span.start.offset = x.span.start.offset + byteLength a)

theorem StandsIn.pointsAt {source : String} {x : Subject} {n : Token}
    {front lead after rest : List Char} (h : StandsIn source x n front lead after rest) :
    PointsAt source x n (Check.nameSpan source.toList x.name x.span) := by
  have hn : n.span.start.offset = byteLength (front ++ lead) := by
    rw [h.span]
    exact offset_start_after _
  have hx : x.span.start.offset = byteLength front := by rw [h.start, offset_start_after]
  refine ⟨lead, ?_, ?_⟩
  · rw [h.source_eq, hx, hn, byteLength_append, List.append_assoc lead, slice?_append]
  · rcases h.nameSpan with ⟨hno, hspan⟩ | ⟨a, b, hlead, ha, hspan⟩
    · exact ⟨iff_of_true hspan hno, fun hyes => absurd hyes hno⟩
    · have hoffset : (Check.nameSpan source.toList x.name x.span).start.offset =
          x.span.start.offset + byteLength a := by
        rw [hspan, hx, ← byteLength_append]
        exact offset_start_after _
      refine ⟨iff_of_false (fun heq => ?_) (not_not_intro ⟨a, b, hlead, ha⟩), fun _ => ?_⟩
      · -- The occurrence ends before the name begins.
        have := byteLength_pos h.isWord.ne_nil
        rw [heq, hn, hx, hlead, byteLength_append, byteLength_append, byteLength_append] at hoffset
        omega
      · exact ⟨a, b, hlead, ha, hoffset⟩

/-- What is reported on was read, so its name stands in its text. -/
theorem exists_standsIn_of_report {source : String} {unit : CompilationUnit} {tokens : List Token}
    (h : compile source = .ok unit) (htokens : tokenize source = .ok tokens)
    {r : Subject × Check.Finding} (hr : r ∈ unit.reports) :
    ∃ front n rest, front ++ n :: rest <:+: tokens ∧ NamedBy r.1 front n rest ∧
      ∃ cs lead after ds, StandsIn source r.1 n cs lead after ds := by
  obtain ⟨c, hc, hsubject⟩ := Check.mem_subjects_of_classesReports hr
  obtain ⟨front, n, rest, hwithin, hnamed⟩ := namedIn_of_compile h htokens c hc r.1 hsubject
  exact ⟨front, n, rest, hwithin, hnamed, exists_standsIn htokens hwithin hnamed⟩

/-- The diagnostic is the finding of the report, and the token that names its subject tells where it
points. -/
def Locates (source : String) (tokens : List Token) (d : Check.Diagnostic)
    (r : Subject × Check.Finding) : Prop :=
  d.finding = r.2 ∧ ∃ front n rest, front ++ n :: rest <:+: tokens ∧ NamedBy r.1 front n rest ∧
    n.text = r.1.name ∧ PointsAt source r.1 n d.span

/-- The diagnostics on a unit are about what it declares, and each points at the token that
declares the name of its subject, exactly if the name does not stand as a whole word in the text
of the declaration before this token. -/
theorem diagnostics_point_exactly {source : String} {unit : CompilationUnit}
    (h : compile source = .ok unit) :
    ∃ tokens, tokenize source = .ok tokens ∧
      (∀ r ∈ unit.reports, ∃ c ∈ unit.classes, r.1 ∈ c.subjects) ∧
      List.Forall₂ (Locates source tokens) (check unit source) unit.reports := by
  obtain ⟨tokens, -, htokens, -⟩ := compile_eq_ok_iff.1 h
  refine ⟨tokens, htokens, fun r hr => Check.mem_subjects_of_classesReports hr, ?_⟩
  rw [check_eq, List.forall₂_map_left_iff, List.forall₂_same]
  intro r hr
  obtain ⟨front, n, rest, hwithin, hnamed, _, _, _, _, hstands⟩ :=
    exists_standsIn_of_report h htokens hr
  exact ⟨rfl, front, n, rest, hwithin, hnamed, hstands.text, hstands.pointsAt⟩

/-- There is one diagnostic on a field that is declared twice, and a word that begins with its name
before it. -/
theorem diagnostics_point_exactly_second_field :
    let source := "class T { int x; List<x1> x; }"
    ∃ unit tokens, compile source = .ok unit ∧ tokenize source = .ok tokens ∧
      ∃ d r, check unit source = [d] ∧ unit.reports = [r] ∧ r.1.name = "x" ∧
        r.2 = .duplicateMember "T" "x" ∧ (∃ c ∈ unit.classes, r.1 ∈ c.subjects) ∧
        Locates source tokens d r := by
  intro source
  have hcompiled : ∃ unit, compile source = .ok unit ∧
      unit.reports.map (fun r => (r.1.name, r.2)) = [("x", .duplicateMember "T" "x")] :=
    exists_eq_ok (by decide +kernel)
  obtain ⟨unit, hunit, hreports⟩ := hcompiled
  obtain ⟨tokens, htokens, hsubjects, hlocates⟩ := diagnostics_point_exactly hunit
  obtain ⟨r, hr, hname⟩ := List.map_eq_singleton_iff.1 hreports
  obtain ⟨hname, hfinding⟩ := Prod.mk.inj hname
  rw [hr] at hlocates
  obtain ⟨d, ds, hd, hnil, hcheck⟩ := List.forall₂_cons_right_iff.1 hlocates
  rw [List.forall₂_nil_right_iff.1 hnil] at hcheck
  exact ⟨unit, tokens, hunit, htokens, d, r, hcheck, hr, hname, hfinding,
    hsubjects r (by simp [hr]), hd⟩

/-- A field whose type has its name is declared twice, and the diagnostic points at the type and
not at the token after it, which is the name. -/
theorem diagnostic_drawn_to_type :
    let source := "class T { P P; P P; }"
    ∃ unit, compile source = .ok unit ∧ ∃ tokens, tokenize source = .ok tokens ∧
      ∃ d ∈ check unit source, d.finding = .duplicateMember "T" "P" ∧
        (∃ c ∈ unit.classes, ∃ m ∈ c.members, m.name = "P" ∧
          m.type?.map (·.span) = some d.span) ∧
        ∃ t ∈ tokens.zip tokens.tail, t.1.span = d.span ∧
          t.2.kind = .identifier ∧ t.2.text = "P" ∧ t.2.span ≠ d.span := by
  intro source
  have hlexed : ∃ tokens, tokenize source = .ok tokens ∧
      ∃ t ∈ tokens.zip tokens.tail, t.1.span = ⟨⟨1, 16, 15⟩, ⟨1, 17, 16⟩⟩ ∧
        t.2.kind = .identifier ∧ t.2.text = "P" ∧ t.2.span ≠ ⟨⟨1, 16, 15⟩, ⟨1, 17, 16⟩⟩ :=
    exists_eq_ok (by decide +kernel)
  have hcompiled : ∃ unit, compile source = .ok unit ∧
      (∃ r ∈ unit.reports, r.1.name = "P" ∧ r.1.span = ⟨⟨1, 16, 15⟩, ⟨1, 20, 19⟩⟩ ∧
        r.2 = .duplicateMember "T" "P") ∧
      ∃ c ∈ unit.classes, ∃ m ∈ c.members, m.name = "P" ∧
        m.type?.map (·.span) = some ⟨⟨1, 16, 15⟩, ⟨1, 17, 16⟩⟩ :=
    exists_eq_ok (by decide +kernel)
  have hspan : Check.nameSpan source.toList "P" ⟨⟨1, 16, 15⟩, ⟨1, 20, 19⟩⟩ =
      ⟨⟨1, 16, 15⟩, ⟨1, 17, 16⟩⟩ := by
    have hword : ∀ c ∈ "P".toList, isWordChar c = true := by
      rintro c ⟨⟩
      · exact wordClass_isWordChar.part _ (by decide)
      · contradiction
    have hsource : source.toList = "class T \x7b P P; ".toList ++
        (("P".toList ++ " P;".toList) ++ " \x7d".toList) := by decide +kernel
    refine (nameSpan_of_begins (by decide) hword hsource (by decide +kernel) (by decide +kernel)
      ?_).trans (by decide +kernel)
    rintro c ⟨⟩
    exact wordClass_isWordChar.blank _ (by decide)
  obtain ⟨tokens, htokens, t, ht, hspans⟩ := hlexed
  obtain ⟨unit, hunit, ⟨r, hr, hname, hr_span, hfinding⟩, hmember⟩ := hcompiled
  have hlocated : (Check.locate source.toList r).span = ⟨⟨1, 16, 15⟩, ⟨1, 17, 16⟩⟩ := by
    rw [Check.locate, hname, hr_span, hspan]
  refine ⟨unit, hunit, tokens, htokens, Check.locate source.toList r, ?_, hfinding, ?_, t, ht, ?_⟩
  · rw [check_eq]
    exact List.mem_map_of_mem hr
  · rwa [hlocated]
  · rwa [hlocated]

end ClassScript

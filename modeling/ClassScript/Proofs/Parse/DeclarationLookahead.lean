import ClassScript.Proofs.Parse.TypeGrammar

/-!
# What looks like a declaration

Whether a statement declares a local is decided by a look at its tokens
(`looksLikeDeclaration`), and then a type is read. The look ahead has a grammar of its own:
between angle brackets it passes over anything that can occur there, if the brackets match,
and after them it expects a question mark before all pairs of square brackets. So it is not
always right about the types that can be read, and `Misjudged` says where it is not.
-/

namespace ClassScript.Parse

/-- Tokens that can occur in type arguments, with matching angle brackets. -/
inductive Balanced : List Token → Prop
  | nil : Balanced []
  | token {t : Token} {ts : List Token} :
      t.kind ∈ [.identifier, .comma, .dot, .question, .openBracket, .closeBracket] →
      Balanced ts → Balanced (t :: ts)
  | angles {o c : Token} {ts us : List Token} : o.kind = .less → Balanced ts →
      c.kind = .greater → Balanced us → Balanced (o :: ts ++ c :: us)

/-- Suffixes with a question mark in the first place only. -/
def OrderedSuffixes (v : List Token) : Prop :=
  Suffixes v ∧ ∀ t ∈ v.tail, t.kind ≠ .question

/-- A type and a name with a question mark after other suffixes, or with something else than
type arguments in the angle brackets, which may also nest too deep. -/
def Misjudged (levels : Nat) (ts : List Token) : Prop :=
  Declares (ArgumentsWithin levels) (fun v => Suffixes v ∧ ¬ OrderedSuffixes v) ts ∨
    Declares (fun a => Angled Balanced a ∧ ¬ ArgumentsWithin levels a) OrderedSuffixes ts

/-! ### What is passed over -/

/-- What is passed over is a row of names behind points. -/
theorem skipDotted_eq (start : String) (l : List Token) :
    ∃ ts text, l = ts ++ skipDotted l ∧ Points start ts text := by
  fun_induction skipDotted l generalizing start with
  | case1 d n rest h ih =>
    obtain ⟨ts, text, hrest, hpoints⟩ := ih (start ++ "." ++ n.text)
    exact ⟨d :: n :: ts, text, by rw [List.cons_append, List.cons_append, ← hrest],
      .cons h.1 h.2 hpoints⟩
  | case2 d n rest => exact ⟨[], start, rfl, .nil⟩
  | case3 l => exact ⟨[], start, rfl, .nil⟩

/-- Such a row is passed over to its end. -/
theorem skipDotted_of_points {start text : String} {ts l : List Token} (h : Points start ts text)
    (hl : ∀ y r, l = y :: r → y.kind ≠ .dot) : skipDotted (ts ++ l) = l := by
  induction h with
  | nil =>
    rcases l with _ | ⟨y, _ | ⟨z, r⟩⟩
    · rfl
    · rfl
    · simp [skipDotted, hl y (z :: r) rfl]
  | cons hd hn _ ih => simp [skipDotted, hd, hn, ih]

/-- Inside of an angle bracket, balanced tokens leave the depth as it is. -/
theorem skipAngles_append {ts : List Token} (h : Balanced ts) {depth : Nat} (hdepth : depth ≠ 0)
    (l : List Token) : skipAngles depth (ts ++ l) = skipAngles depth l := by
  induction h generalizing depth l with
  | nil => rfl
  | token ht _ ih =>
    rw [List.cons_append, skipAngles]
    simp only [List.mem_cons, List.not_mem_nil, or_false] at ht
    rcases ht with ht | ht | ht | ht | ht | ht <;> simp only [ht] <;> exact ih hdepth l
  | angles ho _ hc _ ih ih' =>
    rw [List.append_assoc, List.cons_append, skipAngles]
    simp only [ho]
    rw [ih (by omega), List.cons_append, skipAngles]
    simp only [hc]
    rw [if_neg (by omega), Nat.add_sub_cancel, ih' hdepth]

/-- What is passed over up to a closing bracket is balanced. The induction is on the length,
because an inner pair of brackets is followed by tokens that are not part of it. -/
theorem balanced_of_skipAngles {depth : Nat} {l rest : List Token}
    (h : skipAngles (depth + 1) l = some rest) : ∃ ts c l', l = ts ++ c :: l' ∧ Balanced ts ∧
      c.kind = .greater ∧ if depth = 0 then l' = rest else skipAngles depth l' = some rest := by
  induction hn : l.length using Nat.strongRecOn generalizing depth l with
  | ind n ih =>
    cases l with
    | nil => cases h
    | cons t l =>
      rw [List.length_cons] at hn
      rw [skipAngles] at h
      split at h
      · rename_i ht
        obtain ⟨ts, c, l₁, rfl, hts, hc, hl₁⟩ := ih l.length (by omega) h rfl
        rw [if_neg (by omega)] at hl₁
        rw [List.length_append, List.length_cons] at hn
        obtain ⟨us, c', l₂, rfl, hus, hc', hl₂⟩ := ih l₁.length (by omega) hl₁ rfl
        exact ⟨t :: ts ++ c :: us, c', l₂, by simp, .angles ht hts hc hus, hc', hl₂⟩
      · rename_i ht
        refine ⟨[], t, l, rfl, .nil, ht, ?_⟩
        by_cases hdepth : depth = 0
        · rw [if_pos (by omega)] at h
          rw [if_pos hdepth]
          exact Option.some.inj h
        · rw [if_neg (by omega)] at h
          rw [if_neg hdepth]
          exact h
      iterate 6
        · rename_i ht
          obtain ⟨ts, c, l', rfl, hts, hc, hl'⟩ := ih l.length (by omega) h rfl
          exact ⟨t :: ts, c, l', rfl, .token (by simp [ht]) hts, hc, hl'⟩
      · cases h

/-- Angle brackets are passed over together with what is in them. -/
theorem skipTypeArguments_of_angled {a l : List Token} (ha : Angled Balanced a)
    (hl : ∀ y r, l = y :: r → y.kind ≠ .less) : skipTypeArguments (a ++ l) = some l := by
  rcases ha with rfl | ⟨o, ts, c, rfl, ho, hts, hc⟩
  · cases l with
    | nil => rfl
    | cons y r => simp [skipTypeArguments, hl y r rfl]
  · rw [List.append_assoc, List.cons_append, List.singleton_append, skipTypeArguments, if_pos ho,
      skipAngles_append hts (by decide), skipAngles]
    simp [hc]

/-- What is passed over has matching brackets, or is nothing. -/
theorem angled_of_skipTypeArguments {l rest : List Token} (h : skipTypeArguments l = some rest) :
    ∃ a, Angled Balanced a ∧ l = a ++ rest := by
  cases l with
  | nil => exact ⟨[], .inl rfl, Option.some.inj h⟩
  | cons t l =>
    rw [skipTypeArguments] at h
    by_cases ht : t.kind = .less
    · rw [if_pos ht] at h
      obtain ⟨ts, c, l', rfl, hts, hc, hl'⟩ := balanced_of_skipAngles h
      rw [if_pos rfl] at hl'
      subst hl'
      exact ⟨t :: ts ++ [c], .inr ⟨t, ts, c, rfl, ht, hts, hc⟩, by simp⟩
    · rw [if_neg ht] at h
      exact ⟨[], .inl rfl, Option.some.inj h⟩

theorem startsWithName_iff {l : List Token} :
    startsWithName l = true ↔ ∃ x r, l = x :: r ∧ x.kind = .identifier := by
  cases l <;> simp [startsWithName]

/-- Without a question mark among them, suffixes are pairs of square brackets. -/
theorem skipBrackets_of_suffixes {v : List Token} {x : Token} {r : List Token} (hv : Suffixes v)
    (hquestion : ∀ t ∈ v, t.kind ≠ .question) (hx : x.kind = .identifier) :
    skipBrackets (v ++ x :: r) = x :: r := by
  induction hv with
  | nil =>
    cases r with
    | nil => rfl
    | cons y r => simp [skipBrackets, hx]
  | nullable ht => exact absurd ht (hquestion _ List.mem_cons_self)
  | array ho hc _ ih =>
    rw [List.cons_append, List.cons_append, skipBrackets, if_pos ⟨ho, hc⟩]
    exact ih fun t ht => hquestion t (by simp [ht])

/-- What is passed over are such pairs. -/
theorem suffixes_of_skipBrackets (l : List Token) :
    ∃ v, l = v ++ skipBrackets l ∧ Suffixes v ∧ ∀ t ∈ v, t.kind ≠ .question := by
  fun_induction skipBrackets l with
  | case1 o c rest h ih =>
    obtain ⟨v, hrest, hv, hquestion⟩ := ih
    refine ⟨o :: c :: v, by rw [List.cons_append, List.cons_append, ← hrest], .array h.1 h.2 hv, ?_⟩
    simpa [h.1, h.2] using hquestion
  | case2 o c rest => exact ⟨[], rfl, .nil, by simp⟩
  | case3 l => exact ⟨[], rfl, .nil, by simp⟩

/-- A question mark is only looked for once, and first. -/
theorem skipSuffixes_of_ordered {v : List Token} {x : Token} {r : List Token}
    (hv : OrderedSuffixes v) (hx : x.kind = .identifier) :
    skipBrackets (skipQuestion (v ++ x :: r)) = x :: r := by
  obtain ⟨hv, hquestion⟩ := hv
  cases hv with
  | nil =>
    rw [List.nil_append, skipQuestion, if_neg (by simp [hx])]
    exact skipBrackets_of_suffixes .nil (by simp) hx
  | nullable ht hv =>
    rw [List.cons_append, skipQuestion, if_pos ht]
    exact skipBrackets_of_suffixes hv hquestion hx
  | array ho hc hv =>
    rw [List.cons_append, skipQuestion, if_neg (by simp [ho]), ← List.cons_append]
    refine skipBrackets_of_suffixes (.array ho hc hv) (List.forall_mem_cons.2 ⟨?_, hquestion⟩) hx
    simp [ho]

theorem ordered_of_skipSuffixes (l : List Token) :
    ∃ v, l = v ++ skipBrackets (skipQuestion l) ∧ OrderedSuffixes v := by
  cases l with
  | nil => exact ⟨[], rfl, .nil, by simp⟩
  | cons t l =>
    rw [skipQuestion]
    by_cases ht : t.kind = .question
    · rw [if_pos ht]
      obtain ⟨v, hl, hv, hquestion⟩ := suffixes_of_skipBrackets l
      exact ⟨t :: v, by rw [List.cons_append, ← hl], .nullable ht hv, hquestion⟩
    · rw [if_neg ht]
      obtain ⟨v, hl, hv, hquestion⟩ := suffixes_of_skipBrackets (t :: l)
      exact ⟨v, hl, hv, fun u hu => hquestion u (List.mem_of_mem_tail hu)⟩

/-! ### The parts of a declaration -/

section

variable {text text' : String} {d d' a a' v v' r r' : List Token} {x x' : Token}

/-- What can follow the type arguments of a declaration. -/
theorem head_of_suffixes (hv : Suffixes v) (hx : x.kind = .identifier) {y : Token} {l : List Token}
    (h : v ++ x :: r = y :: l) : y.kind ∈ [.question, .openBracket, .identifier] := by
  cases hv with
  | nil =>
    cases h
    simp [hx]
  | nullable ht =>
    cases h
    simp [ht]
  | array ho =>
    cases h
    simp [ho]

theorem head_of_angled (ha : Angled Balanced a) (hv : Suffixes v) (hx : x.kind = .identifier)
    {y : Token} {l : List Token} (h : a ++ (v ++ x :: r) = y :: l) : y.kind ≠ .dot := by
  rcases ha with rfl | ⟨o, ts, c, rfl, ho, -, -⟩
  · have hy := head_of_suffixes hv hx h
    intro hdot
    simp [hdot] at hy
  · cases h
    simp [ho]

/-- The name is passed over, and then the type arguments are. -/
theorem skips_of_parts (hd : NameTokens text d) (ha : Angled Balanced a) (hv : Suffixes v)
    (hx : x.kind = .identifier) :
    skipDotted (d ++ a ++ v ++ x :: r).tail = a ++ (v ++ x :: r) ∧
      skipTypeArguments (a ++ (v ++ x :: r)) = some (v ++ x :: r) := by
  obtain ⟨hn, hpoints⟩ := hd
  constructor
  · rw [List.append_assoc, List.append_assoc, List.cons_append, List.tail_cons]
    exact skipDotted_of_points hpoints fun y l h => head_of_angled ha hv hx h
  · refine skipTypeArguments_of_angled ha fun y l h hless => ?_
    have hy := head_of_suffixes hv hx h
    simp [hless] at hy

/-- A name is no suffix, so the first name ends the suffixes. -/
theorem suffixes_unique (hv : Suffixes v) (hv' : Suffixes v') (hx : x.kind = .identifier)
    (hx' : x'.kind = .identifier) (h : v ++ x :: r = v' ++ x' :: r') : v = v' := by
  induction hv generalizing v' with
  | nil =>
    have hhead := h.symm
    cases hv' with
    | nil => rfl
    | nullable ht =>
      cases hhead
      simp [ht] at hx
    | array ho =>
      cases hhead
      simp [ho] at hx
  | nullable ht _ ih =>
    cases hv' with
    | nil =>
      cases h
      simp [ht] at hx'
    | nullable _ hv' =>
      simp only [List.cons_append, List.cons.injEq] at h
      rw [h.1, ih hv' h.2]
    | array ho =>
      obtain ⟨rfl, -⟩ := List.cons.inj h
      simp [ht] at ho
  | array ho _ _ ih =>
    cases hv' with
    | nil =>
      cases h
      simp [ho] at hx'
    | nullable ht =>
      obtain ⟨rfl, -⟩ := List.cons.inj h
      simp [ht] at ho
    | array _ _ hv' =>
      simp only [List.cons_append, List.cons.injEq] at h
      rw [h.1, h.2.1, ih hv' h.2.2]

/-- A type and a name have their parts in one way only. -/
theorem parts_unique (hd : NameTokens text d) (ha : Angled Balanced a) (hv : Suffixes v)
    (hx : x.kind = .identifier) (hd' : NameTokens text' d') (ha' : Angled Balanced a')
    (hv' : Suffixes v') (hx' : x'.kind = .identifier)
    (h : d ++ a ++ v ++ x :: r = d' ++ a' ++ v' ++ x' :: r') : a = a' ∧ v = v' := by
  obtain ⟨hdotted, harguments⟩ := skips_of_parts (r := r) hd ha hv hx
  obtain ⟨hdotted', harguments'⟩ := skips_of_parts (r := r') hd' ha' hv' hx'
  have hparts : a ++ (v ++ x :: r) = a' ++ (v' ++ x' :: r') := by rw [← hdotted, h, hdotted']
  have hrest : v ++ x :: r = v' ++ x' :: r' := by
    rw [hparts, harguments'] at harguments
    exact (Option.some.inj harguments).symm
  rw [hrest] at hparts
  exact ⟨List.append_cancel_right hparts, suffixes_unique hv hv' hx hx' hrest⟩

end

/-- The look ahead decides a grammar of its own. -/
theorem looksLikeDeclaration_iff {ts : List Token} :
    looksLikeDeclaration ts = true ↔ Declares (Angled Balanced) OrderedSuffixes ts := by
  constructor
  · intro h
    cases ts with
    | nil => cases h
    | cons n ts =>
      rw [looksLikeDeclaration, Bool.and_eq_true, decide_eq_true_eq] at h
      obtain ⟨hn, h⟩ := h
      obtain ⟨points, text, hts, hpoints⟩ := skipDotted_eq n.text ts
      cases harguments : skipTypeArguments (skipDotted ts) with
      | none =>
        rw [harguments] at h
        cases h
      | some after =>
        rw [harguments] at h
        obtain ⟨a, ha, hdotted⟩ := angled_of_skipTypeArguments harguments
        obtain ⟨v, hafter, hv⟩ := ordered_of_skipSuffixes after
        obtain ⟨x, r, hname, hx⟩ := startsWithName_iff.1 h
        refine ⟨n :: points ++ a ++ v, x, r, ?_, ⟨text, _, a, v, rfl, .mk hn hpoints, ha, hv⟩, hx⟩
        rw [hts, hdotted, hafter, hname]
        simp
  · rintro ⟨w, x, r, rfl, ⟨text, d, a, v, rfl, hd, ha, hv⟩, hx⟩
    obtain ⟨hdotted, harguments⟩ := skips_of_parts (r := r) hd ha hv.1 hx
    have hsuffixes := skipSuffixes_of_ordered (r := r) hv hx
    obtain ⟨hn, hpoints⟩ := hd
    rw [List.append_assoc, List.append_assoc, List.cons_append] at hdotted ⊢
    rw [List.tail_cons] at hdotted
    simp [looksLikeDeclaration, hn, hdotted, harguments, hsuffixes, startsWithName, hx]

/-! ### What both grammars allow -/

/-- Balanced tokens one after another. -/
theorem Balanced.append {ts us : List Token} (h : Balanced ts) (h' : Balanced us) :
    Balanced (ts ++ us) := by
  induction h with
  | nil => exact h'
  | token ht _ ih => exact .token ht ih
  | angles ho hts hc _ _ ih =>
    rw [List.append_assoc]
    exact .angles ho hts hc ih

theorem balanced_of_points {start text : String} {ts : List Token} (h : Points start ts text) :
    Balanced ts := by
  induction h with
  | nil => exact .nil
  | cons hd hn _ ih => exact .token (by simp [hd]) (.token (by simp [hn]) ih)

/-- Suffixes have no angle brackets. -/
theorem balanced_of_suffixes {v : List Token} (h : Suffixes v) : Balanced v := by
  induction h with
  | nil => exact .nil
  | nullable ht _ ih => exact .token (by simp [ht]) ih
  | array ho hc _ ih => exact .token (by simp [ho]) (.token (by simp [hc]) ih)

/-- Commas may stand between type arguments. -/
theorem balanced_of_separated {P : List Token → Prop} (hP : ∀ w, P w → Balanced w)
    {ws : List Token} (h : Separated P ws) : Balanced ws := by
  induction h with
  | one hw => exact hP _ hw
  | more hw hc _ ih => exact (hP _ hw).append (.token (by simp [hc]) ih)

theorem balanced_of_angled {a : List Token} (h : Angled Balanced a) : Balanced a := by
  rcases h with rfl | ⟨o, ts, c, rfl, ho, hts, hc⟩
  · exact .nil
  · exact .angles ho hts hc .nil

/-- Type arguments have matching brackets, by induction on their levels. -/
theorem angled_of_argumentsWithin {levels : Nat} {a : List Token} (h : ArgumentsWithin levels a) :
    Angled Balanced a := by
  induction levels generalizing a with
  | zero => exact h.elim
  | succ n ih =>
    have htype (w : List Token) (hw : TypeOf (ArgumentsWithin n) Suffixes w) : Balanced w := by
      obtain ⟨text, d, a, v, rfl, ⟨hn, hpoints⟩, ha, hv⟩ := hw
      refine .append (.append (.token (by simp [hn]) (balanced_of_points hpoints)) ?_) ?_
      · exact balanced_of_angled (ih ha)
      · exact balanced_of_suffixes hv
    rcases h with rfl | ⟨o, ts, c, rfl, ho, hts, hc⟩
    · exact .inl rfl
    · exact .inr ⟨o, ts, c, rfl, ho, balanced_of_separated htype hts, hc⟩

/-! ### Where the two disagree -/

/-- A type can be read from the state, and a name comes after it. -/
def ReadsTypeAndName (s : State) : Prop :=
  ∃ type t, typeRef .default s = .ok type t ∧ t.kind = .identifier

instance (s : State) : Decidable (ReadsTypeAndName s) :=
  match h : typeRef .default s with
  | .ok type t =>
    if hkind : t.kind = .identifier then .isTrue ⟨type, t, h, hkind⟩
    else .isFalse fun ⟨_, _, h', hkind'⟩ => by
      rw [h] at h'
      cases h'
      exact hkind hkind'
  | .error e t => .isFalse fun ⟨_, _, h', _⟩ => by
    rw [h] at h'
    cases h'

/-- The two grammars share the form of a declaration, and differ in arguments and suffixes only. -/
theorem agree_iff_not_misjudged (levels : Nat) (ts : List Token) :
    (Declares (Angled Balanced) OrderedSuffixes ts ↔
      Declares (ArgumentsWithin levels) Suffixes ts) ↔ ¬ Misjudged levels ts := by
  constructor
  · rintro hagree (hbad | hbad)
    · obtain ⟨w, x, r, rfl, ⟨text, d, a, v, rfl, hd, ha, hv, hdisordered⟩, hx⟩ := hbad
      obtain ⟨w', x', r', hw, ⟨text', d', a', v', rfl, hd', ha', hv'⟩, hx'⟩ :=
        hagree.2 ⟨_, x, r, rfl, ⟨text, d, a, v, rfl, hd, ha, hv⟩, hx⟩
      have hparts := parts_unique hd (angled_of_argumentsWithin ha) hv hx hd' ha' hv'.1 hx' hw
      exact hdisordered (hparts.2 ▸ hv')
    · obtain ⟨w, x, r, rfl, ⟨text, d, a, v, rfl, hd, ⟨ha, hillegal⟩, hv⟩, hx⟩ := hbad
      obtain ⟨w', x', r', hw, ⟨text', d', a', v', rfl, hd', ha', hv'⟩, hx'⟩ :=
        hagree.1 ⟨_, x, r, rfl, ⟨text, d, a, v, rfl, hd, ha, hv⟩, hx⟩
      have hparts := parts_unique hd ha hv.1 hx hd' (angled_of_argumentsWithin ha') hv' hx' hw
      exact hillegal (hparts.1 ▸ ha')
  · intro hgood
    constructor
    · rintro ⟨w, x, r, hw, ⟨text, d, a, v, rfl, hd, ha, hv⟩, hx⟩
      by_cases hlegal : ArgumentsWithin levels a
      · exact ⟨_, x, r, hw, ⟨text, d, a, v, rfl, hd, hlegal, hv.1⟩, hx⟩
      · exact absurd (.inr ⟨_, x, r, hw, ⟨text, d, a, v, rfl, hd, ⟨ha, hlegal⟩, hv⟩, hx⟩) hgood
    · rintro ⟨w, x, r, hw, ⟨text, d, a, v, rfl, hd, ha, hv⟩, hx⟩
      by_cases hordered : OrderedSuffixes v
      · exact ⟨_, x, r, hw, ⟨text, d, a, v, rfl, hd, angled_of_argumentsWithin ha, hordered⟩, hx⟩
      · exact absurd (.inl ⟨_, x, r, hw, ⟨text, d, a, v, rfl, hd, ha, hv, hordered⟩, hx⟩) hgood

/-- What looks like a declaration, what can be read as a type before a name, and where the two
are not the same. Everywhere else a statement declares a local if and only if a type can be
read before a name. -/
theorem declaration_lookahead {s : State} (hs : s.Ended) :
    (looksLikeDeclaration s.tokens = true ↔
      Declares (Angled Balanced) OrderedSuffixes s.tokens) ∧
    (ReadsTypeAndName s ↔ Declares (ArgumentsWithin s.budget) Suffixes s.tokens) ∧
    ((looksLikeDeclaration s.tokens = true ↔ ReadsTypeAndName s) ↔
      ¬ Misjudged s.budget s.tokens) ∧
    (¬ Misjudged s.budget s.tokens →
      (ReadsTypeAndName s → plainStmt s = localStmt s) ∧
      (¬ ReadsTypeAndName s → plainStmt s = expressionStmt s)) := by
  have hreads : ReadsTypeAndName s ↔ Declares (ArgumentsWithin s.budget) Suffixes s.tokens :=
    typeRef_before_name hs
  have hagree : (looksLikeDeclaration s.tokens = true ↔ ReadsTypeAndName s) ↔
      ¬ Misjudged s.budget s.tokens := by
    rw [hreads, looksLikeDeclaration_iff]
    exact agree_iff_not_misjudged s.budget s.tokens
  have hplain : plainStmt s =
      (if looksLikeDeclaration s.tokens then localStmt else expressionStmt : Parse Stmt) s := rfl
  refine ⟨looksLikeDeclaration_iff, hreads, hagree, fun hgood => ⟨fun h => ?_, fun h => ?_⟩⟩
  · rw [hplain, if_pos ((hagree.2 hgood).2 h)]
  · rw [hplain, if_neg (mt (hagree.2 hgood).1 h)]

/-- Nested type arguments and suffixes in order are judged well. -/
theorem declaration_lookahead_generic :
    ∃ ts, tokenize "A.Map<K, List<V[]>>?[] xs;" = .ok ts ∧ (State.ofTokens ts).Ended ∧
      ¬ Misjudged (State.ofTokens ts).budget (State.ofTokens ts).tokens ∧
      plainStmt (.ofTokens ts) = localStmt (.ofTokens ts) := by
  have hfound : ∃ ts, tokenize "A.Map<K, List<V[]>>?[] xs;" = .ok ts ∧
      looksLikeDeclaration (State.ofTokens ts).tokens = true ∧ ReadsTypeAndName (.ofTokens ts) :=
    exists_eq_ok (by decide +kernel)
  obtain ⟨ts, hts, hlooks, hreads⟩ := hfound
  obtain ⟨-, -, hagree, hplain⟩ := declaration_lookahead (ended_ofTokens ts)
  have hgood := hagree.1 (iff_of_true hlooks hreads)
  exact ⟨ts, hts, ended_ofTokens ts, hgood, (hplain hgood).1 hreads⟩

/-- A nullable array can be the type of a field, but a local of that type does not look like
a declaration. An expression with two comparisons does, and is none. -/
theorem nullable_array_not_local :
    (∃ ts, tokenize "int[]? x = null;" = .ok ts ∧
      looksLikeDeclaration (State.ofTokens ts).tokens = false ∧ ReadsTypeAndName (.ofTokens ts)) ∧
    (∃ ts, tokenize "a < b[c] > d;" = .ok ts ∧
      looksLikeDeclaration (State.ofTokens ts).tokens = true ∧
      ¬ ReadsTypeAndName (.ofTokens ts)) ∧
    (compile "class T { int[]? x = null; }").toOption.isSome = true ∧
    (compile "class T { void M() { int[]? x = null; } }").toOption.isSome = false :=
  ⟨exists_eq_ok (by decide +kernel), exists_eq_ok (by decide +kernel), by decide +kernel,
    by decide +kernel⟩

end ClassScript.Parse

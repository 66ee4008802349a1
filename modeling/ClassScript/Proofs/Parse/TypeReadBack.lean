import ClassScript.Proofs.Parse.TypeGrammar
import ClassScript.Proofs.Script.Layout
import ClassScript.Proofs.Tree.Unlocated

/-!
# Types are read back from their text

`TypeRef.display` writes a type as a source text would. The text is scanned into `TypeRef.lexemes`
piece by piece, and reading these gives the type back, up to spans. Both go by induction over the
levels of nesting, with an induction over the type arguments inside.

A type is read back from its text exactly if its names are names of the language joined by points
and it does not nest too deep, and what was read from the tokens of a text is always such a type
(`display_reads_back`).
-/

namespace ClassScript

open Lexical Parse

namespace TypeRef

/-! ### Types that can be written -/

/-- The names in a type are names of the language joined by points. -/
inductive HasNames : TypeRef → Prop
  | mk {t : TypeRef} : IsDottedName t.name → (∀ a ∈ t.arguments, HasNames a) → HasNames t

mutual

/-- How many levels of nesting a type has: its own and those of its arguments. -/
def nesting : TypeRef → Nat
  | ⟨_, _, arguments, _, _⟩ => nestingAll arguments + 1

/-- The levels of the deepest of several types. -/
def nestingAll : List TypeRef → Nat
  | [] => 0
  | t :: ts => max (nesting t) (nestingAll ts)

end

theorem nestingAll_le_iff {ts : List TypeRef} {n : Nat} :
    nestingAll ts ≤ n ↔ ∀ t ∈ ts, t.nesting ≤ n := by
  induction ts with
  | nil => simp [nestingAll]
  | cons t ts ih => rw [nestingAll, Nat.max_le, ih, List.forall_mem_cons]

/-- The arguments have one level less. -/
theorem nesting_le_succ_iff {t : TypeRef} {n : Nat} :
    t.nesting ≤ n + 1 ↔ ∀ a ∈ t.arguments, a.nesting ≤ n := by
  cases t
  rw [nesting, Nat.add_le_add_iff_right, nestingAll_le_iff]

/-- The names in a type are as they should, and it has at most `n` levels. -/
def WrittenWithin : Nat → TypeRef → Prop
  | 0, _ => False
  | n + 1, t => IsDottedName t.name ∧ ∀ a ∈ t.arguments, a.WrittenWithin n

/-- The two conditions as one, by recursion on the levels. -/
theorem writtenWithin_iff {n : Nat} {t : TypeRef} :
    t.WrittenWithin n ↔ t.HasNames ∧ t.nesting ≤ n := by
  induction n generalizing t with
  | zero =>
    cases t
    simp [WrittenWithin, nesting]
  | succ n ih =>
    rw [nesting_le_succ_iff]
    constructor
    · rintro ⟨hname, harguments⟩
      have hboth (a : TypeRef) (ha : a ∈ t.arguments) := ih.1 (harguments a ha)
      exact ⟨.mk hname fun a ha => (hboth a ha).1, fun a ha => (hboth a ha).2⟩
    · rintro ⟨⟨hname, harguments⟩, hnesting⟩
      exact ⟨hname, fun a ha => ih.2 ⟨harguments a ha, hnesting a ha⟩⟩

end TypeRef

/-! ### The tokens of a type -/

namespace Parse.TypeSuffix

/-- The suffixes that are written after a type. -/
def written (nullable isArray : Bool) : List TypeSuffix :=
  (if nullable then [.nullable] else []) ++ if isArray then [.array] else []

/-- The tokens of a suffix. -/
def lexemes : TypeSuffix → List Lexeme
  | .nullable => [.ofKind .question]
  | .array => [.ofKind .openBracket, .ofKind .closeBracket]

end Parse.TypeSuffix

namespace TypeRef

mutual

/-- The tokens of a type. -/
def lexemes : TypeRef → List Lexeme
  | ⟨name, nullable, arguments, isArray, _⟩ =>
    Script.dottedLexemes name ++ (argumentLexemes arguments ++
      (TypeSuffix.written nullable isArray).flatMap TypeSuffix.lexemes)

/-- The tokens of type arguments, with the angle brackets around them. -/
def argumentLexemes : List TypeRef → List Lexeme
  | [] => []
  | a :: as => .ofKind .less :: (lexemes a ++ (tailLexemes as ++ [.ofKind .greater]))

/-- The tokens of the type arguments after the first. -/
def tailLexemes : List TypeRef → List Lexeme
  | [] => []
  | a :: as => .ofKind .comma :: (lexemes a ++ tailLexemes as)

end

end TypeRef

/-! ### Scanning the text of a type -/

/-- What follows begins with one of the characters, or there is nothing more. -/
def Breaks (marks : List Char) (rest : List Char) : Prop := ∀ c ∈ rest.head?, c ∈ marks

theorem breaks_cons {marks rest : List Char} {c : Char} (h : c ∈ marks) :
    Breaks marks (c :: rest) := by
  rintro d ⟨⟩
  exact h

theorem Breaks.mono {marks marks' rest : List Char} (h : Breaks marks rest)
    (hmarks : marks ⊆ marks') : Breaks marks' rest :=
  fun c hc => hmarks (h c hc)

/-- None of the marks in a type carries on a name. -/
theorem Breaks.ends {rest : List Char} (h : Breaks ['<', '?', '[', ',', '>'] rest) : Ends rest := by
  cases rest with
  | nil => exact ends_nil
  | cons c rest =>
    have hall : ['<', '?', '[', ',', '>'].all
        (fun c => !Pattern.isWordPart c && c != '.') = true := by decide
    have hc := List.all_eq_true.1 hall c (h c rfl)
    simp only [Bool.and_eq_true, Bool.not_eq_true', bne_iff_ne] at hc
    exact ends_cons hc.1 hc.2

/-- An angle bracket is a token by itself unless an equals sign follows. -/
theorem scans_less : Scans Opens ['<'] [.ofKind .less] := by
  refine .of_match rfl ?_
  rintro _ ⟨c, cs, rfl, -, hc⟩
  refine ⟨.token .less, ?_, rfl⟩
  have hne : '=' ≠ c := Ne.symm hc
  simp [firstMatch?, rules, Rule.match?, Rule.ofKind, Pattern.split?, Pattern.stripText,
    Kind.punctuators, Kind.spelling?, Pattern.prepend, Text.isBlank, Pattern.isWordStart, hne]

/-- A punctuator of one character, if none of the characters that may follow makes it longer. -/
theorem scans_breaks {kind : Kind} {c : Char} {marks : List Char}
    (htext : (Lexeme.ofKind kind).text.toList = [c])
    (hend : firstMatch? [c] = some ⟨.token kind, [c], []⟩)
    (hmarks : ∀ d ∈ marks, ∀ cs,
      firstMatch? (c :: d :: cs) = some ⟨.token kind, [c], d :: cs⟩) :
    Scans (Breaks marks) [c] [.ofKind kind] := by
  refine .of_match htext fun rest hrest => ⟨.token kind, ?_, rfl⟩
  cases rest with
  | nil => exact hend
  | cons d cs => exact hmarks d (hrest d rfl) cs

/-- So is a closing one before anything that a type can go on with. -/
theorem scans_greater : Scans (Breaks ['?', '[', ',', '>']) ['>'] [.ofKind .greater] := by
  refine scans_breaks rfl rfl ?_
  simp only [List.forall_mem_cons]
  exact ⟨fun _ => rfl, fun _ => rfl, fun _ => rfl, fun _ => rfl, nofun⟩

/-- Two question marks in a row would be another token. -/
theorem scans_question : Scans (Breaks ['[', ',', '>']) ['?'] [.ofKind .question] := by
  refine scans_breaks rfl rfl ?_
  simp only [List.forall_mem_cons]
  exact ⟨fun _ => rfl, fun _ => rfl, fun _ => rfl, nofun⟩

/-- The text of the suffixes that are written after a type. -/
def suffixText (nullable isArray : Bool) : String :=
  (if nullable then "?" else "") ++ if isArray then "[]" else ""

/-- A question mark is written before square brackets. -/
theorem scans_suffixes (nullable isArray : Bool) :
    Scans (Breaks [',', '>']) (suffixText nullable isArray).toList
      ((TypeSuffix.written nullable isArray).flatMap TypeSuffix.lexemes) := by
  have hopen : Scans Anything ['['] [.ofKind .openBracket] := scans_mark .openBracket (by decide)
  have hclose : Scans Anything [']'] [.ofKind .closeBracket] :=
    scans_mark .closeBracket (by decide)
  have harray : Scans (Breaks [',', '>']) ['[', ']']
      [.ofKind .openBracket, .ofKind .closeBracket] :=
    (hopen.before hclose).mono fun _ _ => trivial
  cases nullable <;> cases isArray
  · exact .nil
  · exact harray
  · exact scans_question.mono fun _ h => h.mono (by decide)
  · exact scans_question.append harray fun _ _ => breaks_cons (by decide)

/-- What follows the arguments of a type cannot go on their last token. -/
theorem breaks_suffixText {rest : List Char} (nullable isArray : Bool)
    (h : Breaks [',', '>'] rest) :
    Breaks ['?', '[', ',', '>'] ((suffixText nullable isArray).toList ++ rest) := by
  cases nullable <;> cases isArray
  · exact h.mono (by decide)
  all_goals exact breaks_cons (by decide)

namespace TypeRef

/-- The text of a type is its name, its arguments and its suffixes. -/
theorem display_eq (t : TypeRef) :
    t.display = t.name ++ (displayArguments t.arguments ++ suffixText t.nullable t.isArray) := by
  cases t
  simp [display, suffixText, String.append_assoc]

/-- So are its tokens. -/
theorem lexemes_eq (t : TypeRef) :
    t.lexemes = Script.dottedLexemes t.name ++ (argumentLexemes t.arguments ++
      (TypeSuffix.written t.nullable t.isArray).flatMap TypeSuffix.lexemes) := by
  cases t
  rfl

/-- The text of a type is scanned into its tokens, where it ends or another type argument or the
end of all follows. -/
structure Scanned (t : TypeRef) : Prop where
  scans : Scans (Breaks [',', '>']) t.display.toList t.lexemes
  opens : Opens t.display.toList

/-- The type arguments after the first. -/
theorem scans_tail {ts : List TypeRef} (h : ∀ t ∈ ts, t.Scanned) :
    Scans (Breaks ['>']) (displayTail ts).toList (tailLexemes ts) ∧
      ∀ rest, Breaks ['>'] rest → Breaks [',', '>'] ((displayTail ts).toList ++ rest) := by
  induction ts with
  | nil => exact ⟨.nil, fun rest hrest => hrest.mono (by decide)⟩
  | cons t ts ih =>
    obtain ⟨ht, hts⟩ := List.forall_mem_cons.1 h
    obtain ⟨htail, hbreaks⟩ := ih hts
    have hall := scans_comma.append (ht.scans.append htail hbreaks) fun rest _ => by
      rw [List.append_assoc]
      exact ht.opens.append _
    have htext : (displayTail (t :: ts)).toList =
        [',', ' '] ++ (t.display.toList ++ (displayTail ts).toList) := by
      simp [displayTail]
    rw [htext]
    exact ⟨hall, fun _ _ => breaks_cons (by decide)⟩

/-- The text in angle brackets is scanned argument by argument. -/
theorem scans_typeArguments {ts : List TypeRef} (h : ∀ t ∈ ts, t.Scanned) :
    Scans (Breaks ['?', '[', ',', '>']) (displayArguments ts).toList (argumentLexemes ts) ∧
      ∀ rest, Breaks ['?', '[', ',', '>'] rest →
        Breaks ['<', '?', '[', ',', '>'] ((displayArguments ts).toList ++ rest) := by
  cases ts with
  | nil => exact ⟨.nil, fun rest hrest => hrest.mono (by decide)⟩
  | cons t ts =>
    obtain ⟨ht, hts⟩ := List.forall_mem_cons.1 h
    obtain ⟨htail, hbreaks⟩ := scans_tail hts
    have hclosed := htail.append scans_greater fun rest _ => breaks_cons (by decide)
    have hall := scans_less.append (ht.scans.append hclosed fun rest _ => by
      rw [List.append_assoc]
      exact hbreaks _ (breaks_cons (by decide))) fun rest _ => by
        rw [List.append_assoc]
        exact ht.opens.append _
    have htext : (displayArguments (t :: ts)).toList =
        ['<'] ++ (t.display.toList ++ ((displayTail ts).toList ++ ['>'])) := by
      simp [displayArguments]
    rw [htext]
    exact ⟨hall, fun _ _ => breaks_cons (by decide)⟩

/-- The text of a type is scanned into its tokens. -/
theorem scanned_of_writtenWithin {n : Nat} {t : TypeRef} (h : t.WrittenWithin n) : t.Scanned := by
  induction n generalizing t with
  | zero => exact h.elim
  | succ n ih =>
    obtain ⟨hname, harguments⟩ := h
    have hspelled := Script.spelled_dotted hname
    obtain ⟨hscans, hbreaks⟩ := scans_typeArguments fun a ha => ih (harguments a ha)
    -- Each piece is scanned by itself, since the next one begins with a mark that breaks it off.
    have hrest := hscans.append (scans_suffixes t.nullable t.isArray) fun rest hrest =>
      breaks_suffixText t.nullable t.isArray hrest
    have hall := hspelled.scans.append hrest fun rest hrest => by
      rw [List.append_assoc]
      exact (hbreaks _ (breaks_suffixText t.nullable t.isArray hrest)).ends
    have htext : t.display.toList = t.name.toList ++
        ((displayArguments t.arguments).toList ++ (suffixText t.nullable t.isArray).toList) := by
      rw [display_eq, String.toList_append, String.toList_append]
    refine ⟨?_, ?_⟩
    · rw [htext, lexemes_eq]
      exact hall
    · rw [htext]
      exact hspelled.opens.append _

end TypeRef

/-! ### Reading the tokens of a type -/

namespace Parse

section

variable {fails : CompileError → State → Prop} {s : State} {w : Lexeme} {ws : List Lexeme}

/-- A suffix is read from its tokens. -/
theorem reads_typeSuffix (x : TypeSuffix) (hs : s.lexemes = x.lexemes ++ w :: ws) :
    Outcome (fun y s' => y.1 = x ∧ s.Reaches (w :: ws) s') fails (typeSuffix s) := by
  unfold typeSuffix
  rw [outcome_bind, outcome_kind, outcome_ite]
  cases x with
  | nullable =>
    refine ⟨fun _ => ?_, fun hkind => absurd (State.kind_eq hs) hkind⟩
    rw [outcome_bind, outcome_advance]
    exact ⟨rfl, State.reaches_next hs (by decide)⟩
  | array =>
    have hkind : s.kind = .openBracket := State.kind_eq hs
    refine ⟨fun h => absurd (hkind.symm.trans h) (by decide), fun _ => ?_⟩
    rw [outcome_bind]
    refine outcome_expect_of hs rfl (by decide) fun hopen => ?_
    rw [outcome_bind]
    refine outcome_expect_of hopen.lexemes rfl (by decide) fun hclose => ?_
    exact ⟨rfl, hopen.trans hclose⟩

theorem startsSuffix_of_lexemes (x : TypeSuffix) {vs : List Lexeme}
    (hs : s.lexemes = x.lexemes ++ vs) : startsSuffix s = true := by
  cases x with
  | nullable => simp [startsSuffix, State.kind_eq hs, Lexeme.ofKind]
  | array => simp [startsSuffix, State.kind_eq hs, Lexeme.ofKind]

/-- By induction on the suffixes. -/
theorem reads_typeSuffixes (xs : List TypeSuffix)
    (hw : w.kind ≠ .question ∧ w.kind ≠ .openBracket)
    (hs : s.lexemes = xs.flatMap TypeSuffix.lexemes ++ w :: ws) :
    Outcome (fun ys s' => ys.map Prod.fst = xs ∧ s.Reaches (w :: ws) s') fails
      (many (fun s => startsSuffix s && Power.default < .call) typeSuffix s) := by
  have hpower : Power.default < Power.call := by decide
  induction xs generalizing s with
  | nil =>
    refine outcome_many_done ?_ ⟨rfl, .refl hs⟩
    simp [startsSuffix, State.kind_eq hs, hw]
  | cons x xs ih =>
    rw [List.flatMap_cons, List.append_assoc] at hs
    have hmore : (startsSuffix s && Power.default < .call) = true := by
      simp [startsSuffix_of_lexemes x hs, hpower]
    refine outcome_many_round hmore ?_
    obtain ⟨v, vs, hv⟩ := List.exists_cons_of_ne_nil
      (show xs.flatMap TypeSuffix.lexemes ++ w :: ws ≠ [] by simp)
    rw [hv] at hs
    refine (reads_typeSuffix x hs).mono fun y s₁ h₁ => ⟨State.remaining_lt ?_, ?_⟩
    · rw [h₁.2.lexemes, hs]
      cases x <;> simp [TypeSuffix.lexemes]
    · refine (ih (h₁.2.lexemes.trans hv.symm)).mono fun ys s₂ h₂ => ?_
      exact ⟨by rw [List.map_cons, h₁.1, h₂.1], h₁.2.trans h₂.2⟩

/-- A type with suffixes after it, up to spans. -/
theorem unlocated_foldl_withSuffix (ys : List (TypeSuffix × Position)) (t : TypeRef) :
    (ys.foldl withSuffix t).unlocated =
      ⟨t.name, t.nullable || ys.any (·.1 = .nullable), TypeRef.unlocatedAll t.arguments,
        t.isArray || ys.any (·.1 = .array), .none⟩ := by
  induction ys generalizing t with
  | nil =>
    cases t
    simp [TypeRef.unlocated]
  | cons y ys ih =>
    obtain ⟨suffix, stop⟩ := y
    rw [List.foldl_cons, ih]
    cases suffix <;> simp [withSuffix]

/-- The tokens of the type arguments after the first begin with a comma, if there are any. -/
theorem exists_tailLexemes_append (ts : List TypeRef) (ws : List Lexeme) :
    ∃ v vs, TypeRef.tailLexemes ts ++ .ofKind .greater :: ws = v :: vs ∧ TypeEnds v.kind := by
  cases ts with
  | nil => exact ⟨_, _, rfl, by simp [TypeEnds, Lexeme.ofKind]⟩
  | cons t ts => exact ⟨_, _, rfl, by simp [TypeEnds, Lexeme.ofKind]⟩

end

section

variable {fails : CompileError → State → Prop} {argument : Parse TypeRef} {d : Nat}

/-- At depth `d`, the parser reads the type from its tokens, up to spans. -/
def ReadsType (d : Nat) (fails : CompileError → State → Prop) (p : Parse TypeRef) (t : TypeRef) :
    Prop :=
  ∀ (s : State) (w : Lexeme) (ws : List Lexeme), s.depth = d → s.lexemes = t.lexemes ++ w :: ws →
    TypeEnds w.kind →
    Outcome (fun u s' => u.unlocated = t.unlocated ∧ s.Reaches (w :: ws) s') fails (p s)

/-- By induction on the arguments behind commas. -/
theorem reads_tail {ts : List TypeRef} (h : ∀ t ∈ ts, ReadsType d fails argument t) {s : State}
    {ws : List Lexeme} (hdepth : s.depth = d)
    (hs : s.lexemes = TypeRef.tailLexemes ts ++ .ofKind .greater :: ws) :
    Outcome (fun us s' => us.map TypeRef.unlocated = ts.map TypeRef.unlocated ∧
        s.Reaches (.ofKind .greater :: ws) s') fails
      (many (·.kind = .comma) (advance >>= fun _ => argument) s) := by
  induction ts generalizing s with
  | nil =>
    refine outcome_many_done ?_ ⟨rfl, .refl hs⟩
    simp [State.kind_eq hs, Lexeme.ofKind]
  | cons t ts ih =>
    obtain ⟨ht, hts⟩ := List.forall_mem_cons.1 h
    obtain ⟨v, vs, hv, hends⟩ := exists_tailLexemes_append ts ws
    have hs' : s.lexemes = .ofKind .comma :: (t.lexemes ++ v :: vs) := by
      rw [hs, TypeRef.tailLexemes, List.cons_append, List.append_assoc, hv]
    have hcomma := State.reaches_next_of_ne_nil hs' (by decide) (by simp)
    refine outcome_many_round (by simp [State.kind_eq hs', Lexeme.ofKind]) ?_
    rw [outcome_bind, outcome_advance]
    refine (ht s.next v vs (hcomma.depth.trans hdepth) hcomma.lexemes hends).mono
      fun u s₁ h₁ => ⟨State.remaining_lt ?_, ?_⟩
    · rw [h₁.2.lexemes, hs']
      simp only [List.length_append, List.length_cons]
      omega
    · have hreach := hcomma.trans h₁.2
      refine (ih hts (hreach.depth.trans hdepth) (hreach.lexemes.trans hv.symm)).mono
        fun us s₂ h₂ => ?_
      exact ⟨by rw [List.map_cons, List.map_cons, h₁.1, h₂.1], hreach.trans h₂.2⟩

/-- The arguments in angle brackets are read back. -/
theorem reads_typeArguments {t : TypeRef} {ts : List TypeRef}
    (h : ∀ a ∈ t :: ts, ReadsType d fails argument a) {s : State} {ws : List Lexeme}
    (hdepth : s.depth = d)
    (hs : s.lexemes = t.lexemes ++ (TypeRef.tailLexemes ts ++ .ofKind .greater :: ws)) :
    Outcome (fun us s' => us.map TypeRef.unlocated = (t :: ts).map TypeRef.unlocated ∧
        s.Reaches (.ofKind .greater :: ws) s') fails
      (commaSeparated argument s) := by
  obtain ⟨ht, hts⟩ := List.forall_mem_cons.1 h
  obtain ⟨v, vs, hv, hends⟩ := exists_tailLexemes_append ts ws
  rw [hv] at hs
  unfold commaSeparated
  rw [outcome_bind]
  refine (ht s v vs hdepth hs hends).mono fun u s₁ h₁ => ?_
  rw [outcome_bind]
  refine (reads_tail hts (h₁.2.depth.trans hdepth) (h₁.2.lexemes.trans hv.symm)).mono
    fun us s₂ h₂ => ?_
  exact ⟨by rw [List.map_cons, List.map_cons, h₁.1, h₂.1], h₁.2.trans h₂.2⟩

/-- A name and type arguments, where no more of either follows. -/
theorem reads_namedTypeOf {name : String} (hname : IsDottedName name) {ts : List TypeRef}
    (h : ∀ a ∈ ts, ReadsType d fails argument a) {s : State} {w : Lexeme} {ws : List Lexeme}
    (hdepth : s.depth = d) (hw : w.kind ≠ .dot ∧ w.kind ≠ .less)
    (hs : s.lexemes = Script.dottedLexemes name ++ (TypeRef.argumentLexemes ts ++ w :: ws)) :
    Outcome (fun u s' => (∃ us span, u = ⟨name, false, us, false, span⟩ ∧
        us.map TypeRef.unlocated = ts.map TypeRef.unlocated) ∧ s.Reaches (w :: ws) s') fails
      (namedTypeOf argument s) := by
  obtain ⟨first, others, rfl, hnames⟩ := hname
  rw [Script.dottedLexemes_joinNames hnames] at hs
  unfold namedTypeOf
  rw [outcome_bind, outcome_position, outcome_bind]
  cases ts with
  | nil =>
    refine (reads_dottedName hw.1 hs).mono fun name s₁ h₁ => ?_
    obtain ⟨rfl, hreach⟩ := h₁
    rw [outcome_bind]
    refine outcome_accept_of hreach.lexemes hw.2 ?_
    exact ⟨⟨[], _, rfl, rfl⟩, hreach⟩
  | cons t ts =>
    have hs' : s.lexemes = nameLexemes first others ++ .ofKind .less ::
        (t.lexemes ++ (TypeRef.tailLexemes ts ++ .ofKind .greater :: w :: ws)) := by
      rw [hs, TypeRef.argumentLexemes]
      simp
    refine (reads_dottedName (by decide) hs').mono fun name s₁ h₁ => ?_
    obtain ⟨rfl, hreach⟩ := h₁
    have hless := State.reaches_next_of_ne_nil hreach.lexemes (by decide) (by simp)
    rw [outcome_bind, outcome_accept]
    refine ⟨fun _ => ?_, fun hne => absurd (State.kind_eq hreach.lexemes) hne⟩
    simp only [if_true, outcome_bind]
    have hreach := hreach.trans hless
    refine (reads_typeArguments h (hreach.depth.trans hdepth) hreach.lexemes).mono
      fun us s₂ h₂ => ?_
    refine outcome_expect_of h₂.2.lexemes rfl (by decide) fun hgreater => ?_
    exact ⟨⟨us, _, rfl, h₂.1⟩, (hreach.trans h₂.2).trans hgreater⟩

end

/-- The marks of a type are known from its suffixes. -/
theorem any_written {ys : List (TypeSuffix × Position)} {nullable isArray : Bool}
    (h : ys.map Prod.fst = TypeSuffix.written nullable isArray) :
    ys.any (·.1 = .nullable) = nullable ∧ ys.any (·.1 = .array) = isArray := by
  have hany (x : TypeSuffix) :
      ys.any (·.1 = x) = (TypeSuffix.written nullable isArray).any (· = x) := by
    rw [← h, List.any_map]
    rfl
  rw [hany, hany]
  cases nullable <;> cases isArray <;> decide

/-- After the type arguments stands no point and no angle bracket. -/
theorem exists_suffixLexemes_append (nullable isArray : Bool) {w : Lexeme} (hw : TypeEnds w.kind)
    (ws : List Lexeme) : ∃ v vs,
      (TypeSuffix.written nullable isArray).flatMap TypeSuffix.lexemes ++ w :: ws = v :: vs ∧
        v.kind ≠ .dot ∧ v.kind ≠ .less := by
  cases nullable <;> cases isArray
  · simp only [TypeEnds, List.mem_cons, not_or] at hw
    exact ⟨w, ws, rfl, hw.1, hw.2.1⟩
  all_goals exact ⟨_, _, rfl, by decide, by decide⟩

/-- A type is read back from its tokens, up to spans. -/
theorem reads_typeWithin {n d : Nat} {t : TypeRef} (h : t.WrittenWithin n)
    (hlimit : d + n ≤ nestingLimit) :
    ReadsType d (fun _ _ => False) (typeWithin n .default) t := by
  induction n generalizing d t with
  | zero => exact h.elim
  | succ n ih =>
    obtain ⟨hname, harguments⟩ := h
    intro s w ws hdepth hs hw
    obtain ⟨v, vs, hv, hdot⟩ := exists_suffixLexemes_append t.nullable t.isArray hw ws
    have hs₀ : State.lexemes { s with depth := s.depth + 1 } = Script.dottedLexemes t.name ++
        (TypeRef.argumentLexemes t.arguments ++ v :: vs) := by
      show s.lexemes = _
      rw [hs, TypeRef.lexemes_eq, List.append_assoc, List.append_assoc, hv]
    have hkind : s.kind = .identifier := by
      obtain ⟨first, others, hjoin, hnames⟩ := hname
      rw [hjoin, Script.dottedLexemes_joinNames hnames] at hs₀
      exact State.kind_eq (s := { s with depth := s.depth + 1 }) hs₀
    unfold typeWithin
    rw [outcome_bind, outcome_deepen]
    refine ⟨fun _ => ?_, fun hdeep => hdeep (by omega)⟩
    rw [outcome_bind, outcome_kind, outcome_ite]
    refine ⟨fun hne => absurd hkind hne, fun _ => ?_⟩
    rw [outcome_bind]
    -- The arguments are read one level further down.
    have hargument : ∀ a ∈ t.arguments,
        ReadsType (s.depth + 1) (fun _ _ => False) (typeWithin n .default) a :=
      fun a ha => ih (harguments a ha) (by omega)
    refine (reads_namedTypeOf hname hargument rfl hdot hs₀).mono fun u s₁ h₁ => ?_
    obtain ⟨⟨us, span, rfl, hus⟩, hreach⟩ := h₁
    rw [outcome_bind]
    have hends : w.kind ≠ .question ∧ w.kind ≠ .openBracket := by
      simp only [TypeEnds, List.mem_cons, not_or] at hw
      exact ⟨hw.2.2.1, hw.2.2.2.1⟩
    refine (reads_typeSuffixes _ hends (hreach.lexemes.trans hv.symm)).mono fun ys s₂ h₂ => ?_
    obtain ⟨hys, hreach'⟩ := h₂
    rw [outcome_bind, outcome_surface, outcome_pure]
    refine ⟨?_, State.AtDepth.leave (s.atDepth _) (hreach.trans hreach') (s₂.atDepth _)⟩
    obtain ⟨hnullable, hisArray⟩ := any_written hys
    rw [unlocated_foldl_withSuffix, hnullable, hisArray, TypeRef.unlocatedAll_eq_map, hus,
      ← TypeRef.unlocatedAll_eq_map]
    cases t
    rfl

/-! ### What is read can be written -/

/-- A type that is read has one level more than its arguments. -/
theorem written_namedTypeOf {n : Nat} {argument : Parse TypeRef}
    (hargument : ∀ s : State, s.Under Token.IsLexeme anyState →
      Outcome (fun t s' => t.WrittenWithin n ∧ s'.Under Token.IsLexeme anyState) anyError
        (argument s))
    {s : State} (hs : s.Under Token.IsLexeme anyState) :
    Outcome (fun t s' => t.WrittenWithin (n + 1) ∧ s'.Under Token.IsLexeme anyState) anyError
      (namedTypeOf argument s) := by
  unfold namedTypeOf
  rw [outcome_bind, outcome_position, outcome_bind]
  refine (returns_dottedName "type" hs).mono fun name s₁ h₁ => ?_
  have hname := isDottedName_of_dotted h₁.1
  rw [outcome_bind, outcome_accept]
  refine ⟨fun _ => ?_, fun _ => ⟨⟨hname, List.forall_mem_nil _⟩, h₁.2⟩⟩
  simp only [if_true, outcome_bind]
  refine (outcome_commaSeparated (fun _ h => h.next) hargument s₁.next h₁.2.next).mono
    fun arguments s₂ h₂ => ?_
  rw [outcome_expect]
  exact ⟨fun _ => ⟨⟨hname, h₂.1⟩, h₂.2.next⟩, fun _ => trivial⟩

/-- By induction on the levels that are left. -/
theorem written_typeWithin (n : Nat) (power : Power) {s : State}
    (hs : s.Under Token.IsLexeme anyState) :
    Outcome (fun t s' => t.WrittenWithin n ∧ s'.Under Token.IsLexeme anyState) anyError
      (typeWithin n power s) := by
  induction n generalizing power s with
  | zero => exact trivial
  | succ n ih =>
    unfold typeWithin
    rw [outcome_bind, outcome_deepen]
    refine ⟨fun _ => ?_, fun _ => trivial⟩
    rw [outcome_bind, outcome_kind, outcome_ite]
    refine ⟨fun _ => trivial, fun _ => ?_⟩
    rw [outcome_bind]
    refine (written_namedTypeOf (fun _ h => ih .default h) (hs.withDepth _)).mono
      fun t s₁ h₁ => ?_
    rw [outcome_bind]
    refine (outcome_many (fun _ h _ => returns_typeSuffix h) s₁ h₁.2).mono fun ys s₂ h₂ => ?_
    rw [outcome_bind, outcome_surface, outcome_pure]
    refine ⟨⟨?_, ?_⟩, h₂.2.withDepth _⟩
    · rw [foldl_withSuffix_name]
      exact h₁.1.1
    · rw [(foldl_withSuffix ys t).1]
      exact h₁.1.2

theorem ofTokens_subset {source : String} {tokens : List Token}
    (h : tokenize source = .ok tokens) : (State.ofTokens tokens).tokens ⊆ tokens := by
  rw [ofTokens_tokens_of_tokenize h]
  exact List.Subset.refl tokens

end Parse

/-! ### There and back -/

namespace TypeRef

/-- Spans do not matter. -/
theorem writtenWithin_unlocated {n : Nat} {t : TypeRef} :
    t.unlocated.WrittenWithin n ↔ t.WrittenWithin n := by
  induction n generalizing t with
  | zero => exact Iff.rfl
  | succ n ih =>
    obtain ⟨name, nullable, arguments, isArray, span⟩ := t
    simp only [unlocated, WrittenWithin, unlocatedAll_eq_map, List.forall_mem_map, ih]

/-- The text of a type is scanned, all its tokens are read as a type, and this is the same type up
to spans. -/
def ReadsBack (t : TypeRef) : Prop :=
  ∃ tokens u s, tokenize t.display = .ok tokens ∧
    typeRef .default (.ofTokens tokens) = .ok u s ∧ s.lexemes = [.eof] ∧
    u.unlocated = t.unlocated

/-- A type that can be written is read back from its text. -/
theorem readsBack_of_writtenWithin {t : TypeRef} (h : t.WrittenWithin nestingLimit) :
    t.ReadsBack := by
  obtain ⟨tokens, htokens, hlexemes⟩ :=
    (scanned_of_writtenWithin h).scans.tokenize nofun
  have hread := reads_typeWithin h (Nat.le_of_eq (Nat.zero_add _)) (.ofTokens tokens) .eof [] rfl
    (State.lexemes_ofTokens hlexemes) (by simp [TypeEnds, Lexeme.eof])
  obtain ⟨u, s, hrun, hu, hreach⟩ := hread.exists_ok
  exact ⟨tokens, u, s, htokens, hrun, hreach.lexemes, hu⟩

/-- What was read from the tokens of a text can be written. -/
theorem writtenWithin_of_typeRef {source : String} {tokens : List Token}
    (htokens : tokenize source = .ok tokens) {s s' : State} (hs : s.tokens ⊆ tokens)
    {power : Power} {t : TypeRef} (h : typeRef power s = .ok t s') :
    t.WrittenWithin nestingLimit := by
  have hlexemes : s.Over Token.IsLexeme := fun x hx => isLexeme_of_tokenize htokens x (hs hx)
  obtain ⟨hwritten, -⟩ := (written_typeWithin s.budget power hlexemes.under).of_eq_ok h
  obtain ⟨hnames, hnesting⟩ := writtenWithin_iff.1 hwritten
  exact writtenWithin_iff.2 ⟨hnames, Nat.le_trans hnesting (Nat.sub_le _ _)⟩

/-- What is read back was read from the tokens of a text. -/
theorem ReadsBack.writtenWithin {t : TypeRef} (h : t.ReadsBack) :
    t.WrittenWithin nestingLimit := by
  obtain ⟨tokens, u, s, htokens, hrun, -, hu⟩ := h
  rw [← writtenWithin_unlocated, ← hu, writtenWithin_unlocated]
  exact writtenWithin_of_typeRef htokens (ofTokens_subset htokens) hrun

end TypeRef

/-- A type is read back from its text, up to spans, exactly if its names are names of the language
joined by points and it has no more levels than can be read. Whatever is read as a type from tokens
of a text is read back from its own text. -/
theorem display_reads_back :
    (∀ t : TypeRef, t.ReadsBack ↔ t.HasNames ∧ t.nesting ≤ nestingLimit) ∧
    ∀ source tokens, tokenize source = .ok tokens → ∀ s : State, s.tokens ⊆ tokens →
      ∀ power t s', typeRef power s = .ok t s' → t.ReadsBack := by
  refine ⟨fun t => ?_, fun source tokens htokens s hs power t s' hrun => ?_⟩
  · rw [← TypeRef.writtenWithin_iff]
    exact ⟨TypeRef.ReadsBack.writtenWithin, TypeRef.readsBack_of_writtenWithin⟩
  · exact TypeRef.readsBack_of_writtenWithin (TypeRef.writtenWithin_of_typeRef htokens hs hrun)

instance {α : Type} {ok : α → State → Prop} {fails : CompileError → State → Prop}
    [∀ a s, Decidable (ok a s)] [∀ e s, Decidable (fails e s)] :
    (r : EStateM.Result CompileError State α) → Decidable (Outcome ok fails r)
  | .ok a s => inferInstanceAs (Decidable (ok a s))
  | .error e s => inferInstanceAs (Decidable (fails e s))

/-- Blanks, comments, suffixes in another order and one that stands twice are not written again. -/
theorem display_reads_back_untidy :
    ∃ tokens t s, tokenize "A . Map<K ? ?,List<V> /**/ >[]? x" = .ok tokens ∧
      typeRef .default (.ofTokens tokens) = .ok t s ∧ t.display = "A.Map<K?, List<V>>?[]" ∧
      t.nesting = 3 ∧ t.HasNames ∧ t.ReadsBack := by
  have hfound : ∃ tokens, tokenize "A . Map<K ? ?,List<V> /**/ >[]? x" = .ok tokens ∧
      Outcome (fun t _ => t.display = "A.Map<K?, List<V>>?[]" ∧ t.nesting = 3) (fun _ _ => False)
        (typeRef .default (.ofTokens tokens)) := exists_eq_ok (by decide +kernel)
  obtain ⟨tokens, htokens, hread⟩ := hfound
  obtain ⟨t, s, hrun, hdisplay, hnesting⟩ := hread.exists_ok
  obtain ⟨hiff, hread⟩ := display_reads_back
  have hback := hread _ tokens htokens _ (ofTokens_subset htokens) .default t s hrun
  exact ⟨tokens, t, s, htokens, hrun, hdisplay, hnesting, ((hiff t).1 hback).1, hback⟩

end ClassScript

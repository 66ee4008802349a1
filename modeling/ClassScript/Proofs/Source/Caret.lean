import ClassScript.Proofs.Check.Pointing

/-!
# The arrow under a line

A report shows a line without its leading blanks, and draws an arrow under the place in question.
The arrow is as long as the text from the first character shown up to the place has bytes. So it
ends under the character at the place exactly if each character of that text is one byte
(`caret_points_exactly`). Behind a line feed that ends the text, the line above is shown, and the
arrow is never right.
-/

namespace ClassScript

open Text Lexical

namespace Source

/-! ### The line of a place -/

/-- The line of the place between `before` and `rest`, with the line feed that closes it. -/
def lineAround (before rest : List Char) : List Char := lastLine before ++ firstLine rest

/-- The blanks that a line begins with. -/
def indent (line : List Char) : List Char := line.takeWhile isIndent

/-- What can be seen of a line, from its first character that is not blank on. -/
def visible (line : List Char) : List Char := trimEnd (line.dropWhile isIndent)

/-- The place is not inside the leading blanks of its line, and not past its visible text. -/
structure InVisible (before rest : List Char) : Prop where
  indent_le : (indent (lineAround before rest)).length ≤ (lastLine before).length
  le_visible : (lastLine before).length ≤
    (indent (lineAround before rest)).length + (visible (lineAround before rest)).length

/-- The characters between the first that is not blank in a line and the place. -/
def ahead (before rest : List Char) : List Char :=
  (lastLine before).drop (indent (lineAround before rest)).length

theorem trimEnd_begins (cs : List Char) : trimEnd cs <+: cs := by
  rw [trimEnd, ← List.reverse_suffix, List.reverse_reverse]
  exact List.dropWhile_suffix _

theorem firstLine_begins (cs : List Char) : firstLine cs <+: cs := by
  have hparts := (List.prefix_append_right_inj (cs.takeWhile (· ≠ '\n'))).2
    (List.take_prefix 1 (cs.dropWhile (· ≠ '\n')))
  rwa [List.takeWhile_append_dropWhile] at hparts

section

variable {before rest : List Char}

/-- The text before the place in its line begins with the blanks of the line. -/
theorem indent_append_ahead (h : InVisible before rest) :
    lastLine before = indent (lineAround before rest) ++ ahead before rest := by
  have hline : indent (lineAround before rest) <+: lineAround before rest :=
    List.takeWhile_prefix _
  have hindent : indent (lineAround before rest) <+: lastLine before :=
    List.prefix_of_prefix_length_le hline (List.prefix_append _ _) h.indent_le
  exact (List.prefix_iff_eq_append.1 hindent).symm

/-- Without these blanks, the line begins with what is ahead of the place. -/
theorem dropWhile_lineAround (h : InVisible before rest) :
    (lineAround before rest).dropWhile isIndent = ahead before rest ++ firstLine rest := by
  have hline : lineAround before rest =
      indent (lineAround before rest) ++ (ahead before rest ++ firstLine rest) := by
    rw [← List.append_assoc, ← indent_append_ahead h]
    rfl
  have hparts := List.takeWhile_append_dropWhile (p := isIndent) (l := lineAround before rest)
  exact List.append_cancel_left (hparts.trans hline)

/-- The visible text goes on from the place with what follows there. -/
theorem exists_visible_eq (h : InVisible before rest) :
    ∃ more, visible (lineAround before rest) = ahead before rest ++ more ∧ more <+: rest := by
  have hshown : visible (lineAround before rest) <+: ahead before rest ++ firstLine rest := by
    rw [← dropWhile_lineAround h]
    exact trimEnd_begins _
  have hlength : (ahead before rest).length ≤ (visible (lineAround before rest)).length := by
    have := h.le_visible
    rw [ahead, List.length_drop]
    omega
  obtain ⟨more, hmore⟩ :=
    List.prefix_of_prefix_length_le (List.prefix_append _ _) hshown hlength
  refine ⟨more, hmore.symm, ?_⟩
  rw [← hmore, List.prefix_append_right_inj] at hshown
  exact hshown.trans (firstLine_begins rest)

end

/-! ### The length of the arrow -/

theorem length_le_byteLength (cs : List Char) : cs.length ≤ byteLength cs := by
  induction cs with
  | nil => exact Nat.le_refl 0
  | cons c cs ih =>
    have := c.utf8Size_pos
    rw [List.length_cons, byteLength_cons]
    omega

/-- A text has as many bytes as characters if each character is one byte. -/
theorem byteLength_eq_length_iff {cs : List Char} :
    byteLength cs = cs.length ↔ ∀ c ∈ cs, c.utf8Size = 1 := by
  induction cs with
  | nil => simp
  | cons c cs ih =>
    have := c.utf8Size_pos
    have := length_le_byteLength cs
    rw [List.forall_mem_cons, ← ih, List.length_cons, byteLength_cons]
    omega

theorem isIndent_of_mem_indent {line : List Char} {c : Char} (h : c ∈ indent line) :
    isIndent c = true :=
  List.all_eq_true.1 List.all_takeWhile c h

/-- Blanks are one byte each. -/
theorem byteLength_indent (line : List Char) : byteLength (indent line) = (indent line).length := by
  rw [byteLength_eq_length_iff]
  intro c hc
  have hindent := isIndent_of_mem_indent hc
  simp only [isIndent, Bool.or_eq_true, beq_iff_eq] at hindent
  rcases hindent with rfl | rfl <;> rfl

/-- The arrow is as long as what is ahead of the place has bytes. -/
theorem byteLength_lastLine_sub {before rest : List Char} (h : InVisible before rest) :
    byteLength (lastLine before) - (indent (lineAround before rest)).length =
      byteLength (ahead before rest) := by
  conv_lhs => rw [indent_append_ahead h, byteLength_append, byteLength_indent]
  omega

/-- Behind a closed line the arrow is not empty. -/
theorem length_indent_lt (line : List Char) :
    (indent (line ++ ['\n'])).length < byteLength (line ++ ['\n']) := by
  have hbegins : indent (line ++ ['\n']) <+: line ++ ['\n'] := List.takeWhile_prefix _
  have hne : (indent (line ++ ['\n'])).length ≠ (line ++ ['\n']).length := by
    intro hlength
    have hmem : '\n' ∈ indent (line ++ ['\n']) := by
      rw [hbegins.eq_of_length hlength]
      simp
    cases isIndent_of_mem_indent hmem
  have hle := hbegins.length_le
  have hbytes := length_le_byteLength (line ++ ['\n'])
  omega

/-- The report shows the place between `before` and `rest`. The arrow is right, which is to say as
long as the text ahead of the place, exactly if each character of that text is one byte and the
line shown is that of the place. Then what stands over its tip is what follows the place. -/
structure Shows (before rest : List Char) (r : Report) : Prop where
  shown : ¬ BehindLastLine (before ++ rest) (byteLength before) →
    r.shown = visible (lineAround before rest)
  right_iff : r.reach = (ahead before rest).length ↔
    ¬ BehindLastLine (before ++ rest) (byteLength before) ∧
      ∀ c ∈ ahead before rest, c.utf8Size = 1
  tip : r.reach = (ahead before rest).length →
    ∃ more, r.shown = ahead before rest ++ more ∧ more <+: rest

/-- What a report shows of a place in the visible part of its line. -/
theorem shows_of_lineAt? {before rest : List Char} (h : InVisible before rest) {place : LinePlace}
    (hplace : lineAt? (before ++ rest) (byteLength before) = some place)
    (heading fileName : String) (p : Position) :
    Shows before rest (place.report heading fileName p) := by
  by_cases hbehind : BehindLastLine (before ++ rest) (byteLength before)
  · -- The line of the place is empty, but the arrow is measured in the one above.
    obtain ⟨rfl, hlast⟩ := behindLastLine_append_iff.1 hbehind
    obtain ⟨cs, rfl⟩ := List.getLast?_eq_some_iff.1 hlast
    rw [List.append_nil, lineAt?_behind, Option.some.injEq] at hplace
    subst hplace
    have hpos := length_indent_lt (lastLine cs)
    have hahead : (ahead (cs ++ ['\n']) []).length = 0 := by
      rw [ahead, List.length_drop, lastLine_newline]
      exact Nat.zero_sub _
    have hreach : (byteLength (lastLine cs ++ ['\n']) -
        (indent (lastLine cs ++ ['\n'])).length) ≠ 0 := by omega
    refine ⟨(absurd hbehind ·), iff_of_false ?_ fun hright => hright.1 hbehind, fun hright => ?_⟩
    · rw [hahead]
      exact hreach
    · rw [hahead] at hright
      exact absurd hright hreach
  · rw [lineAt?_append hbehind, Option.some.injEq] at hplace
    subst hplace
    have hreach := byteLength_lastLine_sub h
    refine ⟨fun _ => rfl, ?_, fun _ => exists_visible_eq h⟩
    rw [and_iff_right hbehind, ← byteLength_eq_length_iff, ← hreach]
    rfl

end Source

/-! ### Every report -/

open Source

/-- A report on a text: `text` is the report on an error or on a diagnostic, at position `p`. -/
inductive Reported (source fileName : String) : Position → String → Prop
  | error {e : CompileError} : compile source = .error e →
      Reported source fileName e.position (e.render source fileName)
  | diagnostic {unit : CompilationUnit} {d : Check.Diagnostic} : compile source = .ok unit →
      d ∈ check unit source → Reported source fileName d.span.start (d.render source fileName)

theorem isTrue_of_check {source : String} {unit : CompilationUnit} (h : compile source = .ok unit)
    {d : Check.Diagnostic} (hd : d ∈ check unit source) : d.span.start.IsTrue source := by
  rw [check_eq, List.mem_map] at hd
  obtain ⟨r, hr, rfl⟩ := hd
  obtain ⟨tokens, -, htokens, -⟩ := compile_eq_ok_iff.1 h
  obtain ⟨_, n, _, hwithin, -, front, lead, after, rest, hstands⟩ :=
    exists_standsIn_of_report h htokens hr
  rcases hstands.nameSpan with ⟨-, hspan⟩ | ⟨a, b, hlead, -, hspan⟩
  · rw [Check.locate, hspan]
    exact (isTrue_of_tokenize htokens n (hwithin.subset (by simp))).1
  · rw [Check.locate, hspan]
    refine isTrue_iff.2
      ⟨front ++ a, r.1.name.toList ++ (b ++ (r.1.name.toList ++ (after ++ rest))), ?_, rfl⟩
    rw [hstands.source_eq, hlead]
    simp only [List.append_assoc]

/-- A report is about a position that a scan can be at. -/
theorem Reported.isTrue {source fileName text : String} {p : Position}
    (h : Reported source fileName p text) : p.IsTrue source := by
  cases h with
  | error he => exact (isTrue_of_compile_error he).1
  | diagnostic hunit hd => exact isTrue_of_check hunit hd

/-- Errors and diagnostics are laid out alike. -/
theorem Reported.exists_snippet {source fileName text : String} {p : Position}
    (h : Reported source fileName p text) :
    ∃ label headline hint, text = snippet label headline hint p source fileName := by
  cases h with
  | error => exact ⟨_, _, _, rfl⟩
  | diagnostic => exact ⟨_, _, _, rfl⟩

/-- The arrow of a report on a place in the visible text of a line ends under the character at the
place exactly if the characters of the line ahead of the place are one byte each, and the place is
not behind a line feed that ends the text. -/
theorem caret_points_exactly {source fileName text : String} {p : Position}
    (h : Reported source fileName p text) :
    ∃ before rest, source.toList = before ++ rest ∧ p = Position.start.after before ∧
      ∃ r : Report, text = r.text ∧ r.fileName = fileName ∧ r.position = p ∧
        (InVisible before rest → Shows before rest r) := by
  obtain ⟨before, rest, hsource, rfl⟩ := isTrue_iff.1 h.isTrue
  obtain ⟨place, _, hfound⟩ := exists_foundAt h.isTrue
  obtain ⟨label, headline, hint, htext⟩ := h.exists_snippet
  have hline := hfound.line
  refine ⟨before, rest, hsource, rfl, _, htext.trans (snippet_eq hline fileName), rfl, rfl, ?_⟩
  rw [hsource, offset_start_after] at hline
  exact fun hvisible => shows_of_lineAt? hvisible hline _ _ _

/-- A tab before the text of the line is not counted. -/
theorem caret_points_exactly_indented :
    let source := "class A \x7b\n\tint = 1;\n\x7d"
    ∃ e, compile source = .error e ∧ e.position = ⟨2, 6, 15⟩ ∧
      ∃ before rest, source.toList = before ++ rest ∧ e.position = Position.start.after before ∧
        InVisible before rest ∧
        ∃ r : Report, e.render source "A.cs" = r.text ∧ r.fileName = "A.cs" ∧
          r.position = e.position ∧ r.shown = "int = 1;".toList ∧ r.reach = 4 := by
  intro source
  have hfails : ∃ e, compile source = .error e ∧ e.position = ⟨2, 6, 15⟩ :=
    exists_eq_error (by decide +kernel)
  obtain ⟨e, he, hposition⟩ := hfails
  obtain ⟨before, rest, hsource, hafter, r, htext, hfile, hr, hshows⟩ :=
    caret_points_exactly (.error he : Reported source "A.cs" _ _)
  have hsplit : source.toList = "class A \x7b\n\tint ".toList ++ "= 1;\n\x7d".toList := by
    decide +kernel
  obtain rfl : before = "class A \x7b\n\tint ".toList := by
    refine append_inj_of_byteLength hsource hsplit ?_
    rw [← offset_start_after, ← hafter, hposition]
    decide +kernel
  obtain rfl : rest = "= 1;\n\x7d".toList := List.append_cancel_left (hsource.symm.trans hsplit)
  have hvisible : InVisible "class A \x7b\n\tint ".toList "= 1;\n\x7d".toList :=
    ⟨by decide +kernel, by decide +kernel⟩
  obtain ⟨hshown, hright, -⟩ := hshows hvisible
  refine ⟨e, he, hposition, _, _, hsource, hafter, hvisible, r, htext, hfile, hr, ?_, ?_⟩
  · rw [hshown (by decide +kernel)]
    decide +kernel
  · have hbytes : (ahead "class A \x7b\n\tint ".toList "= 1;\n\x7d".toList).all
        (fun c => c.utf8Size = 1) = true := by decide +kernel
    rw [hright.2 ⟨by decide +kernel, by simpa using hbytes⟩]
    decide +kernel

/-- A character of two bytes ahead of the place makes the arrow one character too long. -/
theorem caret_past_wide_character :
    let before := "class A \x7b string s = \"é\" "
    let rest := "1; \x7d"
    InVisible before.toList rest.toList ∧ (ahead before.toList rest.toList).length = 25 ∧
      ∃ e, compile (before ++ rest) = .error e ∧
        e.position = Position.start.after before.toList ∧
        e.render (before ++ rest) "A.cs" =
          "Error: UnexpectedToken (expected `;`, found `1`)\n-> A.cs:1:26\n  |\n" ++
          "1 | class A \x7b string s = \"é\" 1; \x7d\n  | --------------------------^\n" :=
  ⟨⟨by decide +kernel, by decide +kernel⟩, by decide +kernel, exists_eq_error (by decide +kernel)⟩

end ClassScript

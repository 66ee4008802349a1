import ClassScript.Proofs.Parse.Positions
import ClassScript.Source.Snippet

/-!
# Positions from lines

The position of an offset is computed in two ways. A scan counts lines and columns while it
reads. A report cuts the whole text into lines and takes the one that reaches beyond the
offset; the end of the text has no such line and is given to the last one.

The two agree at every offset but one: behind a line feed that ends the text, a scan is at the
beginning of a new line, while a report is still at the end of the line before
(`lineAt?_append`, `lineAt?_behind`). So the number beside the shown line of an error can differ
from the line in its heading, and does so exactly there.
-/

namespace ClassScript

open Text (byteLength byteLength_append splitAtByte?)

namespace Source

/-! ### The lines of a text -/

/-- Every line of the text is closed by a line feed. -/
def Closed (cs : List Char) : Prop := cs = [] ∨ cs.getLast? = some '\n'

/-- The first line of a text, with its line feed. -/
def firstLine (cs : List Char) : List Char :=
  cs.takeWhile (· ≠ '\n') ++ (cs.dropWhile (· ≠ '\n')).take 1

theorem lines_newline (cs : List Char) : lines ('\n' :: cs) = ['\n'] :: lines cs := by
  rw [lines, if_pos rfl]

theorem lines_cons {c : Char} {cs line : List Char} {rest : List (List Char)} (hc : c ≠ '\n')
    (h : lines cs = line :: rest) : lines (c :: cs) = (c :: line) :: rest := by
  rw [lines, if_neg hc, h]

theorem lines_eq_nil_iff {cs : List Char} : lines cs = [] ↔ cs = [] := by
  cases cs with
  | nil => simp [lines]
  | cons c cs =>
    rw [lines]
    split
    · simp
    · split <;> simp

/-- Nothing is lost if a text is cut into lines. -/
theorem flatten_lines (cs : List Char) : (lines cs).flatten = cs := by
  fun_induction lines cs with
  | case1 => rfl
  | case2 cs ih => simp [ih]
  | case3 c cs hc hnil =>
    rw [lines_eq_nil_iff.1 hnil]
    rfl
  | case4 c cs hc line rest hlines ih =>
    rw [hlines] at ih
    simpa using ih

theorem Closed.of_cons {c : Char} {cs : List Char} (h : Closed (c :: cs)) : Closed cs := by
  cases cs with
  | nil => exact .inl rfl
  | cons d cs => exact .inr (by simpa [Closed] using h)

/-- Closed lines can stand before any text. -/
theorem lines_append {cs : List Char} (h : Closed cs) (ds : List Char) :
    lines (cs ++ ds) = lines cs ++ lines ds := by
  induction cs with
  | nil => rfl
  | cons c cs ih =>
    rw [List.cons_append]
    by_cases hc : c = '\n'
    · rw [hc, lines_newline, lines_newline, ih h.of_cons, List.cons_append]
    · -- A line that has begun goes on, since only a line feed closes it.
      have hne : cs ≠ [] := by
        rintro rfl
        exact hc (by simpa [Closed] using h)
      obtain ⟨line, rest, hlines⟩ := List.exists_cons_of_ne_nil (mt lines_eq_nil_iff.1 hne)
      rw [lines_cons hc hlines, lines_cons hc (by rw [ih h.of_cons, hlines, List.cons_append]),
        List.cons_append]

/-- A text that is closed has as many lines as line feeds. -/
theorem length_lines {cs : List Char} (h : Closed cs) : (lines cs).length = cs.count '\n' := by
  induction cs with
  | nil => rfl
  | cons c cs ih =>
    by_cases hc : c = '\n'
    · rw [hc, lines_newline, List.length_cons, ih h.of_cons, List.count_cons_self]
    · have hne : cs ≠ [] := by
        rintro rfl
        exact hc (by simpa [Closed] using h)
      obtain ⟨line, rest, hlines⟩ := List.exists_cons_of_ne_nil (mt lines_eq_nil_iff.1 hne)
      rw [List.count_cons_of_ne hc, ← ih h.of_cons, lines_cons hc hlines, hlines]
      rfl

/-- A line is a text without line feeds, but for one at its end. -/
theorem lines_line {line feed : List Char} (h : '\n' ∉ line) (hfeed : feed = [] ∨ feed = ['\n'])
    (hne : line ++ feed ≠ []) : lines (line ++ feed) = [line ++ feed] := by
  induction line with
  | nil =>
    rcases hfeed with rfl | rfl
    · exact absurd rfl hne
    · rfl
  | cons c line ih =>
    obtain ⟨hc, hline⟩ := not_or.1 (mt List.mem_cons.2 h)
    by_cases hnil : line ++ feed = []
    · simp [hnil, lines, Ne.symm hc]
    · exact lines_cons (Ne.symm hc) (ih hline hnil)

/-- The first line, in the words of its characters. -/
theorem exists_lines_eq_cons {cs : List Char} (h : cs ≠ []) :
    ∃ more, lines cs = firstLine cs :: more := by
  induction cs with
  | nil => exact absurd rfl h
  | cons c cs ih =>
    by_cases hc : c = '\n'
    · exact ⟨lines cs, by rw [hc, lines_newline]; simp [firstLine]⟩
    · have hfirst : firstLine (c :: cs) = c :: firstLine cs := by simp [firstLine, hc]
      by_cases hnil : cs = []
      · exact ⟨[], by simp [hnil, lines, hc, firstLine]⟩
      · obtain ⟨more, hmore⟩ := ih hnil
        exact ⟨more, by rw [lines_cons hc hmore, hfirst]⟩

/-- A text without a line feed goes on in the same line. -/
theorem firstLine_append {line : List Char} (h : '\n' ∉ line) (rest : List Char) :
    firstLine (line ++ rest) = line ++ firstLine rest := by
  have hline : ∀ c ∈ line, decide (c ≠ '\n') = true := by
    intro c hc
    exact decide_eq_true fun heq => h (heq ▸ hc)
  rw [firstLine, List.takeWhile_append_of_pos hline, List.dropWhile_append_of_pos hline,
    List.append_assoc]
  rfl

theorem firstLine_ne_nil {cs : List Char} (h : cs ≠ []) : firstLine cs ≠ [] := by
  obtain ⟨c, cs, rfl⟩ := List.exists_cons_of_ne_nil h
  by_cases hc : c = '\n' <;> simp [firstLine, hc]

theorem newline_not_mem_lastLine (cs : List Char) : '\n' ∉ lastLine cs := by
  rw [lastLine, List.mem_reverse]
  intro hmem
  have := List.all_eq_true.1 (List.all_takeWhile (p := (· ≠ '\n')) (l := cs.reverse)) _ hmem
  simp at this

/-- A text is its closed lines, as many as it has line feeds, and its last line. -/
theorem exists_closed_append (cs : List Char) :
    ∃ front, cs = front ++ lastLine cs ∧ Closed front ∧ front.count '\n' = cs.count '\n' := by
  induction cs using List.reverseRecOn with
  | nil => exact ⟨[], rfl, .inl rfl, rfl⟩
  | append_singleton cs c ih =>
    by_cases hc : c = '\n'
    · subst hc
      refine ⟨cs ++ ['\n'], ?_, .inr (by simp), rfl⟩
      rw [lastLine_newline, List.append_nil]
    · obtain ⟨front, hcs, hclosed, hcount⟩ := ih
      refine ⟨front, ?_, hclosed, by simp [hcount, hc]⟩
      rw [lastLine_concat hc, ← List.append_assoc, ← hcs]

/-! ### The line of an offset -/

/-- Lines that end before the offset are passed over. -/
theorem placeIn?_append {offset number start : Nat} {before : List (List Char)}
    (h : start + byteLength before.flatten ≤ offset) (after : List (List Char)) :
    placeIn? offset number start (before ++ after) =
      placeIn? offset (number + before.length) (start + byteLength before.flatten) after := by
  induction before generalizing number start with
  | nil => rfl
  | cons line before ih =>
    rw [List.flatten_cons, byteLength_append] at h
    rw [List.cons_append, placeIn?, if_neg (by omega), ih (by omega), List.length_cons,
      List.flatten_cons, byteLength_append, Nat.add_assoc start, Nat.add_assoc number,
      Nat.add_comm 1]

/-- An offset that is in the first line is found there. -/
theorem placeIn?_head {offset number start : Nat} {line : List Char} (after : List (List Char))
    (h : start ≤ offset ∧ offset < start + byteLength line) :
    placeIn? offset number start (line :: after) = some ⟨number, line, offset - start⟩ := by
  rw [placeIn?, if_pos h]

/-- The end of the text is given to the last line. -/
theorem lineAt?_length (cs : List Char) : lineAt? cs (byteLength cs) = some (endPlace cs) := by
  have hnone : placeIn? (byteLength cs) 1 0 (lines cs) = none := by
    rw [← List.append_nil (lines cs), placeIn?_append (by rw [flatten_lines]; omega)]
    rfl
  rw [lineAt?, hnone]
  exact if_pos rfl

/-- The offset is behind a line feed that ends the text. -/
def BehindLastLine (cs : List Char) (offset : Nat) : Prop :=
  offset = byteLength cs ∧ cs.getLast? = some '\n'

instance (cs : List Char) (offset : Nat) : Decidable (BehindLastLine cs offset) :=
  inferInstanceAs (Decidable (_ ∧ _))

/-- Only the end of a text can be behind its last line. -/
theorem behindLastLine_append_iff {before rest : List Char} :
    BehindLastLine (before ++ rest) (byteLength before) ↔
      rest = [] ∧ before.getLast? = some '\n' := by
  have hlength : byteLength before = byteLength (before ++ rest) ↔ rest = [] := by
    rw [byteLength_append]
    constructor
    · intro heq
      by_contra hne
      have := byteLength_pos hne
      omega
    · rintro rfl
      rfl
  rw [BehindLastLine, hlength]
  refine and_congr_right fun hnil => ?_
  rw [hnil, List.append_nil]

/-- The line of a place is what stands before it since the last line feed, and what follows up
to the next one. -/
theorem lineAt?_append {before rest : List Char}
    (h : ¬ BehindLastLine (before ++ rest) (byteLength before)) :
    lineAt? (before ++ rest) (byteLength before) =
      some ⟨1 + before.count '\n', lastLine before ++ firstLine rest,
        byteLength (lastLine before)⟩ := by
  rw [behindLastLine_append_iff] at h
  obtain ⟨front, hbefore, hclosed, hcount⟩ := exists_closed_append before
  have hlines : lines (before ++ rest) = lines front ++ lines (lastLine before ++ rest) := by
    rw [← lines_append hclosed, ← List.append_assoc, ← hbefore]
  have hlength : byteLength before = byteLength front + byteLength (lastLine before) := by
    rw [← byteLength_append, ← hbefore]
  have hfirst := firstLine_append (newline_not_mem_lastLine before) rest
  by_cases hrest : rest = []
  · -- The end of the text is given to its last line, which has not been closed.
    subst hrest
    rw [List.append_nil] at hlines
    rw [List.append_nil] at hlines
    rw [List.append_nil, lineAt?_length, endPlace]
    by_cases hlast : lastLine before = []
    · have hnil : before = [] := by
        rcases hclosed with rfl | hclosed
        · rwa [List.nil_append, hlast] at hbefore
        · rw [hlast, List.append_nil] at hbefore
          exact absurd ⟨rfl, hbefore ▸ hclosed⟩ h
      rw [hnil]
      rfl
    · have hone := lines_line (newline_not_mem_lastLine before) (.inl rfl) (by simpa using hlast)
      rw [List.append_nil] at hone
      rw [hlines, hone]
      simp [length_lines hclosed, hcount, firstLine, Nat.add_comm]
  · have hne : lastLine before ++ rest ≠ [] := by simp [hrest]
    obtain ⟨more, hmore⟩ := exists_lines_eq_cons hne
    have hpos := byteLength_pos (firstLine_ne_nil hrest)
    rw [lineAt?, hlines, hmore, hfirst, hlength]
    rw [placeIn?_append (by rw [flatten_lines]; omega), flatten_lines,
      placeIn?_head _ ⟨by omega, by rw [byteLength_append]; omega⟩, length_lines hclosed, hcount]
    simp

/-- Behind a line feed that ends the text, the line is the one that the line feed closes. -/
theorem lineAt?_behind (cs : List Char) :
    lineAt? (cs ++ ['\n']) (byteLength (cs ++ ['\n'])) =
      some ⟨1 + cs.count '\n', lastLine cs ++ ['\n'], byteLength (lastLine cs ++ ['\n'])⟩ := by
  obtain ⟨front, hcs, hclosed, hcount⟩ := exists_closed_append cs
  have hlines : lines (cs ++ ['\n']) = lines front ++ lines (lastLine cs ++ ['\n']) := by
    rw [← lines_append hclosed, ← List.append_assoc, ← hcs]
  have hone := lines_line (newline_not_mem_lastLine cs) (.inr rfl) (by simp)
  rw [lineAt?_length, endPlace, hlines, hone]
  simp [length_lines hclosed, hcount, Nat.add_comm]

/-! ### The position of an offset -/

theorem offset_start_after (cs : List Char) : (Position.start.after cs).offset = byteLength cs := by
  rw [offset_after]
  exact Nat.zero_add _

/-- A true position is come to by reading what is before it. -/
theorem isTrue_iff {source : String} {p : Position} :
    p.IsTrue source ↔
      ∃ before rest, source.toList = before ++ rest ∧ p = Position.start.after before := by
  constructor
  · rintro ⟨before, rest, hsource, hoffset, hline, hcolumn⟩
    obtain ⟨hline', hcolumn'⟩ := line_column_after before
    refine ⟨before, rest, hsource, ?_⟩
    rw [← offset_start_after] at hoffset
    rw [← hline'] at hline
    rw [← hcolumn'] at hcolumn
    cases p
    simp only at hline hcolumn hoffset
    rw [hline, hcolumn, hoffset]
  · rintro ⟨before, rest, hsource, rfl⟩
    exact GoesOn.isTrue ⟨before, hsource, rfl⟩

/-- A position is the line and the characters before the place. -/
theorem positionAt?_of_lineAt? {cs line rest : List Char} {offset number : Nat}
    (h : lineAt? cs offset = some ⟨number, line ++ rest, byteLength line⟩) :
    positionAt? cs offset = some ⟨number, line.length + 1, offset⟩ := by
  simp [positionAt?, h, splitAtByte?_append]

/-- From the offset of `p` the lines of the text lead to `place`, and so to the position `q`.
This is `p` again, unless `p` is behind the last line; then it is the end of that line. -/
structure FoundAt (source : String) (p : Position) (place : LinePlace) (q : Position) : Prop where
  line : lineAt? source.toList p.offset = some place
  position : positionAt? source.toList p.offset = some q
  number : q.line = place.number
  same : ¬ BehindLastLine source.toList p.offset → q = p
  above : BehindLastLine source.toList p.offset → p.line = q.line + 1 ∧ p.column = 1

/-- The line shown is the line of the position, unless that is behind the last one. -/
theorem FoundAt.number_eq_iff {source : String} {p q : Position} {place : LinePlace}
    (h : FoundAt source p place q) :
    place.number = p.line ↔ ¬ BehindLastLine source.toList p.offset := by
  constructor
  · intro hnumber hbehind
    have := (h.above hbehind).1
    have := h.number
    omega
  · intro hbehind
    rw [← h.number, h.same hbehind]

theorem positionAt?_append {before rest : List Char}
    (h : ¬ BehindLastLine (before ++ rest) (byteLength before)) :
    positionAt? (before ++ rest) (byteLength before) = some (Position.start.after before) := by
  obtain ⟨hline, hcolumn⟩ := line_column_after before
  rw [positionAt?_of_lineAt? (lineAt?_append h), ← hline, Nat.add_comm, ← hcolumn,
    ← offset_start_after]

/-- Every true position is found again so. -/
theorem exists_foundAt {source : String} {p : Position} (h : p.IsTrue source) :
    ∃ place q, FoundAt source p place q := by
  obtain ⟨before, rest, hsource, rfl⟩ := isTrue_iff.1 h
  obtain ⟨hline, hcolumn⟩ := line_column_after before
  have hoffset := offset_start_after before
  by_cases hbehind : BehindLastLine source.toList (byteLength before)
  · have hend := hbehind
    rw [hsource, behindLastLine_append_iff] at hend
    obtain ⟨rfl, hlast⟩ := hend
    obtain ⟨cs, rfl⟩ := List.getLast?_eq_some_iff.1 hlast
    have hplace : lineAt? source.toList (byteLength (cs ++ ['\n'])) =
        some ⟨1 + cs.count '\n', (lastLine cs ++ ['\n']) ++ [],
          byteLength (lastLine cs ++ ['\n'])⟩ := by
      rw [hsource, List.append_nil, List.append_nil, lineAt?_behind]
    rw [← hoffset] at hbehind hplace
    refine ⟨_, _, hplace, positionAt?_of_lineAt? hplace, rfl, (absurd hbehind ·), fun _ => ?_⟩
    rw [hline, hcolumn, lastLine_newline]
    simp [Nat.add_assoc]
  · have hplace := lineAt?_append (hsource ▸ hbehind)
    have hposition := positionAt?_append (hsource ▸ hbehind)
    rw [← hsource] at hplace hposition
    rw [← hoffset] at hbehind hplace hposition
    exact ⟨_, _, hplace, hposition, hline, fun _ => rfl, (absurd · hbehind)⟩

/-! ### Reports -/

/-- What a report shows: what is wrong and at which position, and below it a line of the text
with its number and an arrow. -/
structure Report where
  heading : String
  fileName : String
  position : Position
  number : Nat
  shown : List Char
  reach : Nat

/-- The layout of a report. -/
def Report.text (r : Report) : String :=
  let width := (toString r.number).length
  r.heading ++ "\n"
    ++ "-> " ++ r.fileName ++ ":" ++ r.position.display ++ "\n"
    ++ (gutterBar width ++ "\n"
      ++ toString r.number ++ " | " ++ String.ofList r.shown ++ "\n"
      ++ gutterBar width ++ " " ++ String.ofList (List.replicate r.reach '-') ++ "^\n")

/-- The report on a place that was found in the text. -/
def LinePlace.report (place : LinePlace) (heading fileName : String) (position : Position) :
    Report where
  heading := heading
  fileName := fileName
  position := position
  number := place.number
  shown := Text.trimEnd (place.text.dropWhile isIndent)
  reach := place.byteIndex - (place.text.takeWhile isIndent).length

/-- The first line of a report. -/
def heading (label headline : String) (hint : Option String) : String :=
  label ++ ": " ++ headline ++ (hint.map fun text => " (" ++ text ++ ")").getD ""

/-- The text of a report is its layout. -/
theorem snippet_eq {label headline : String} {hint : Option String} {p : Position}
    {source : String} {place : LinePlace} (h : lineAt? source.toList p.offset = some place)
    (fileName : String) :
    snippet label headline hint p source fileName =
      (place.report (heading label headline hint) fileName p).text := by
  cases hint <;> rw [snippet, h] <;> rfl

end Source

/-! ### Both ways -/

open Source

/-- A cursor that goes on to an offset is at a true position there. -/
theorem position_advance {source : String} {offset : Nat} (h : IsBoundary source offset) :
    (((Cursor.ofText source).advance offset).position).offset = offset ∧
      (((Cursor.ofText source).advance offset).position).IsTrue source := by
  obtain ⟨before, rest, hsource, rfl⟩ := h
  have hcursor : (Cursor.ofText source).advance (byteLength before) =
      ⟨Position.start.after before, rest⟩ := by
    rw [Cursor.ofText, hsource]
    exact advance_append .start (Nat.le_refl _) (.inr rfl)
  rw [hcursor]
  exact ⟨offset_start_after before, GoesOn.isTrue ⟨before, hsource, rfl⟩⟩

/-- At every offset between characters, the line and the column found from the lines of the text
are those that reading up to the offset counts, except behind a line feed that ends the text. So
the number beside the line that is shown for an error is the line that its heading names, except
there. -/
theorem positions_agree_exactly (source : String) :
    (∀ offset, IsBoundary source offset →
      let p := ((Cursor.ofText source).advance offset).position
      p.offset = offset ∧ ∃ place q, FoundAt source p place q) ∧
    (∀ tokens, tokenize source = .ok tokens → ∀ t ∈ tokens,
      (∃ place q, FoundAt source t.span.start place q) ∧
      ∃ place q, FoundAt source t.span.stop place q) ∧
    ∀ e fileName, compile source = .error e →
      ∃ place q, FoundAt source e.position place q ∧
        e.render source fileName = (place.report (heading "Error" e.cause.name e.cause.hint?)
          fileName e.position).text ∧
        (place.number = e.position.line ↔ ¬ BehindLastLine source.toList e.position.offset) := by
  refine ⟨fun offset hoffset => ?_, fun tokens htokens t ht => ?_, fun e fileName he => ?_⟩
  · obtain ⟨hsame, htrue⟩ := position_advance hoffset
    exact ⟨hsame, exists_foundAt htrue⟩
  · obtain ⟨hstart, hstop⟩ := isTrue_of_tokenize htokens t ht
    exact ⟨exists_foundAt hstart, exists_foundAt hstop⟩
  · obtain ⟨place, q, hfound⟩ := exists_foundAt (isTrue_of_compile_error he).1
    exact ⟨place, q, hfound, snippet_eq hfound.line fileName, hfound.number_eq_iff⟩

/-- On the second line of a text, after a character of two bytes on the first, both ways give
the same, and the report on the error there shows the line that its heading names. -/
theorem positions_agree_exactly_second_line :
    let source := "// é\nclass ;"
    (IsBoundary source 12 ∧
      positionAt? source.toList 12 = some ((Cursor.ofText source).advance 12).position) ∧
    (∃ tokens, tokenize source = .ok tokens ∧ ∃ t ∈ tokens, t.kind = .semicolon ∧
      positionAt? source.toList t.span.stop.offset = some t.span.stop) ∧
    ∃ e, compile source = .error e ∧ e.position = ⟨2, 7, 12⟩ ∧ ∃ r : Report,
      e.render source "A.cs" = r.text ∧ r.position = e.position ∧ r.number = e.position.line := by
  intro source
  obtain ⟨hcursor, htokens, herror⟩ := positions_agree_exactly source
  refine ⟨?_, ?_, ?_⟩
  · have hboundary : IsBoundary source 12 :=
      ⟨source.toList.take 11, [';'], by decide +kernel, by decide +kernel⟩
    obtain ⟨hoffset, _, _, hfound⟩ := hcursor 12 hboundary
    have hsame := hfound.same (by rw [hoffset]; decide +kernel)
    have hposition := hfound.position
    rw [hoffset, hsame] at hposition
    exact ⟨hboundary, hposition⟩
  · have hlexed : ∃ tokens, tokenize source = .ok tokens ∧ ∃ t ∈ tokens, t.kind = .semicolon ∧
        ¬ BehindLastLine source.toList t.span.stop.offset := exists_eq_ok (by decide +kernel)
    obtain ⟨tokens, hsource, t, ht, hkind, hbehind⟩ := hlexed
    obtain ⟨_, _, hfound⟩ := (htokens tokens hsource t ht).2
    exact ⟨tokens, hsource, t, ht, hkind, hfound.same hbehind ▸ hfound.position⟩
  · have hfails : ∃ e, compile source = .error e ∧ e.position = ⟨2, 7, 12⟩ :=
      exists_eq_error (by decide +kernel)
    obtain ⟨e, he, hposition⟩ := hfails
    obtain ⟨place, _, -, htext, hnumber⟩ := herror e "A.cs" he
    refine ⟨e, he, hposition, _, htext, rfl, hnumber.2 ?_⟩
    rw [hposition]
    decide +kernel

/-- The end of a text that ends with a line feed: the heading names the second line, and the
first is shown. -/
theorem end_of_text_shown_above :
    (∃ e, compile "class A \x7b\n" = .error e ∧ e.position = ⟨2, 1, 10⟩ ∧
      e.render "class A \x7b\n" "A.cs" =
        "Error: UnexpectedToken (expected `\x7d`, found `end of input`)\n-> A.cs:2:1\n" ++
        "  |\n1 | class A \x7b\n  | ----------^\n") ∧
    ((Cursor.ofText "class A \x7b\n").advance 10).position = ⟨2, 1, 10⟩ ∧
    positionAt? "class A \x7b\n".toList 10 = some ⟨1, 11, 10⟩ :=
  ⟨exists_eq_error (by decide +kernel), by decide +kernel, by decide +kernel⟩

end ClassScript

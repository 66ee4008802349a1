import ClassScript.Text.Blank

/-!
# Lexical patterns

A `Pattern` is a shape that the beginning of a text may have. `Pattern.split?`
cuts the text after the longest beginning of that shape, or after the shortest
one for the closed comments and literals, and returns both parts.

`split?_append` says that nothing is lost, and `split?_length_lt` that the rest
is shorter, which is why a scan that follows the patterns ends.
-/

namespace ClassScript

/-- A shape for the beginning of a text. -/
inductive Pattern where
  /-- A run of blanks. -/
  | blanks
  /-- Two slashes up to the end of the line. -/
  | lineComment
  /-- A comment from `/*` up to the first `*/`. -/
  | blockComment
  /-- A comment from `/*` up to the end of the text. -/
  | openComment
  /-- A letter or underscore, then letters, digits and underscores. -/
  | word
  /-- Digits, with an optional fraction. -/
  | number
  /-- A quote up to the next one that no backslash escapes. A literal that may
  not span lines has no line feed, not even after a backslash. -/
  | quoted (quote : Char) (spansLines : Bool)
  /-- One character or one escape, not a line feed, between single quotes. -/
  | charLiteral
  /-- The given characters. -/
  | exact (text : List Char)
deriving DecidableEq

namespace Pattern

/-- A letter of the ASCII alphabet or an underscore. -/
def isWordStart (c : Char) : Bool :=
  c.isAlpha || c == '_'

/-- A character that may continue a word. -/
def isWordPart (c : Char) : Bool :=
  isWordStart c || c.isDigit

/-- Puts `read` in front of the first part of a split text. -/
def prepend (read : List Char) : List Char × List Char → List Char × List Char
  | (taken, rest) => (read ++ taken, rest)

/-- Splits after the first `*/`. -/
def closeComment : List Char → Option (List Char × List Char)
  | [] => none
  | '*' :: '/' :: rest => some (['*', '/'], rest)
  | c :: rest => (closeComment rest).map (prepend [c])

/-- Splits after the first `quote` that no backslash escapes. -/
def closeQuote (quote : Char) (spansLines : Bool) : List Char → Option (List Char × List Char)
  | [] => none
  | c :: rest =>
    if c = quote then some ([c], rest)
    else if c = '\n' ∧ ¬ spansLines then none
    else if c = '\\' then
      match rest with
      | [] => none
      | e :: rest =>
        if e = '\n' ∧ ¬ spansLines then none
        else (closeQuote quote spansLines rest).map (prepend [c, e])
    else (closeQuote quote spansLines rest).map (prepend [c])

/-- Splits after `text` if `cs` begins with it. -/
def stripText : List Char → List Char → Option (List Char × List Char)
  | [], cs => some ([], cs)
  | _ :: _, [] => none
  | t :: text, c :: cs => if t = c then (stripText text cs).map (prepend [c]) else none

/-- Splits a fraction, a point and at least one digit, off the text after the
digits of a number; the first part is empty if there is none. -/
def fraction : List Char → List Char × List Char
  | '.' :: d :: rest =>
    if d.isDigit then ('.' :: d :: rest.takeWhile Char.isDigit, rest.dropWhile Char.isDigit)
    else ([], '.' :: d :: rest)
  | cs => ([], cs)

/-- Cuts `cs` after its beginning of the pattern's shape. -/
def split? : Pattern → List Char → Option (List Char × List Char)
  | .blanks, c :: cs =>
    if Text.isBlank c then some (c :: cs.takeWhile Text.isBlank, cs.dropWhile Text.isBlank)
    else none
  | .lineComment, '/' :: '/' :: cs =>
    some ('/' :: '/' :: cs.takeWhile (· != '\n'), cs.dropWhile (· != '\n'))
  | .blockComment, '/' :: '*' :: cs => (closeComment cs).map (prepend ['/', '*'])
  | .openComment, '/' :: '*' :: cs => some ('/' :: '*' :: cs, [])
  | .word, c :: cs =>
    if isWordStart c then some (c :: cs.takeWhile isWordPart, cs.dropWhile isWordPart) else none
  | .number, c :: cs =>
    if c.isDigit then
      some (prepend (c :: cs.takeWhile Char.isDigit) (fraction (cs.dropWhile Char.isDigit)))
    else none
  | .quoted quote spansLines, c :: cs =>
    if c = quote then (closeQuote quote spansLines cs).map (prepend [c]) else none
  | .charLiteral, '\'' :: '\\' :: e :: '\'' :: cs =>
    if e = '\n' then none else some (['\'', '\\', e, '\''], cs)
  | .charLiteral, '\'' :: c :: '\'' :: cs =>
    if c = '\'' ∨ c = '\\' ∨ c = '\n' then none else some (['\'', c, '\''], cs)
  | .exact (t :: text), cs => stripText (t :: text) cs
  | _, _ => none

/-! ### A split loses nothing and takes something -/

theorem prepend_eq {read taken rest : List Char} {p : List Char × List Char}
    (h : prepend read p = (taken, rest)) : taken ++ rest = read ++ (p.1 ++ p.2) := by
  obtain ⟨a, b⟩ := p
  simp only [prepend, Prod.mk.injEq] at h
  obtain ⟨rfl, rfl⟩ := h
  simp

theorem closeComment_append {cs taken rest : List Char}
    (h : closeComment cs = some (taken, rest)) : taken ++ rest = cs := by
  fun_induction closeComment cs generalizing taken rest with
  | case1 => simp at h
  | case2 r =>
    obtain ⟨rfl, rfl⟩ : ['*', '/'] = taken ∧ r = rest := by simpa using h
    rfl
  | case3 c r _ ih =>
    obtain ⟨p, hp, hq⟩ := Option.map_eq_some_iff.1 h
    rw [prepend_eq hq, ih hp]
    rfl

theorem closeQuote_append {quote : Char} {spansLines : Bool} {cs taken rest : List Char}
    (h : closeQuote quote spansLines cs = some (taken, rest)) : taken ++ rest = cs := by
  fun_induction closeQuote quote spansLines cs generalizing taken rest with
  | case1 => simp at h
  | case2 r =>
    obtain ⟨rfl, rfl⟩ : [quote] = taken ∧ r = rest := by simpa using h
    rfl
  | case3 => simp at h
  | case4 => simp at h
  | case5 => simp at h
  | case6 _ e r _ _ ih =>
    obtain ⟨p, hp, hq⟩ := Option.map_eq_some_iff.1 h
    rw [prepend_eq hq, ih hp]
    rfl
  | case7 c r _ _ _ ih =>
    obtain ⟨p, hp, hq⟩ := Option.map_eq_some_iff.1 h
    rw [prepend_eq hq, ih hp]
    rfl

theorem stripText_eq {text cs taken rest : List Char}
    (h : stripText text cs = some (taken, rest)) : taken = text ∧ taken ++ rest = cs := by
  fun_induction stripText text cs generalizing taken rest with
  | case1 => simp_all
  | case2 => simp at h
  | case3 text c cs ih =>
    obtain ⟨⟨a, b⟩, hp, hq⟩ := Option.map_eq_some_iff.1 h
    obtain ⟨rfl, rfl⟩ := ih hp
    obtain ⟨rfl, rfl⟩ : c :: a = taken ∧ b = rest := by simpa [prepend] using hq
    exact ⟨rfl, rfl⟩
  | case4 => simp at h

theorem fraction_append (cs : List Char) : (fraction cs).1 ++ (fraction cs).2 = cs := by
  unfold fraction
  split
  · split <;> simp
  · rfl

/-- The two parts of a split make up the text. -/
theorem split?_append {p : Pattern} {cs taken rest : List Char}
    (h : p.split? cs = some (taken, rest)) : taken ++ rest = cs := by
  unfold split? at h
  split at h
  · split at h <;> simp_all
    obtain ⟨rfl, rfl⟩ := h
    simp
  · simp only [Option.some.injEq, Prod.mk.injEq] at h
    obtain ⟨rfl, rfl⟩ := h
    simp
  · obtain ⟨q, hq, he⟩ := Option.map_eq_some_iff.1 h
    rw [prepend_eq he, closeComment_append hq]
    rfl
  · simp_all
  · split at h <;> simp_all
    obtain ⟨rfl, rfl⟩ := h
    simp
  · split at h
    · rename_i cs' _
      rw [Option.some.injEq] at h
      rw [prepend_eq h, fraction_append]
      simp
    · simp at h
  · split at h
    · obtain ⟨q, hq, he⟩ := Option.map_eq_some_iff.1 h
      rw [prepend_eq he, closeQuote_append hq]
      rfl
    · simp at h
  · split at h <;> simp_all
    obtain ⟨rfl, rfl⟩ := h
    rfl
  · split at h <;> simp_all
    obtain ⟨rfl, rfl⟩ := h
    rfl
  · exact (stripText_eq h).2
  · simp at h

theorem ne_nil_of_prepend {c : Char} {read taken rest : List Char} {p : List Char × List Char}
    (h : prepend (c :: read) p = (taken, rest)) : taken ≠ [] := by
  rintro rfl
  simp [prepend] at h

/-- The first part of a split is not empty. -/
theorem split?_ne_nil {p : Pattern} {cs taken rest : List Char}
    (h : p.split? cs = some (taken, rest)) : taken ≠ [] := by
  rintro rfl
  unfold split? at h
  split at h
  · split at h <;> simp at h
  · simp at h
  · obtain ⟨q, _, he⟩ := Option.map_eq_some_iff.1 h
    exact ne_nil_of_prepend he rfl
  · simp at h
  · split at h <;> simp at h
  · split at h
    · rw [Option.some.injEq] at h
      exact ne_nil_of_prepend h rfl
    · simp at h
  · split at h
    · obtain ⟨q, _, he⟩ := Option.map_eq_some_iff.1 h
      exact ne_nil_of_prepend he rfl
    · simp at h
  · split at h <;> simp at h
  · split at h <;> simp at h
  · exact absurd (stripText_eq h).1 (by simp)
  · simp at h

/-- The second part of a split is shorter than the text. -/
theorem split?_length_lt {p : Pattern} {cs taken rest : List Char}
    (h : p.split? cs = some (taken, rest)) : rest.length < cs.length := by
  have hlen : taken.length + rest.length = cs.length := by
    rw [← split?_append h, List.length_append]
  have hpos := List.length_pos_iff.2 (split?_ne_nil h)
  omega

end Pattern

end ClassScript

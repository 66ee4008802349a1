import ClassScript.Proofs.Parse.WellRead
import ClassScript.Proofs.Script.Literal
import ClassScript.Script.Expr

/-!
# Brackets of a text

A scan over a text that skips strings and asks of every closing bracket that it
closes the bracket that was opened last. `Leads text a b` says that the scan comes
from `a` to `b` by `text`; such steps compose, and what happens inside of brackets
does not depend on the brackets around (`Leads.within`). A text that leads from
the start back to the start is `Neutral`, and neutral texts can stand anywhere
outside of strings.
-/

namespace ClassScript.Script

/-- Where a scan over brackets is: the brackets that are open, the last one first,
the quote of the string that is open, and whether a backslash there escapes the next
character. -/
structure Brackets where
  opened : List Char
  quote : Option Char
  escaped : Bool
deriving DecidableEq

namespace Brackets

/-- Outside of strings, in the given brackets. -/
def outside (opened : List Char) : Brackets := ⟨opened, none, false⟩

/-- In a string between double quotes, in the given brackets. -/
def inString (opened : List Char) : Brackets := ⟨opened, some '"', false⟩

/-- The bracket that a closing bracket closes. -/
def opening? : Char → Option Char
  | ')' => some '('
  | ']' => some '['
  | '}' => some '{'
  | _ => none

/-- Reads one character, or fails at a bracket that does not close the last one. -/
def step (b : Brackets) (c : Char) : Option Brackets :=
  match b.quote with
  | some quote =>
    if b.escaped then some { b with escaped := false }
    else if c = '\\' then some { b with escaped := true }
    else if c = quote then some { b with quote := none }
    else some b
  | none =>
    if c = '"' ∨ c = '\x60' then some { b with quote := some c }
    else if c = '(' ∨ c = '[' ∨ c = '{' then some { b with opened := c :: b.opened }
    else
      match opening? c with
      | none => some b
      | some o =>
        if b.opened.head? = some o then some { b with opened := b.opened.tail } else none

/-- Reads characters one after another. -/
def scan (b : Brackets) (cs : List Char) : Option Brackets :=
  cs.foldlM step b

/-- The scan goes through, and leaves no bracket and no string open. -/
def balanced (text : String) : Bool :=
  match scan (outside []) text.toList with
  | some b => b.opened.isEmpty && b.quote.isNone
  | none => false

/-! ### What a text does to a scan -/

/-- The text takes a scan from `a` to `b`. -/
def Leads (text : String) (a b : Brackets) : Prop :=
  scan a text.toList = some b

instance (text : String) (a b : Brackets) : Decidable (Leads text a b) :=
  inferInstanceAs (Decidable (_ = _))

/-- The same scan with more brackets around. -/
def within (outer : List Char) (b : Brackets) : Brackets :=
  { b with opened := b.opened ++ outer }

theorem scan_append (b : Brackets) (cs ds : List Char) :
    scan b (cs ++ ds) = (scan b cs).bind (scan · ds) :=
  List.foldlM_append

/-- A text that is given by its characters. -/
theorem leads_ofList {cs : List Char} {a b : Brackets} (h : scan a cs = some b) :
    Leads (String.ofList cs) a b := by
  rw [Leads, String.toList_ofList]
  exact h

/-- Steps of a scan compose. -/
theorem Leads.append {text text' : String} {a b c : Brackets} (h : Leads text a b)
    (h' : Leads text' b c) : Leads (text ++ text') a c := by
  unfold Leads at *
  rw [String.toList_append, scan_append, h]
  exact h'

/-- A bracket is compared with the one opened last, and never with those further out. -/
theorem step_within {b b' : Brackets} {c : Char} (outer : List Char) (h : step b c = some b') :
    step (b.within outer) c = some (b'.within outer) := by
  obtain ⟨opened, quote, escaped⟩ := b
  cases quote with
  | some quote =>
    simp only [step, within] at h ⊢
    split at h
    · cases h
      simp_all
    split at h
    · cases h
      simp_all
    split at h
    · cases h
      simp_all
    · cases h
      simp_all
  | none =>
    simp only [step, within] at h ⊢
    split at h
    · cases h
      simp_all
    split at h
    · cases h
      simp_all
    split at h
    · cases h
      simp_all
    · -- A closing bracket finds the bracket that it closes among the inner ones.
      split at h
      · cases h
        cases opened <;> simp_all
      · cases h

/-- What happens inside of brackets does not depend on the brackets around. -/
theorem Leads.within {text : String} {a b : Brackets} (outer : List Char) (h : Leads text a b) :
    Leads text (a.within outer) (b.within outer) := by
  unfold Leads at *
  generalize text.toList = cs at h
  induction cs generalizing a with
  | nil =>
    cases h
    rfl
  | cons c cs ih =>
    have h : (step a c).bind (scan · cs) = some b := h
    obtain ⟨a', ha', hcs⟩ := Option.bind_eq_some_iff.1 h
    show (step (a.within outer) c).bind (scan · cs) = some (b.within outer)
    rw [step_within outer ha']
    exact ih hcs

/-! ### Neutral texts -/

/-- The text leaves a scan where it found it. -/
def Neutral (text : String) : Prop :=
  Leads text (outside []) (outside [])

instance (text : String) : Decidable (Neutral text) :=
  inferInstanceAs (Decidable (Leads _ _ _))

variable {text text' : String}

/-- A neutral text can stand inside of any brackets. -/
theorem Neutral.leads (h : Neutral text) (opened : List Char) :
    Leads text (outside opened) (outside opened) :=
  Leads.within opened h

theorem neutral_empty : Neutral "" := by decide

theorem Neutral.append (h : Neutral text) (h' : Neutral text') : Neutral (text ++ text') :=
  Leads.append h h'

/-- A neutral text between texts that open and close a bracket. -/
theorem Neutral.between {front back : String} (opened : List Char)
    (hfront : Leads front (outside []) (outside opened)) (h : Neutral text)
    (hback : Leads back (outside opened) (outside [])) : Neutral (front ++ text ++ back) :=
  (hfront.append (h.leads opened)).append hback

/-- A scan that is back where it began has left nothing open. -/
theorem balanced_of_neutral (h : Neutral text) : balanced text = true := by
  rw [balanced, show scan (outside []) text.toList = some (outside []) from h]
  rfl

/-- Parentheses that are put around a text close each other. -/
theorem neutral_parenthesized (wrap : Bool) (h : Neutral text) :
    Neutral (parenthesized wrap text) := by
  cases wrap with
  | false => exact h
  | true => exact .between ['('] (by decide) h (by decide)

/-- Commas and blanks between texts mean nothing to a scan. -/
theorem neutral_commaJoined {texts : List String} (h : ∀ text ∈ texts, Neutral text) :
    Neutral (commaJoined texts) := by
  induction texts with
  | nil => exact neutral_empty
  | cons text texts ih =>
    obtain ⟨htext, htexts⟩ := List.forall_mem_cons.1 h
    cases texts with
    | nil => exact htext
    | cons text' texts => exact (htext.append (by decide)).append (ih htexts)

/-! ### Characters that mean nothing to a scan -/

/-- Neither a bracket nor a quote nor a backslash. -/
def isInert (c : Char) : Bool :=
  !(['"', '\x60', '\\', '(', ')', '[', ']', '{', '}'].contains c)

theorem isInert_iff {c : Char} : isInert c = true ↔ c ≠ '"' ∧ c ≠ '\x60' ∧ c ≠ '\\' ∧ c ≠ '(' ∧
    c ≠ ')' ∧ c ≠ '[' ∧ c ≠ ']' ∧ c ≠ '{' ∧ c ≠ '}' := by
  simp only [isInert, List.contains_cons, List.contains_nil, Bool.or_false, Bool.not_eq_true',
    Bool.or_eq_false_iff, beq_eq_false_iff_ne]

/-- An inert character changes nothing, neither outside of strings nor in them. -/
theorem step_of_isInert {c : Char} (h : isInert c = true) (opened : List Char) :
    step (outside opened) c = some (outside opened) ∧
      step (inString opened) c = some (inString opened) := by
  obtain ⟨hquote, htick, hslash, hparen, hparen', hbracket, hbracket', hcurly, hcurly'⟩ :=
    isInert_iff.1 h
  have hopening : opening? c = none := by
    unfold opening?
    split <;> first | contradiction | rfl
  simp [step, outside, inString, hquote, htick, hslash, hparen, hbracket, hcurly, hopening]

theorem scan_of_isInert {cs : List Char} (h : ∀ c ∈ cs, isInert c = true) (opened : List Char) :
    scan (outside opened) cs = some (outside opened) ∧
      scan (inString opened) cs = some (inString opened) := by
  induction cs with
  | nil => exact ⟨rfl, rfl⟩
  | cons c cs ih =>
    obtain ⟨hc, hcs⟩ := List.forall_mem_cons.1 h
    obtain ⟨hstep, hstep'⟩ := step_of_isInert hc opened
    obtain ⟨ih, ih'⟩ := ih hcs
    refine ⟨?_, ?_⟩
    · show (step (outside opened) c).bind (scan · cs) = _
      rw [hstep]
      exact ih
    · show (step (inString opened) c).bind (scan · cs) = _
      rw [hstep']
      exact ih'

theorem neutral_of_isInert (h : ∀ c ∈ text.toList, isInert c = true) : Neutral text :=
  (scan_of_isInert h []).1

/-- Letters, digits and underscores are inert. -/
theorem isInert_of_isWordPart {c : Char} (h : Pattern.isWordPart c = true) : isInert c = true := by
  rw [isInert_iff]
  refine ⟨?_, ?_, ?_, ?_, ?_, ?_, ?_, ?_, ?_⟩ <;>
  · rintro rfl
    exact absurd h (by decide)

theorem isInert_digitChar (d : Nat) : isInert d.digitChar = true := by
  rw [isInert_iff]
  refine ⟨?_, ?_, ?_, ?_, ?_, ?_, ?_, ?_, ?_⟩ <;> exact Nat.digitChar_ne _ (by decide)

/-- So are the digits of a number, also to a larger base than ten. -/
theorem isInert_of_mem_toDigits {b n : Nat} (hb : 1 < b) :
    ∀ c ∈ Nat.toDigits b n, isInert c = true := by
  induction n using Nat.strongRecOn with
  | ind n ih =>
    rw [Nat.toDigits_eq_if hb]
    split
    · simpa using isInert_digitChar n
    · have hlt : n / b < n := Nat.div_lt_self (by omega) hb
      intro c hc
      rcases List.mem_append.1 hc with hc | hc
      · exact ih _ hlt c hc
      · rw [List.mem_singleton.1 hc]
        exact isInert_digitChar _

/-! ### Names and literals -/

theorem isInert_of_isName {name : String} (h : IsName name) :
    ∀ c ∈ name.toList, isInert c = true := by
  obtain ⟨c, cs, hcs, hc, hrest⟩ := h.1
  rw [hcs]
  refine List.forall_mem_cons.2 ⟨isInert_of_isWordPart (isWordPart_of_isWordStart hc), ?_⟩
  exact fun d hd => isInert_of_isWordPart (hrest d hd)

/-- Names are inert, and so are the points between them. -/
theorem isInert_of_isDottedName {name : String} (h : IsDottedName name) :
    ∀ c ∈ name.toList, isInert c = true := by
  obtain ⟨first, others, rfl, hnames⟩ := h
  obtain ⟨hfirst, hothers⟩ := List.forall_mem_cons.1 hnames
  replace hfirst := isInert_of_isName hfirst
  clear hnames
  induction others generalizing first with
  | nil => exact hfirst
  | cons name others ih =>
    obtain ⟨hname, hothers⟩ := List.forall_mem_cons.1 hothers
    refine ih (first ++ "." ++ name) hothers ?_
    intro c hc
    simp only [String.toList_append, List.mem_append] at hc
    rcases hc with (hc | hc) | hc
    · exact hfirst c hc
    · rw [List.mem_singleton.1 hc]
      decide
    · exact isInert_of_isName hname c hc

/-- A character of a string is written so that it cannot end the string. -/
theorem scan_quotedChar (c : Char) (opened : List Char) :
    scan (inString opened) (quotedChar c) = some (inString opened) := by
  have hescape : ∀ e, scan (inString opened) ['\\', e] = some (inString opened) := fun e => rfl
  unfold quotedChar
  split
  · exact hescape _
  split
  · exact hescape _
  split
  · exact hescape _
  split
  · exact hescape _
  split
  · exact hescape _
  split
  · -- After the backslash and its letter, only digits.
    have hdigits : ∀ d ∈ List.replicate (4 - (Nat.toDigits 16 c.toNat).length) '0' ++
        Nat.toDigits 16 c.toNat, isInert d = true := by
      intro d hd
      rcases List.mem_append.1 hd with hd | hd
      · rw [List.eq_of_mem_replicate hd]
        decide
      · exact isInert_of_mem_toDigits (by decide) d hd
    rw [unicodeEscape, List.append_assoc, scan_append, hescape]
    exact (scan_of_isInert hdigits opened).2
  · rename_i hquote hslash _ _ _ _
    simp [scan, step, inString, hquote, hslash]

/-- A written string is neutral whatever it holds. -/
theorem neutral_quoted (text : String) : Neutral (quoted text) := by
  have hbody : ∀ cs : List Char,
      scan (inString []) (cs.flatMap quotedChar) = some (inString []) := by
    intro cs
    induction cs with
    | nil => rfl
    | cons c cs ih =>
      rw [List.flatMap_cons, scan_append, scan_quotedChar]
      exact ih
  rw [Neutral, Leads, quoted, String.toList_ofList, scan_append]
  rw [show ∀ cs, scan (outside []) ('"' :: cs) = scan (inString []) cs from fun _ => rfl, hbody]
  rfl

theorem neutral_positional (d : Binary64.Decimal) : Neutral (d.positional false) := by
  obtain ⟨whole, fraction, htext, -, hwhole, hfraction, -, -⟩ := d.positional_eq
  refine neutral_of_isInert ?_
  rw [htext]
  intro c hc
  rcases List.mem_append.1 hc with hc | hc
  · exact isInert_of_isWordPart (isWordPart_of_isDigit (hwhole c hc))
  · split at hc
    · cases hc
    · rcases List.mem_cons.1 hc with rfl | hc
      · decide
      · exact isInert_of_isWordPart (isWordPart_of_isDigit (hfraction c hc))

theorem neutral_numberText (x : Binary64) : Neutral (numberText x) := by
  unfold numberText
  split
  · rw [format_numberLayout]
    refine Neutral.append ?_ ?_
    · split <;> decide
    · split
      · decide
      · exact neutral_positional _
  · split <;> decide

/-- A literal is neutral, be it a number, a string or a word. -/
theorem neutral_literalText (value : Literal) : Neutral (literalText value) := by
  cases value with
  | string value => exact neutral_quoted value
  | number value => exact neutral_numberText value
  | boolean value => cases value <;> decide
  | null => decide

end Brackets

end ClassScript.Script

import ClassScript.Proofs.Token.Lexes
import ClassScript.Token.Escape

/-!
# Texts that spell tokens

`Scans follow cs ws` says that a scan which comes upon the text `cs` cuts it into
tokens that read `ws`, and goes on right after it, whenever the text after `cs`
satisfies `follow`. What may follow matters: a word goes on as far as it can, a
point after a number may begin a fraction, and an operator may be the beginning
of a longer one.

A text that is put together from such pieces spells the tokens of its pieces
(`Scans.append`), so a printed text is scanned piece by piece and the table of
rules is opened once for every kind of piece.
-/

namespace ClassScript

open Lexical

/-- What a token says, without the place where it stands. -/
structure Lexeme where
  kind : Kind
  text : String
deriving DecidableEq

/-- What a token says. -/
def Token.lexeme (t : Token) : Lexeme := ⟨t.kind, t.text⟩

namespace Lexeme

/-- The lexeme of a kind that has one spelling. -/
def ofKind (kind : Kind) : Lexeme := ⟨kind, kind.spelling?.getD ""⟩

/-- The lexeme of a word. -/
def ofWord (word : String) : Lexeme := ⟨.ofWord word, word⟩

/-- The end of the input. -/
def eof : Lexeme := ⟨.eof, "EOF"⟩

end Lexeme

/-- A literal in quotes stands for what is between them, with its escapes replaced. -/
theorem Escape.literalValue?_of_quotes {literal : String} {quote : Char} (inner : List Char)
    (hquote : quote.utf8Size = 1) (h : literal.toList = quote :: (inner ++ [quote])) :
    literalValue? literal = some (String.ofList (decodeAll inner)) := by
  have hends : hasByteEnds literal.toList = true := by
    simp [hasByteEnds, h, hquote, List.getLast?_cons]
  rw [literalValue?, unquote?, if_pos hends, h, List.tail_cons, List.dropLast_concat]
  rfl

theorem Escape.literalValue?_eq_none_iff {literal : String} :
    literalValue? literal = none ↔ hasByteEnds literal.toList = false := by
  simp [literalValue?, unquote?]

/-- Before a text that satisfies `follow`, the text `cs` is scanned into `ws`. -/
def Scans (follow : List Char → Prop) (cs : List Char) (ws : List Lexeme) : Prop :=
  ∀ p rest ts, follow rest → Lexes (p.after cs) rest ts →
    ∃ us, us.map Token.lexeme = ws ∧ Lexes p (cs ++ rest) (us ++ ts)

/-- No condition on the text that follows. -/
def Anything (_ : List Char) : Prop := True

/-- Nothing at the beginning of the text carries on a word or a number that stands
before it. -/
structure Ends (rest : List Char) : Prop where
  word : ∀ c, rest.head? = some c → Pattern.isWordPart c = false
  number : Pattern.fraction rest = ([], rest)

/-- The text begins with a character that neither carries on a gap nor makes an
operator before it a longer one. -/
def Opens (rest : List Char) : Prop :=
  ∃ c cs, rest = c :: cs ∧ Text.isBlank c = false ∧ c ≠ '='

namespace Scans

variable {follow : List Char → Prop} {cs : List Char}

theorem nil : Scans follow [] [] :=
  fun _ _ _ _ h => ⟨[], rfl, h⟩

/-- Two texts in a row, if the second is one that may follow the first. -/
theorem append {follow' : List Char → Prop} {cs' : List Char} {ws ws' : List Lexeme}
    (h : Scans follow cs ws) (h' : Scans follow' cs' ws')
    (hfollow : ∀ rest, follow' rest → follow (cs' ++ rest)) :
    Scans follow' (cs ++ cs') (ws ++ ws') := by
  intro p rest ts hrest hlexes
  rw [Position.after_append] at hlexes
  obtain ⟨us', hus', hlexes'⟩ := h' (p.after cs) rest ts hrest hlexes
  obtain ⟨us, hus, hlexes⟩ := h p (cs' ++ rest) (us' ++ ts) (hfollow rest hrest) hlexes'
  refine ⟨us ++ us', ?_, ?_⟩
  · rw [List.map_append, hus, hus']
  · simpa using hlexes

/-- A text after which anything may stand can stand before anything. -/
theorem before {follow' : List Char → Prop} {cs' : List Char} {ws ws' : List Lexeme}
    (h : Scans Anything cs ws) (h' : Scans follow' cs' ws') :
    Scans follow' (cs ++ cs') (ws ++ ws') :=
  h.append h' fun _ _ => trivial

theorem mono {follow' : List Char → Prop} {ws : List Lexeme} (h : Scans follow cs ws)
    (hfollow : ∀ rest, follow' rest → follow rest) : Scans follow' cs ws :=
  fun p rest ts hrest hlexes => h p rest ts (hfollow rest hrest) hlexes

/-- A text that a rule takes as one token. -/
theorem of_match {w : Lexeme} (hw : w.text.toList = cs)
    (h : ∀ rest, follow rest →
      ∃ meaning, firstMatch? (cs ++ rest) = some ⟨meaning, cs, rest⟩ ∧
        Match.kind? ⟨meaning, cs, rest⟩ = some w.kind) :
    Scans follow cs [w] := by
  intro p rest ts hrest hlexes
  obtain ⟨meaning, hmatch, hkind⟩ := h rest hrest
  refine ⟨[⟨w.kind, String.ofList cs, ⟨p, p.after cs⟩⟩], ?_, .token hmatch hkind hlexes⟩
  rw [← hw, String.ofList_toList]
  rfl

/-- A whole text is scanned into what it spells and the end of the input. -/
theorem tokenize {source : String} {ws : List Lexeme} (h : Scans follow source.toList ws)
    (hfollow : follow []) : ∃ ts, ClassScript.tokenize source = .ok ts ∧
      ts.map Token.lexeme = ws ++ [.eof] := by
  obtain ⟨us, hus, hlexes⟩ := h .start [] _ hfollow (.done _)
  rw [List.append_nil] at hlexes
  exact ⟨_, hlexes.tokensFrom_eq, by rw [List.map_append, hus]; rfl⟩

end Scans

/-! ### Characters -/

/-- The range of the letters and the underscore. -/
theorem toNat_of_isWordStart {c : Char} (h : Pattern.isWordStart c = true) :
    0x41 ≤ c.toNat ∧ c.toNat ≤ 0x7A := by
  have halpha : c.isAlpha = (decide ('A'.val ≤ c.val ∧ c.val ≤ 'Z'.val) ||
      decide ('a'.val ≤ c.val) && decide (c.val ≤ 'z'.val)) := rfl
  simp only [Pattern.isWordStart, halpha, Bool.or_eq_true, Bool.and_eq_true, decide_eq_true_eq,
    beq_iff_eq, UInt32.le_iff_toNat_le] at h
  rcases h with (h | h) | rfl
  · exact ⟨h.1, Nat.le_trans h.2 (by decide)⟩
  · exact ⟨Nat.le_trans (by decide) h.1, h.2⟩
  · decide

theorem toNat_of_isWordPart {c : Char} (h : Pattern.isWordPart c = true) :
    0x30 ≤ c.toNat ∧ c.toNat ≤ 0x7A := by
  rcases Bool.or_eq_true_iff.1 h with h | h
  · obtain ⟨hlow, hhigh⟩ := toNat_of_isWordStart h
    exact ⟨Nat.le_trans (by decide) hlow, hhigh⟩
  · obtain ⟨hlow, hhigh⟩ := Char.isDigit_iff_toNat.1 h
    exact ⟨hlow, Nat.le_trans hhigh (by decide)⟩

theorem isBlank_of_isWordPart {c : Char} (h : Pattern.isWordPart c = true) :
    Text.isBlank c = false := by
  have hrange := toNat_of_isWordPart h
  simp only [Text.isBlank, Bool.or_eq_false_iff, Bool.and_eq_false_iff, decide_eq_false_iff_not,
    beq_eq_false_iff_ne]
  omega

theorem isWordPart_of_isWordStart {c : Char} (h : Pattern.isWordStart c = true) :
    Pattern.isWordPart c = true := by
  simp [Pattern.isWordPart, h]

theorem point_not_mem_of_isName {name : String} (h : IsName name) : '.' ∉ name.toList := by
  obtain ⟨c, cs, hcs, hc, hrest⟩ := h.1
  have hpart : ∀ d ∈ name.toList, Pattern.isWordPart d = true := by
    rw [hcs]
    exact List.forall_mem_cons.2 ⟨isWordPart_of_isWordStart hc, hrest⟩
  intro hmem
  have := hpart '.' hmem
  revert this
  decide

theorem isWordPart_of_isDigit {c : Char} (h : c.isDigit = true) : Pattern.isWordPart c = true := by
  simp [Pattern.isWordPart, h]

theorem isDigit_of_isWordStart {c : Char} (h : Pattern.isWordStart c = true) :
    c.isDigit = false := by
  rw [Bool.eq_false_iff]
  intro hdigit
  have hle := (Char.isDigit_iff_toNat.1 hdigit).2
  exact absurd (Nat.le_trans (toNat_of_isWordStart h).1 hle) (by decide)

theorem isWordStart_of_isDigit {c : Char} (h : c.isDigit = true) :
    Pattern.isWordStart c = false := by
  rw [Bool.eq_false_iff]
  intro hstart
  rw [isDigit_of_isWordStart hstart] at h
  cases h

/-- A run of characters of a class, up to one that is not in it. -/
theorem span_boundary {p : Char → Bool} {cs rest : List Char} (hcs : ∀ c ∈ cs, p c = true)
    (hrest : ∀ c, rest.head? = some c → p c = false) :
    (cs ++ rest).takeWhile p = cs ∧ (cs ++ rest).dropWhile p = rest := by
  rw [List.takeWhile_append_of_pos hcs, List.dropWhile_append_of_pos hcs]
  cases rest with
  | nil => exact ⟨List.append_nil cs, rfl⟩
  | cons c rest => simp [hrest c rfl]

theorem ends_nil : Ends [] := ⟨by simp, rfl⟩

theorem ends_cons {c : Char} {cs : List Char} (hword : Pattern.isWordPart c = false)
    (hpoint : c ≠ '.') : Ends (c :: cs) := by
  refine ⟨by simp [hword], ?_⟩
  unfold Pattern.fraction
  split
  · rename_i heq
    exact absurd (List.cons.inj heq).1 hpoint
  · rfl

theorem ends_point {c : Char} {cs : List Char} (hc : Pattern.isWordStart c = true) :
    Ends ('.' :: c :: cs) := by
  refine ⟨?_, by simp [Pattern.fraction, isDigit_of_isWordStart hc]⟩
  rintro d ⟨⟩
  decide

theorem Opens.append {cs : List Char} (h : Opens cs) (ds : List Char) : Opens (cs ++ ds) := by
  obtain ⟨c, cs, rfl, hblank, hequals⟩ := h
  exact ⟨c, cs ++ ds, rfl, hblank, hequals⟩

theorem opens_of_isWordPart {c : Char} {cs : List Char} (h : Pattern.isWordPart c = true) :
    Opens (c :: cs) := by
  refine ⟨c, cs, rfl, isBlank_of_isWordPart h, ?_⟩
  intro heq
  subst heq
  revert h
  decide

/-! ### Words, numbers and marks -/

theorem scans_word {cs : List Char} (h : IsWord cs) :
    Scans Ends cs [.ofWord (String.ofList cs)] := by
  obtain ⟨c, ds, rfl, hc, hds⟩ := h
  refine .of_match String.toList_ofList fun rest hrest => ⟨.word, ?_, rfl⟩
  obtain ⟨htake, hdrop⟩ := span_boundary hds hrest.word
  have hblank := isBlank_of_isWordPart (isWordPart_of_isWordStart hc)
  have hslash : c ≠ '/' := by rintro rfl; revert hc; decide
  -- The rules before the one for words want a blank or a slash.
  simp [firstMatch?, rules, Rule.match?, Pattern.split?, hblank, hslash, hc, htake, hdrop]

/-- The text of a number: digits, with a point and more digits or without. -/
def IsNumeral (cs : List Char) : Prop :=
  ∃ d ds fs, cs = d :: ds ++ fs ∧ (∀ c ∈ d :: ds, c.isDigit = true) ∧
    (fs = [] ∨ ∃ f gs, fs = '.' :: f :: gs ∧ ∀ c ∈ f :: gs, c.isDigit = true)

theorem split?_numeral {cs rest : List Char} (h : IsNumeral cs) (hrest : Ends rest) :
    Pattern.number.split? (cs ++ rest) = some (cs, rest) := by
  obtain ⟨d, ds, fs, rfl, hds, hfs⟩ := h
  obtain ⟨hd, hds⟩ := List.forall_mem_cons.1 hds
  have hrest' : ∀ c, rest.head? = some c → c.isDigit = false := by
    intro c hc
    have := hrest.word c hc
    simp only [Pattern.isWordPart, Bool.or_eq_false_iff] at this
    exact this.2
  have hnumber : Pattern.number.split? (d :: ds ++ fs ++ rest) =
      some (Pattern.prepend (d :: (ds ++ (fs ++ rest)).takeWhile Char.isDigit)
        (Pattern.fraction ((ds ++ (fs ++ rest)).dropWhile Char.isDigit))) := by
    simp [Pattern.split?, hd]
  rw [hnumber]
  -- The first run of digits ends where the number ends, or at its point.
  rcases hfs with rfl | ⟨f, gs, rfl, hgs⟩
  · obtain ⟨htake, hdrop⟩ := span_boundary hds hrest'
    rw [List.nil_append, htake, hdrop, hrest.number]
    rfl
  · obtain ⟨hf, hgs⟩ := List.forall_mem_cons.1 hgs
    have hpoint : ∀ c, ('.' :: f :: gs ++ rest).head? = some c → c.isDigit = false := by
      rintro c ⟨⟩
      decide
    obtain ⟨htake, hdrop⟩ := span_boundary hds hpoint
    obtain ⟨htake', hdrop'⟩ := span_boundary hgs hrest'
    rw [htake, hdrop]
    simp [Pattern.fraction, Pattern.prepend, hf, htake', hdrop']

theorem scans_number {cs : List Char} (h : IsNumeral cs) :
    Scans Ends cs [⟨.number, String.ofList cs⟩] := by
  refine .of_match String.toList_ofList fun rest hrest => ⟨.token .number, ?_, rfl⟩
  have hsplit := split?_numeral h hrest
  obtain ⟨d, ds, fs, rfl, hds, -⟩ := h
  have hd := hds d List.mem_cons_self
  have hblank := isBlank_of_isWordPart (isWordPart_of_isDigit hd)
  have hslash : d ≠ '/' := by rintro rfl; revert hd; decide
  have hstart := isWordStart_of_isDigit hd
  simp only [firstMatch?, rules, Rule.match?, List.cons_append, List.findSome?_cons] at hsplit ⊢
  rw [hsplit]
  simp [Pattern.split?, hblank, hslash, hstart]

namespace Kind

/-- The punctuators that no other one begins with. -/
def marks : List Kind :=
  [.openBracket, .closeBracket, .openCurly, .closeCurly, .openParen, .closeParen, .dot,
   .semicolon, .comma, .plusPlus, .minusMinus]

/-- The operators between two operands. -/
def operators : List Kind :=
  [.plus, .dash, .star, .slash, .percent, .equals, .notEquals, .less, .lessEquals, .greater,
   .greaterEquals, .and, .or, .nullCoalesce, .assignment, .plusEquals, .minusEquals, .starEquals,
   .slashEquals]

end Kind

theorem scans_mark (kind : Kind) (h : kind ∈ Kind.marks) :
    Scans Anything (Lexeme.ofKind kind).text.toList [.ofKind kind] := by
  simp only [Kind.marks, List.mem_cons, List.not_mem_nil, or_false] at h
  rcases h with rfl | rfl | rfl | rfl | rfl | rfl | rfl | rfl | rfl | rfl | rfl <;>
    exact .of_match rfl fun _ _ => ⟨_, rfl, rfl⟩

/-- A blank is skipped up to the character after it that is none. -/
theorem scans_blank : Scans Opens [' '] [] := by
  rintro p _ ts ⟨c, cs, rfl, hblank, -⟩ hlexes
  have hmatch : firstMatch? (' ' :: c :: cs) = some ⟨.gap, [' '], c :: cs⟩ := by
    have hspace : Text.isBlank ' ' = true := rfl
    simp [firstMatch?, rules, Rule.match?, Pattern.split?, hblank, hspace]
  exact ⟨[], rfl, .gap hmatch rfl hlexes⟩

/-- A word with a blank after it. -/
theorem scans_wordBlank {cs : List Char} (h : IsWord cs) :
    Scans Opens (cs ++ [' ']) [.ofWord (String.ofList cs)] :=
  (scans_word h).append scans_blank fun _ _ => ends_cons (by decide) (by decide)

/-- An operator with a blank before it, if a blank follows. -/
theorem scans_spaced (kind : Kind) (h : kind ∈ Kind.operators) :
    Scans (fun rest => ∃ cs, rest = ' ' :: cs) (' ' :: (Lexeme.ofKind kind).text.toList)
      [.ofKind kind] := by
  rintro p _ ts ⟨cs, rfl⟩ hlexes
  simp only [Kind.operators, List.mem_cons, List.not_mem_nil, or_false] at h
  rcases h with rfl | rfl | rfl | rfl | rfl | rfl | rfl | rfl | rfl | rfl | rfl | rfl | rfl | rfl |
    rfl | rfl | rfl | rfl | rfl <;>
    exact ⟨[_], rfl, .gap rfl rfl (.token rfl rfl hlexes)⟩

/-- An operator between blanks. -/
theorem scans_operator (kind : Kind) (h : kind ∈ Kind.operators) :
    Scans Opens (' ' :: (Lexeme.ofKind kind).text.toList ++ [' ']) [.ofKind kind] :=
  (scans_spaced kind h).append scans_blank fun rest _ => ⟨rest, rfl⟩

/-- A comma and a blank. -/
theorem scans_comma : Scans Opens [',', ' '] [.ofKind .comma] :=
  (scans_mark .comma (by decide)).before scans_blank

/-- A negation, if it is not taken for an inequality. -/
theorem scans_not : Scans Opens ['!'] [.ofKind .not] := by
  refine .of_match rfl ?_
  rintro _ ⟨c, cs, rfl, -, hc⟩
  refine ⟨.token .not, ?_, rfl⟩
  have hne : '=' ≠ c := Ne.symm hc
  simp [firstMatch?, rules, Rule.match?, Rule.ofKind, Pattern.split?, Pattern.stripText,
    Kind.punctuators, Kind.spelling?, Pattern.prepend, Text.isBlank, Pattern.isWordStart, hne]

/-- A minus sign, if it is not taken for a decrement. -/
theorem scans_negate :
    Scans (fun rest => Opens rest ∧ rest.head? ≠ some '-') ['-'] [.ofKind .dash] := by
  refine .of_match rfl ?_
  rintro _ ⟨⟨c, cs, rfl, -, hc⟩, hdash⟩
  refine ⟨.token .dash, ?_, rfl⟩
  have hne : '=' ≠ c := Ne.symm hc
  have hne' : '-' ≠ c := by
    rintro rfl
    exact hdash rfl
  simp [firstMatch?, rules, Rule.match?, Rule.ofKind, Pattern.split?, Pattern.stripText,
    Kind.punctuators, Kind.spelling?, Pattern.prepend, Text.isBlank, Pattern.isWordStart, hne, hne']

end ClassScript

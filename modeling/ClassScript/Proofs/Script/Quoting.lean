import ClassScript.Proofs.Script.Literal
import ClassScript.Proofs.Token.MaximalMunch

/-!
# Quoted strings

A quoted string has two readers. A script reads it by the rules of its own string
literals (`scriptValue?`) and finds the characters that it was made of, whatever they
are (`quoted_denotes`).

The language reads it as a token. It is one string literal, again whatever the
characters are, but the language knows no escapes by code points and leaves them as
they stand. So the value of the literal is the string itself exactly if no character of
it is written by its code point (`quoted_scans_back`).
-/

namespace ClassScript.Script

/-! ### String literals of a script -/

/-- The value of a hexadecimal digit. -/
def hexDigit? (c : Char) : Option Nat :=
  if c.isDigit then some (c.toNat - '0'.toNat)
  else if 'a' ≤ c ∧ c ≤ 'f' then some (c.toNat - 'a'.toNat + 10)
  else if 'A' ≤ c ∧ c ≤ 'F' then some (c.toNat - 'A'.toNat + 10)
  else none

/-- The number that hexadecimal digits spell. -/
def hexNumber? (digits : List Char) : Option Nat :=
  digits.foldlM (fun n d => (hexDigit? d).map (16 * n + ·)) 0

/-- The character with a code point. Surrogates are no characters. -/
def charOf? (code : Nat) : Option Char :=
  if code.isValidChar then some (.ofNat code) else none

/-- The character that a backslash and `e` stand for together. -/
def shortEscape? (e : Char) : Option Char :=
  match e with
  | '"' => some '"'
  | '\\' => some '\\'
  | 'n' => some '\n'
  | 'r' => some '\r'
  | 't' => some '\t'
  | _ => none

/-- The characters that a text between two quotes stands for. There are none if the
text has a quote of its own or a backslash that begins no escape. -/
def denoted? : List Char → Option (List Char)
  | [] => some []
  | '\\' :: 'u' :: w :: x :: y :: z :: rest => do
    let code ← hexNumber? [w, x, y, z]
    return (← charOf? code) :: (← denoted? rest)
  | '\\' :: e :: rest => do
    return (← shortEscape? e) :: (← denoted? rest)
  | c :: rest => if c = '"' ∨ c = '\\' then none else (denoted? rest).map (c :: ·)

/-- The string that a literal, given with its quotes, stands for in a script. -/
def scriptValue? (literal : String) : Option String :=
  match literal.toList with
  | '"' :: rest =>
    if rest.getLast? = some '"' then (denoted? rest.dropLast).map String.ofList else none
  | _ => none

/-- Does the text end with a backslash that escapes what comes next? A backslash that
is escaped itself does not. -/
def escapesNext (text : List Char) : Bool :=
  text.foldl (fun escaped c => !escaped && c == '\\') false

/-- Does the character end a line or control a device? -/
def breaksLiteral (c : Char) : Bool :=
  c = '\n' || c = '\r' || c.toNat = 0x2028 || c.toNat = 0x2029 || isControl c

/-! ### Hexadecimal digits -/

theorem hexDigit?_digitChar : ∀ d < 16, hexDigit? (Nat.digitChar d) = some d := by
  decide

/-- Digits are read from the left. -/
theorem hexNumber?_append (ds es : List Char) :
    hexNumber? (ds ++ es) = (hexNumber? ds).bind fun n =>
      es.foldlM (fun n d => (hexDigit? d).map (16 * n + ·)) n :=
  List.foldlM_append

/-- The digits of a number to base sixteen spell it. -/
theorem hexNumber?_toDigits (n : Nat) : hexNumber? (Nat.toDigits 16 n) = some n := by
  induction n using Nat.strongRecOn with
  | ind n ih =>
    rw [Nat.toDigits_eq_if (by decide)]
    by_cases hn : n < 16
    · rw [if_pos hn]
      simp [hexNumber?, hexDigit?_digitChar n hn]
    · have hdigit := hexDigit?_digitChar (n % 16) (Nat.mod_lt n (by decide))
      have hlast : [Nat.digitChar (n % 16)].foldlM
          (fun n d => (hexDigit? d).map (16 * n + ·)) (n / 16) = some (16 * (n / 16) + n % 16) := by
        simp [hdigit]
      rw [if_neg hn, hexNumber?_append, ih (n / 16) (by omega), Option.bind_some, hlast,
        Nat.div_add_mod]

theorem hexNumber?_zeros (k : Nat) : hexNumber? (List.replicate k '0') = some 0 := by
  induction k with
  | zero => rfl
  | succ k ih =>
    rw [List.replicate_succ', hexNumber?_append, ih]
    rfl

/-- Four digits are enough for a character of the first plane. -/
theorem unicodeEscape_eq {c : Char} (h : c.toNat < 0x10000) :
    ∃ w x y z, unicodeEscape c = ['\\', 'u', w, x, y, z] ∧
      hexNumber? [w, x, y, z] = some c.toNat := by
  have hlength : (Nat.toDigits 16 c.toNat).length ≤ 4 :=
    (Nat.length_toDigits_le_iff (by decide) (by decide)).2 h
  have hnumber : hexNumber? (List.replicate (4 - (Nat.toDigits 16 c.toNat).length) '0' ++
      Nat.toDigits 16 c.toNat) = some c.toNat := by
    rw [hexNumber?_append, hexNumber?_zeros]
    exact hexNumber?_toDigits c.toNat
  have hfour : (List.replicate (4 - (Nat.toDigits 16 c.toNat).length) '0' ++
      Nat.toDigits 16 c.toNat).length = 4 := by
    rw [List.length_append, List.length_replicate]
    omega
  rw [unicodeEscape, List.append_assoc]
  generalize List.replicate _ '0' ++ Nat.toDigits 16 c.toNat = digits at hnumber hfour ⊢
  rcases digits with _ | ⟨w, _ | ⟨x, _ | ⟨y, _ | ⟨z, _ | _⟩⟩⟩⟩
  case cons.cons.cons.cons.nil => exact ⟨w, x, y, z, rfl, hnumber⟩
  all_goals simp at hfour

theorem isSome_of_hexNumber? {ds : List Char} {n : Nat} (h : hexNumber? ds = some n) :
    ∀ d ∈ ds, (hexDigit? d).isSome = true := by
  unfold hexNumber? at h
  generalize 0 = start at h
  induction ds generalizing start with
  | nil => simp
  | cons d ds ih =>
    obtain ⟨m, hm, hds⟩ := Option.bind_eq_some_iff.1 h
    obtain ⟨k, hk, -⟩ := Option.map_eq_some_iff.1 hm
    exact List.forall_mem_cons.2 ⟨by rw [hk]; rfl, ih m hds⟩

theorem ne_of_hexDigit? {c d : Char} (h : (hexDigit? c).isSome = true) (hd : hexDigit? d = none) :
    c ≠ d := by
  intro heq
  rw [heq, hd] at h
  cases h

/-- The hexadecimal digits lie between the first digit and the last of the small letters. -/
theorem toNat_of_hexDigit? {c : Char} (h : (hexDigit? c).isSome = true) :
    0x30 ≤ c.toNat ∧ c.toNat ≤ 0x66 := by
  unfold hexDigit? at h
  split at h
  · rename_i hdigit
    obtain ⟨hlow, hhigh⟩ := Char.isDigit_iff_toNat.1 hdigit
    exact ⟨hlow, Nat.le_trans hhigh (by decide)⟩
  split at h
  · rename_i hletter
    have hlow : 0x61 ≤ c.toNat := UInt32.le_iff_toNat_le.1 hletter.1
    have hhigh : c.toNat ≤ 0x66 := UInt32.le_iff_toNat_le.1 hletter.2
    omega
  split at h
  · rename_i hletter
    have hlow : 0x41 ≤ c.toNat := UInt32.le_iff_toNat_le.1 hletter.1
    have hhigh : c.toNat ≤ 0x46 := UInt32.le_iff_toNat_le.1 hletter.2
    omega
  · cases h

theorem breaksLiteral_of_hexDigit? {c : Char} (h : (hexDigit? c).isSome = true) :
    breaksLiteral c = false := by
  obtain ⟨hlow, hhigh⟩ := toNat_of_hexDigit? h
  have hline : c ≠ '\n' := ne_of_hexDigit? h rfl
  have hreturn : c ≠ '\r' := ne_of_hexDigit? h rfl
  simp only [breaksLiteral, isControl, hline, hreturn, decide_false, Bool.or_self, Bool.false_or,
    Bool.or_eq_false_iff, decide_eq_false_iff_not, Bool.and_eq_false_imp, decide_eq_true_eq]
  omega

/-! ### How a string is written -/

/-- How a character is written: by a short escape, by its code point or by itself. -/
inductive Written (c : Char) : List Char → Prop
  | short {e : Char} : shortEscape? e = some c → Written c ['\\', e]
  | code {w x y z : Char} : hexNumber? [w, x, y, z] = some c.toNat → ¬ IsPlainChar c →
      Written c ['\\', 'u', w, x, y, z]
  | plain : c ≠ '"' → c ≠ '\\' → breaksLiteral c = false → Written c [c]

/-- Every character is written in one of the three ways. -/
theorem written_quotedChar (c : Char) : Written c (quotedChar c) := by
  unfold quotedChar
  split
  · subst_vars
    exact .short rfl
  split
  · subst_vars
    exact .short rfl
  split
  · subst_vars
    exact .short rfl
  split
  · subst_vars
    exact .short rfl
  split
  · subst_vars
    exact .short rfl
  split
  · rename_i hline hreturn htab hcode
    have hplane : c.toNat < 0x10000 := by
      simp only [isControl, Bool.or_eq_true, Bool.and_eq_true, decide_eq_true_eq] at hcode
      omega
    have hplain : ¬ IsPlainChar c := by
      simp only [IsPlainChar, hline, hreturn, htab, false_or]
      intro ⟨hcontrol, hseparator, hparagraph⟩
      simp [hcontrol, hseparator, hparagraph] at hcode
    obtain ⟨w, x, y, z, hescape, hnumber⟩ := unicodeEscape_eq hplane
    rw [hescape]
    exact .code hnumber hplain
  · rename_i hquote hslash hline hreturn htab hcode
    simp only [not_or] at hcode
    refine .plain hquote hslash ?_
    simp [breaksLiteral, hline, hreturn, hcode]

/-- A short escape means the same in the script and in the language. -/
theorem shortEscape?_eq_some {e c : Char} (h : shortEscape? e = some c) :
    breaksLiteral e = false ∧ Escape.decode? e = some c ∧ IsPlainChar c := by
  unfold shortEscape? at h
  split at h
  case h_6 => cases h
  all_goals
    cases h
    decide

/-- What breaks no literal is written by itself or by a short escape. -/
theorem isPlainChar_of_breaksLiteral {c : Char} (h : breaksLiteral c = false) :
    IsPlainChar c := by
  simp only [breaksLiteral, Bool.or_eq_false_iff, decide_eq_false_iff_not] at h
  exact .inr (.inr (.inr ⟨h.2, h.1.1.2, h.1.2⟩))

/-! ### What a script reads -/

/-- A character is read from the way it is written, whatever follows. -/
theorem denoted?_of_written {c : Char} {text : List Char} (h : Written c text) (rest : List Char) :
    denoted? (text ++ rest) = (denoted? rest).map (c :: ·) := by
  cases h with
  | @short e he =>
    have hu : e ≠ 'u' := by
      intro heq
      rw [heq] at he
      cases he
    simp only [List.cons_append, List.nil_append, denoted?, hu, imp_false, false_implies,
      implies_true, he, Option.pure_def, Option.bind_eq_bind, Option.bind_some]
    cases denoted? rest <;> rfl
  | code hnumber _ =>
    have hvalid : c.toNat.isValidChar := c.valid
    have hchar : charOf? c.toNat = some c := by
      rw [charOf?, if_pos hvalid, Char.ofNat_toNat]
    simp only [List.cons_append, List.nil_append, denoted?, hnumber, hchar, Option.pure_def,
      Option.bind_eq_bind, Option.bind_some]
    cases denoted? rest <;> rfl
  | plain hquote hslash _ => simp [denoted?, hquote, hslash]

/-- By induction on the characters. -/
theorem denoted?_flatMap_quotedChar (cs : List Char) :
    denoted? (cs.flatMap quotedChar) = some cs := by
  induction cs with
  | nil => rfl
  | cons c cs ih =>
    rw [List.flatMap_cons, denoted?_of_written (written_quotedChar c), ih]
    rfl

theorem quotedBody_append {cs body : List Char} (h : ∀ c ∈ cs, c ≠ '"' ∧ c ≠ '\\')
    (hbody : QuotedBody '"' true body) : QuotedBody '"' true (cs ++ body) := by
  induction cs with
  | nil => exact hbody
  | cons c cs ih =>
    obtain ⟨hc, hcs⟩ := List.forall_mem_cons.1 h
    exact .plain hc.1 hc.2 (fun _ => rfl) (ih hcs)

/-- No way to write a character has a quote that is not escaped. -/
theorem quotedBody_of_written {c : Char} {text body : List Char} (h : Written c text)
    (hbody : QuotedBody '"' true body) : QuotedBody '"' true (text ++ body) := by
  cases h with
  | short _ => exact .escape (fun _ => rfl) hbody
  | @code w x y z hnumber _ =>
    have hdigits : ∀ d ∈ [w, x, y, z], d ≠ '"' ∧ d ≠ '\\' := by
      intro d hd
      have hdigit := isSome_of_hexNumber? hnumber d hd
      exact ⟨ne_of_hexDigit? hdigit rfl, ne_of_hexDigit? hdigit rfl⟩
    exact .escape (fun _ => rfl) (quotedBody_append hdigits hbody)
  | plain hquote hslash _ => exact .plain hquote hslash (fun _ => rfl) hbody

/-- So the text between the quotes does not close the literal. -/
theorem quotedBody_flatMap_quotedChar (cs : List Char) :
    QuotedBody '"' true (cs.flatMap quotedChar) := by
  induction cs with
  | nil => exact .nil
  | cons c cs ih =>
    rw [List.flatMap_cons]
    exact quotedBody_of_written (written_quotedChar c) ih

theorem escapesNext_cons {c : Char} (hc : c ≠ '\\') (text : List Char) :
    escapesNext (c :: text) = escapesNext text := by
  rw [escapesNext, List.foldl_cons, beq_false_of_ne hc]
  rfl

/-- An escape is over after its second character. -/
theorem escapesNext_escape (e : Char) (text : List Char) :
    escapesNext ('\\' :: e :: text) = escapesNext text :=
  rfl

/-- A quote between the quotes of a literal is escaped. -/
theorem escapesNext_of_quotedBody {body : List Char} (h : QuotedBody '"' true body)
    {front back : List Char} (hsplit : body = front ++ '"' :: back) :
    escapesNext front = true := by
  induction h generalizing front with
  | nil => simp at hsplit
  | @plain c cs hquote hslash _ _ ih =>
    cases front with
    | nil => exact absurd (List.cons.inj hsplit).1 hquote
    | cons d front =>
      obtain ⟨rfl, hcs⟩ := List.cons.inj hsplit
      rw [escapesNext_cons hslash]
      exact ih hcs
  | @escape e cs _ _ ih =>
    rcases front with _ | ⟨d, _ | ⟨e', front⟩⟩
    · cases hsplit
    · obtain ⟨rfl, -⟩ := List.cons.inj hsplit
      rfl
    · obtain ⟨rfl, htail⟩ := List.cons.inj hsplit
      obtain ⟨rfl, hcs⟩ := List.cons.inj htail
      rw [escapesNext_escape]
      exact ih hcs

/-- A string is written in one line. -/
theorem breaksLiteral_of_written {c d : Char} {text : List Char} (h : Written c text)
    (hd : d ∈ text) : breaksLiteral d = false := by
  cases h with
  | short he =>
    rcases List.mem_cons.1 hd with rfl | hd
    · decide
    · rw [List.mem_singleton.1 hd]
      exact (shortEscape?_eq_some he).1
  | code hnumber _ =>
    rcases List.mem_cons.1 hd with rfl | hd
    · decide
    rcases List.mem_cons.1 hd with rfl | hd
    · decide
    · exact breaksLiteral_of_hexDigit? (isSome_of_hexNumber? hnumber d hd)
  | plain _ _ hbreaks =>
    rw [List.mem_singleton.1 hd]
    exact hbreaks

/-- A quoted string is a literal of one line that stands for the string in a script. -/
theorem quoted_denotes (text : String) :
    scriptValue? (quoted text) = some text ∧
    ∃ body, (quoted text).toList = '"' :: (body ++ ['"']) ∧
      (∀ front back, body = front ++ '"' :: back → escapesNext front = true) ∧
      ∀ c ∈ body, breaksLiteral c = false := by
  constructor
  · simp [scriptValue?, quoted_toList, denoted?_flatMap_quotedChar]
  · refine ⟨text.toList.flatMap quotedChar, quoted_toList text, ?_, ?_⟩
    · intro front back hsplit
      exact escapesNext_of_quotedBody (quotedBody_flatMap_quotedChar _) hsplit
    · intro c hc
      obtain ⟨d, -, hd⟩ := List.mem_flatMap.1 hc
      exact breaksLiteral_of_written (written_quotedChar d) hd

/-! ### What the language reads -/

/-- What the language reads of a character of a quoted string. -/
def readBack (c : Char) : List Char :=
  if IsPlainChar c then [c] else quotedChar c

theorem decodeAll_append {cs : List Char} (h : ∀ c ∈ cs, c ≠ '\\') (rest : List Char) :
    Escape.decodeAll (cs ++ rest) = cs ++ Escape.decodeAll rest := by
  induction cs with
  | nil => rfl
  | cons c cs ih =>
    obtain ⟨hc, hcs⟩ := List.forall_mem_cons.1 h
    simp [Escape.decodeAll, hc, ih hcs]

/-- The language takes a short escape out and leaves a code point as it is. -/
theorem decodeAll_of_written {c : Char} {text : List Char} (h : Written c text) (rest : List Char) :
    Escape.decodeAll (text ++ rest) =
      (if IsPlainChar c then [c] else text) ++ Escape.decodeAll rest := by
  cases h with
  | short he =>
    obtain ⟨-, hdecode, hplain⟩ := shortEscape?_eq_some he
    simp [hplain, Escape.decodeAll, hdecode]
  | @code w x y z hnumber hplain =>
    have hdigits : ∀ d ∈ ['u', w, x, y, z], d ≠ '\\' := by
      refine List.forall_mem_cons.2 ⟨by decide, ?_⟩
      intro d hd
      exact ne_of_hexDigit? (isSome_of_hexNumber? hnumber d hd) rfl
    have hbackslash : Escape.decodeAll ('\\' :: (['u', w, x, y, z] ++ rest)) =
        '\\' :: Escape.decodeAll (['u', w, x, y, z] ++ rest) := by
      simp [Escape.decodeAll, Escape.decode?]
    rw [if_neg hplain, List.cons_append, hbackslash, decodeAll_append hdigits]
    rfl
  | plain _ hslash hbreaks =>
    have hplain := isPlainChar_of_breaksLiteral hbreaks
    simp [hplain, Escape.decodeAll, hslash]

theorem decodeAll_flatMap_quotedChar (cs : List Char) :
    Escape.decodeAll (cs.flatMap quotedChar) = cs.flatMap readBack := by
  induction cs with
  | nil => rfl
  | cons c cs ih =>
    rw [List.flatMap_cons, List.flatMap_cons, decodeAll_of_written (written_quotedChar c), ih]
    rfl

/-- A character written by its code point is six characters long. -/
theorem length_of_written {c : Char} {text : List Char} (h : Written c text)
    (hplain : ¬ IsPlainChar c) : text.length = 6 := by
  cases h with
  | short he => exact absurd (shortEscape?_eq_some he).2.2 hplain
  | code _ _ => rfl
  | plain _ _ hbreaks => exact absurd (isPlainChar_of_breaksLiteral hbreaks) hplain

/-- An escape by code point has six characters. -/
theorem length_readBack (c : Char) : (readBack c).length = if IsPlainChar c then 1 else 6 := by
  rw [readBack]
  split
  · rfl
  · exact length_of_written (written_quotedChar c) ‹_›

theorem length_le_flatMap_readBack (cs : List Char) : cs.length ≤ (cs.flatMap readBack).length := by
  induction cs with
  | nil => exact Nat.le_refl 0
  | cons c cs ih =>
    rw [List.flatMap_cons, List.length_append, List.length_cons, length_readBack]
    split <;> omega

/-- Nothing is read back as it was if a character is written by its code point: it is read
as six characters, and no character is lost. -/
theorem flatMap_readBack_eq_self_iff (cs : List Char) :
    cs.flatMap readBack = cs ↔ ∀ c ∈ cs, IsPlainChar c := by
  induction cs with
  | nil => simp
  | cons c cs ih =>
    rw [List.flatMap_cons, List.forall_mem_cons, ← ih]
    by_cases hplain : IsPlainChar c
    · simp [readBack, hplain]
    · constructor
      · intro heq
        have hlength := congrArg List.length heq
        have hle := length_le_flatMap_readBack cs
        rw [List.length_append, length_readBack, if_neg hplain, List.length_cons] at hlength
        omega
      · intro h
        exact absurd h.1 hplain

/-- A quoted string alone is one token. -/
theorem lexes_quoted (text : String) (p : Position) :
    Lexes p (quoted text).toList
      [⟨.string, quoted text, ⟨p, p.after (quoted text).toList⟩⟩,
        .endOfInput (p.after (quoted text).toList)] := by
  have hclose := closeQuote_body (by decide) (quotedBody_flatMap_quotedChar text.toList) []
  have hmatch : Lexical.firstMatch? (quoted text).toList =
      some ⟨.token .string, (quoted text).toList, []⟩ := by
    rw [quoted_toList, firstMatch?_string, hclose]
  have hlexes := Lexes.token (p := p) hmatch rfl (.done _)
  simp only [String.ofList_toList] at hlexes
  exact hlexes

/-- A quoted string is one string literal of the language, and the value of that literal is
the string itself if and only if no character is written by its code point. -/
theorem quoted_scans_back (text : String) :
    tokenize (quoted text) =
      .ok [⟨.string, quoted text, ⟨.start, Position.start.after (quoted text).toList⟩⟩,
        .endOfInput (Position.start.after (quoted text).toList)] ∧
    (Escape.literalValue? (quoted text) = some text ↔ ∀ c ∈ text.toList, IsPlainChar c) := by
  constructor
  · exact (lexes_quoted text .start).tokensFrom_eq
  · have hvalue : Escape.literalValue? (quoted text) =
        some (String.ofList (text.toList.flatMap readBack)) := by
      rw [Escape.literalValue?_of_quotes _ (by decide) (quoted_toList text),
        decodeAll_flatMap_quotedChar]
    rw [hvalue, Option.some.injEq, ← flatMap_readBack_eq_self_iff]
    constructor
    · intro h
      rw [← String.toList_inj, String.toList_ofList] at h
      exact h
    · intro h
      rw [h, String.ofList_toList]

end ClassScript.Script

import ClassScript.Proofs.Token.Vocabulary
import ClassScript.Text.Bytes
import ClassScript.Text.FindWord
import ClassScript.Text.Word

/-!
# Finding whole words

A word stands whole between two texts if neither goes on with a word where they meet it
(`Apart`). The search returns the first place where it does so (`findWordFrom_spec`). Two whole
occurrences of one word never overlap, so a word that stands whole behind `lead` is found there
exactly if it does not stand whole in `lead` itself (`findWord?_append`).

Which characters make up words is left open. All that is used of it elsewhere is that the words
of the language are words in this sense, and that blanks and punctuators are not part of any
(`WordClass`). The table of word characters has these properties (`wordClass_isWordChar`).
-/

namespace ClassScript.Text

/-! ### Whole words -/

/-- No word goes on from `before` or into `after`. -/
structure Apart (inWord : Char → Bool) (before after : List Char) : Prop where
  before : ∀ c ∈ before.getLast?, inWord c = false
  after : ∀ c ∈ after.head?, inWord c = false

/-- The word stands whole somewhere in the text. -/
def HasWord (inWord : Char → Bool) (word cs : List Char) : Prop :=
  ∃ a b, cs = a ++ (word ++ b) ∧ Apart inWord a b

/-- Taking a word off leaves what follows it. -/
theorem dropWord_eq_some_iff {word cs rest : List Char} :
    dropWord word cs = some rest ↔ cs = word ++ rest := by
  fun_induction dropWord word cs with
  | case1 cs => simp [eq_comm]
  | case2 => simp
  | case3 w word cs ih => simpa using ih
  | case4 w word c cs hne => simp [Ne.symm hne]

variable {inWord : Char → Bool}

theorem any_eq_false_iff {o : Option Char} :
    o.any inWord = false ↔ ∀ c ∈ o, inWord c = false := by
  cases o <;> simp

/-- Nothing stands apart from the end of a word. -/
theorem not_apart_append {word : List Char} (hne : word ≠ [])
    (hword : ∀ c ∈ word, inWord c = true) (a b : List Char) : ¬ Apart inWord (a ++ word) b := by
  intro h
  have hlast : word.getLast hne ∈ (a ++ word).getLast? := by
    rw [List.getLast?_append, List.getLast?_eq_some_getLast hne]
    rfl
  have hfalse := h.before _ hlast
  rw [hword _ (List.getLast_mem hne)] at hfalse
  cases hfalse

section

variable {word : List Char} (hne : word ≠ []) (hword : ∀ c ∈ word, inWord c = true)

include hne hword

/-- The test at one place, as a statement about the characters beside the word. -/
theorem standsWhole_iff {before : Option Char} {cs : List Char} :
    standsWhole inWord word before cs = true ↔
      ∃ b, cs = word ++ b ∧ (∀ c ∈ before, inWord c = false) ∧
        ∀ c ∈ b.head?, inWord c = false := by
  -- The word begins and ends with word characters, so at each of its ends there is a boundary
  -- exactly if no word character comes next to it.
  obtain ⟨w, ws, hw⟩ := List.exists_cons_of_ne_nil hne
  have hfirst : inWord w = true := hword w (by simp [hw])
  have hlast : (word.getLast?.or before).any inWord = true := by
    rw [List.getLast?_eq_some_getLast hne, Option.some_or, Option.any_some]
    exact hword _ (List.getLast_mem hne)
  have hboundary (b : List Char) :
      (isBoundary inWord before (word ++ b).head? &&
          isBoundary inWord (word.getLast?.or before) b.head?) = true ↔
        before.any inWord = false ∧ b.head?.any inWord = false := by
    have hhead : (word ++ b).head?.any inWord = true := by simp [hw, hfirst]
    rw [isBoundary, isBoundary, hhead, hlast]
    cases before.any inWord <;> cases b.head?.any inWord <;> decide
  simp only [any_eq_false_iff] at hboundary
  cases hdrop : dropWord word cs with
  | none =>
    have hno (b : List Char) : cs ≠ word ++ b := by
      rw [ne_eq, ← dropWord_eq_some_iff, hdrop]
      exact nofun
    simp [standsWhole, hdrop, hno]
  | some b =>
    obtain rfl := dropWord_eq_some_iff.1 hdrop
    rw [standsWhole, hdrop]
    simp only [hboundary, List.append_cancel_left_eq, exists_eq_left']

/-- The search finds the first whole occurrence, where `front` is what comes before the text. -/
theorem findWordFrom_spec (front cs : List Char) :
    (∃ a b, cs = a ++ (word ++ b) ∧ Apart inWord (front ++ a) b ∧
      findWordFrom inWord word front.getLast? (byteLength front) cs =
        some (byteLength (front ++ a)) ∧
      ∀ a' b', cs = a' ++ (word ++ b') → Apart inWord (front ++ a') b' → a.length ≤ a'.length) ∨
    (findWordFrom inWord word front.getLast? (byteLength front) cs = none ∧
      ∀ a b, cs = a ++ (word ++ b) → ¬ Apart inWord (front ++ a) b) := by
  -- A character that the search goes past moves into `front`.
  induction cs generalizing front with
  | nil =>
    have hno (a b : List Char) : [] ≠ a ++ (word ++ b) := by simp [hne]
    have hnot : standsWhole inWord word front.getLast? [] ≠ true := by
      rw [ne_eq, standsWhole_iff hne hword]
      exact fun ⟨b, hb, _⟩ => hno [] b hb
    rw [findWordFrom, if_neg hnot]
    exact .inr ⟨rfl, fun a b h => absurd h (hno a b)⟩
  | cons c cs ih =>
    by_cases hstands : standsWhole inWord word front.getLast? (c :: cs) = true
    · obtain ⟨b, hb, hbefore, hafter⟩ := (standsWhole_iff hne hword).1 hstands
      refine .inl ⟨[], b, hb, ⟨by rwa [List.append_nil], hafter⟩, ?_, fun _ _ _ _ => Nat.zero_le _⟩
      rw [findWordFrom, if_pos hstands, List.append_nil]
    · have hnot (b : List Char) (hb : c :: cs = word ++ b) : ¬ Apart inWord front b := fun hapart =>
        hstands ((standsWhole_iff hne hword).2 ⟨b, hb, hapart.before, hapart.after⟩)
      have hlast : (front ++ [c]).getLast? = some c := by simp
      have hlength : byteLength (front ++ [c]) = byteLength front + c.utf8Size := by
        simp [byteLength_append]
      have hstep := ih (front ++ [c])
      rw [hlast, hlength] at hstep
      simp only [List.append_assoc, List.singleton_append] at hstep
      rw [findWordFrom, if_neg hstands]
      rcases hstep with ⟨a, b, hcs, hapart, hfound, hfirst⟩ | ⟨hnone, hno⟩
      · refine .inl ⟨c :: a, b, by rw [hcs]; rfl, hapart, hfound, fun a' b' h' hapart' => ?_⟩
        cases a' with
        | nil => exact absurd (List.append_nil front ▸ hapart') (hnot b' h')
        | cons d a' =>
          obtain ⟨rfl, hcs'⟩ := List.cons.inj h'
          exact Nat.succ_le_succ (hfirst a' b' hcs' hapart')
      · refine .inr ⟨hnone, fun a b h hapart => ?_⟩
        cases a with
        | nil => exact hnot b h (List.append_nil front ▸ hapart)
        | cons d a =>
          obtain ⟨rfl, hcs⟩ := List.cons.inj h
          exact hno a b hcs hapart

/-- Whole occurrences do not overlap: one that begins before another also ends before it. -/
theorem exists_append_of_lt {lead after a b : List Char} (hlead : Apart inWord lead after)
    (h : a ++ (word ++ b) = lead ++ (word ++ after)) (ha : Apart inWord a b)
    (hlt : a.length < lead.length) : ∃ b', lead = a ++ (word ++ b') ∧ Apart inWord a b' := by
  rcases List.append_eq_append_iff.1 h with ⟨l, rfl, hl⟩ | ⟨l, rfl, -⟩
  · have hlne : l ≠ [] := by
      rintro rfl
      simp at hlt
    rcases List.append_eq_append_iff.1 hl with ⟨x, rfl, hx⟩ | ⟨x, rfl, -⟩
    · refine ⟨x, rfl, ha.before, ?_⟩
      cases x with
      | nil => exact nofun
      | cons c x =>
        rw [hx] at ha
        exact ha.after
    · -- The last character before the later occurrence would be one of the word.
      exact absurd hlead (not_apart_append hlne (fun c hc => hword c (by simp [hc])) a after)
  · rw [List.length_append] at hlt
    omega

/-- A word that stands whole behind `lead` is found there, unless it stands whole in `lead`;
then it is found in `lead`. -/
theorem findWord?_append {lead after : List Char} (hlead : Apart inWord lead after) :
    (¬ HasWord inWord word lead ∧
      findWord? inWord word (lead ++ (word ++ after)) = some (byteLength lead)) ∨
    ∃ a b, lead = a ++ (word ++ b) ∧ Apart inWord a b ∧
      findWord? inWord word (lead ++ (word ++ after)) = some (byteLength a) := by
  rcases findWordFrom_spec hne hword [] (lead ++ (word ++ after)) with
    ⟨a, b, h, ha, hfound, hfirst⟩ | ⟨-, hno⟩
  · rcases Nat.lt_or_ge a.length lead.length with hlt | hge
    · obtain ⟨b', hb', ha'⟩ := exists_append_of_lt hne hword hlead h.symm ha hlt
      exact .inr ⟨a, b', hb', ha', hfound⟩
    · have hle := hfirst lead after rfl hlead
      obtain ⟨rfl, -⟩ := List.append_inj h.symm (Nat.le_antisymm hle hge)
      refine .inl ⟨?_, hfound⟩
      rintro ⟨a', b', rfl, ha'⟩
      -- An occurrence in `lead` would have been found before the one behind it.
      cases b' with
      | nil =>
        rw [List.append_nil] at hlead
        exact not_apart_append hne hword a' after hlead
      | cons c b' =>
        have hle := hfirst a' (c :: b' ++ (word ++ after)) (by simp) ⟨ha'.before, ha'.after⟩
        simp only [List.length_append, List.length_cons] at hle
        omega
  · exact absurd hlead (hno lead after rfl)

end

/-! ### Characters -/

/-- The characters of the words of the language are word characters, those of blanks and
punctuators are not. -/
structure WordClass (inWord : Char → Bool) : Prop where
  part : ∀ c, Pattern.isWordPart c = true → inWord c = true
  blank : ∀ c, isBlank c = true → inWord c = false
  punctuator : ∀ kind ∈ Kind.punctuators, ∀ c ∈ kind.spelled, inWord c = false

theorem WordClass.slash (h : WordClass inWord) : inWord '/' = false :=
  h.punctuator .slash (by decide) '/' (by decide)

/-- The number is in one of the ranges. -/
def inRanges (ranges : List (Nat × Nat)) (n : Nat) : Bool :=
  ranges.any fun range => Nat.ble range.1 n && Nat.ble n range.2

/-- The table as a search that can be computed step by step. -/
theorem isWordChar_eq (c : Char) : isWordChar c = inRanges wordTable.toList c.toNat := by
  have hble (a b : Nat) : decide (a ≤ b) = Nat.ble a b := by
    rw [Bool.eq_iff_iff, decide_eq_true_eq, Nat.ble_eq]
  rw [isWordChar, RangeTable.contains, ← Array.any_toList]
  simp only [hble]
  rfl

/-- The digits, the letters and the underscore, which are the first of the word characters. -/
def lowRanges : List (Nat × Nat) := [(0x30, 0x39), (0x41, 0x5A), (0x5F, 0x5F), (0x61, 0x7A)]

/-- Below the first letter that is not ASCII, only the first ranges of the table count. -/
theorem isWordChar_low {c : Char} (h : c.toNat < 0xAA) :
    isWordChar c = inRanges lowRanges c.toNat := by
  have htable : wordTable.toList = lowRanges ++ wordTable.toList.drop 4 := rfl
  have hhigh : (wordTable.toList.drop 4).all (fun range => Nat.ble 0xAA range.1) = true := by
    decide +kernel
  rw [isWordChar_eq, htable, inRanges, List.any_append]
  have hnone : (wordTable.toList.drop 4).any
      (fun range => Nat.ble range.1 c.toNat && Nat.ble c.toNat range.2) = false := by
    refine List.any_eq_false.2 fun range hrange hin => ?_
    have hlow := Nat.le_of_ble_eq_true (List.all_eq_true.1 hhigh range hrange)
    have := Nat.le_of_ble_eq_true (Bool.and_eq_true_iff.1 hin).1
    omega
  rw [hnone, Bool.or_false]
  rfl

theorem isWordChar_of_isWordPart {c : Char} (h : Pattern.isWordPart c = true) :
    isWordChar c = true := by
  have hall : (List.range 0x7B).all (fun n => !Pattern.isWordPart (Char.ofNat n) ||
      inRanges lowRanges n) = true := by decide +kernel
  have hlt : c.toNat < 0x7B := Nat.lt_succ_of_le (toNat_of_isWordPart h).2
  have hc := List.all_eq_true.1 hall c.toNat (List.mem_range.2 hlt)
  rw [Char.ofNat_toNat, h] at hc
  rw [isWordChar_low (by omega)]
  exact hc

/-- The blanks, by code point. -/
def blanks : List Nat :=
  [0x09, 0x0A, 0x0B, 0x0C, 0x0D, 0x20, 0x85, 0xA0, 0x1680, 0x2000, 0x2001, 0x2002, 0x2003, 0x2004,
   0x2005, 0x2006, 0x2007, 0x2008, 0x2009, 0x200A, 0x2028, 0x2029, 0x202F, 0x205F, 0x3000]

theorem toNat_mem_blanks {c : Char} (h : isBlank c = true) : c.toNat ∈ blanks := by
  simp only [isBlank, Bool.or_eq_true, Bool.and_eq_true, decide_eq_true_eq, beq_iff_eq] at h
  simp only [blanks, List.mem_cons, List.not_mem_nil, or_false]
  omega

theorem isWordChar_of_isBlank {c : Char} (h : isBlank c = true) : isWordChar c = false := by
  have hall : blanks.all (fun n => !inRanges wordTable.toList n) = true := by decide +kernel
  rw [isWordChar_eq]
  simpa using List.all_eq_true.1 hall c.toNat (toNat_mem_blanks h)

/-- Punctuators are made of ASCII characters. -/
theorem isWordChar_of_punctuator {kind : Kind} (h : kind ∈ Kind.punctuators) :
    ∀ c ∈ kind.spelled, isWordChar c = false := by
  have hall : Kind.punctuators.all (fun kind => kind.spelled.all fun c =>
      Nat.ble c.toNat 0x7F && !inRanges lowRanges c.toNat) = true := by decide +kernel
  intro c hc
  have hlow := List.all_eq_true.1 (List.all_eq_true.1 hall kind h) c hc
  obtain ⟨hle, hnot⟩ := Bool.and_eq_true_iff.1 hlow
  rw [isWordChar_low (Nat.lt_of_le_of_lt (Nat.le_of_ble_eq_true hle) (by decide))]
  simpa using hnot

theorem wordClass_isWordChar : WordClass isWordChar where
  part _ := isWordChar_of_isWordPart
  blank _ := isWordChar_of_isBlank
  punctuator _ := isWordChar_of_punctuator

end ClassScript.Text

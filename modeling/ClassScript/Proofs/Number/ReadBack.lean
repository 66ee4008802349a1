import ClassScript.Number.Layout
import ClassScript.Number.Read
import ClassScript.Proofs.Number.Nearest

/-!
# Written numbers read back

The shortest decimal of a finite number is a decimal in the interval of that
number, so it reads back as the number (`ofDecimal_of_contains`). In place, a
decimal is a run of digits with a point or without, and reading that text gives
the decimal again (`ofText?_positional_shortest`).
-/

namespace ClassScript.Binary64

attribute [local instance (high)] instPowNat

variable {rank : Nat} {tie : Tie}

/-! ### The interval of a rank -/

theorem scale_lt (h : rank < infiniteRank) : scale rank < 2046 := by
  have hdiv : rank / binade < 2047 := (Nat.div_lt_iff_lt_mul binade_pos).2 h
  unfold scale
  omega

theorem Interval.low_pos (h : 0 < rank) : 0 < (ofRank rank).low := by
  have hunit := Nat.two_pow_pos (scale rank)
  have hm := Nat.mul_le_mul_right (2 ^ scale rank)
    (show 4 ≤ 4 * significand rank by have := significand_pos h; omega)
  show 0 < 4 * significand rank * 2 ^ scale rank -
    if significand rank = binade ∧ 0 < scale rank then 2 ^ scale rank else 2 * 2 ^ scale rank
  split <;> omega

theorem Interval.low_le_center : (ofRank rank).low ≤ (ofRank rank).center :=
  Nat.sub_le _ _

theorem Interval.center_add_two_le_high : (ofRank rank).center + 2 ≤ (ofRank rank).high := by
  have hunit := Nat.two_pow_pos (scale rank)
  show 4 * significand rank * 2 ^ scale rank + 2 ≤
    4 * significand rank * 2 ^ scale rank + 2 * 2 ^ scale rank
  omega

/-- The finite numbers lie below `2 ^ 1024`, which has 309 digits. -/
theorem Interval.high_lt (h : rank < infiniteRank) :
    (ofRank rank).high < 10 ^ (309 : Nat) * one := by
  have hm : 4 * significand rank + 2 < 2 ^ (55 : Nat) := by
    have := significand_lt rank
    simp only [binade] at this
    omega
  have hscale : 55 + scale rank ≤ 2100 := by
    have := scale_lt h
    omega
  have hpow := Nat.pow_le_pow_right (n := 2) (by decide) hscale
  calc (ofRank rank).high
      = (4 * significand rank + 2) * 2 ^ scale rank := by rw [Nat.add_mul]; rfl
    _ < 2 ^ (55 : Nat) * 2 ^ scale rank := Nat.mul_lt_mul_of_pos_right hm (Nat.two_pow_pos _)
    _ = 2 ^ (55 + scale rank) := (Nat.pow_add 2 55 _).symm
    _ ≤ 2 ^ (2100 : Nat) := hpow
    _ < 10 ^ (309 : Nat) * one := by decide +kernel

/-! ### The search for the shortest decimal -/

namespace Interval

theorem one_pos : 0 < one := by decide +kernel

variable {i : Interval} {e : Int} {n : Nat}

theorem contains_of_lt {value den : Nat} (hlow : i.low * den < value)
    (hhigh : value < i.high * den) : i.contains value den = true := by
  unfold contains
  split <;> simp <;> omega

theorem contains_of_multiple? (h : i.multiple? tie e = some n) :
    i.contains (n * (one * 10 ^ e.toNat)) (10 ^ (-e).toNat) = true := by
  unfold multiple? at h
  generalize one * 10 ^ e.toNat = step at *
  generalize 10 ^ (-e).toNat = den at *
  dsimp only at h
  generalize i.center * den / step = down at *
  split at h
  · cases h
  · cases h
    assumption
  · cases h
    assumption
  · -- Both neighbours lie in the interval, and one of them is taken.
    have hchoice : n = down ∨ n = down + 1 := by grind
    rcases hchoice with rfl | rfl <;> assumption

/-- A power of ten that is small enough has a multiple in the interval: the one just
above the number. -/
theorem multiple?_ne_none (hlow : i.low ≤ i.center) (hhigh : i.center + 2 ≤ i.high)
    (hstep : one * 10 ^ e.toNat < 2 * 10 ^ (-e).toNat) : i.multiple? tie e ≠ none := by
  have hpow : 0 < 10 ^ e.toNat := Nat.pow_pos (by decide)
  have hstep_pos := Nat.mul_pos one_pos hpow
  unfold multiple?
  generalize one * 10 ^ e.toNat = step at *
  generalize 10 ^ (-e).toNat = den at *
  have hup : i.contains ((i.center * den / step + 1) * step) den = true := by
    have hdown := Nat.div_mul_le_self (i.center * den) step
    have habove := Nat.lt_mul_div_succ (i.center * den) hstep_pos
    have hlow := Nat.mul_le_mul_right den hlow
    have hhigh := Nat.mul_le_mul_right den hhigh
    rw [Nat.mul_comm step] at habove
    rw [Nat.add_mul] at hhigh
    refine contains_of_lt (by omega) ?_
    rw [Nat.add_mul, Nat.one_mul]
    omega
  intro hnone
  dsimp only at hnone
  rw [hup] at hnone
  grind

end Interval

theorem Interval.one_lt : one < 10 ^ (330 : Nat) := by decide +kernel

theorem decimalLength_le_iff {n k : Nat} (hk : 0 < k) : decimalLength n ≤ k ↔ n < 10 ^ k :=
  Nat.length_toDigits_le_iff (by decide) hk

theorem Interval.le_topExponent (i : Interval) : -329 ≤ i.topExponent := by
  unfold topExponent
  split
  · omega
  · have hquot := Nat.lt_of_le_of_lt (Nat.div_le_self one i.high) one_lt
    have := (decimalLength_le_iff (by decide)).2 hquot
    omega

/-- The search ends with a decimal of the interval. -/
theorem contains_shortest (tie : Tie) (rank : Nat) :
    let d := shortest tie rank
    (Interval.ofRank rank).contains (d.digits * (Interval.one * 10 ^ d.exponent.toNat))
      (10 ^ (-d.exponent).toNat) = true ∧ -330 ≤ d.exponent := by
  have htop := (Interval.ofRank rank).le_topExponent
  unfold shortest
  dsimp only
  generalize (Interval.ofRank rank).topExponent = top at *
  cases hfound : (List.range (top + 331).toNat).findSome? fun n : Nat =>
      ((Interval.ofRank rank).multiple? tie (top - n)).map (Decimal.mk · (top - n)) with
  | none =>
    -- The last exponent of the search cannot fail.
    have hlast := List.findSome?_eq_none_iff.1 hfound (top + 330).toNat
      (List.mem_range.2 (by omega))
    rw [show top - ((top + 330).toNat : Int) = -330 by omega, Option.map_eq_none_iff] at hlast
    refine absurd hlast (Interval.multiple?_ne_none Interval.low_le_center
      Interval.center_add_two_le_high ?_)
    decide +kernel
  | some d =>
    obtain ⟨n, hn, hd⟩ := List.exists_of_findSome?_eq_some hfound
    obtain ⟨digits, hdigits, rfl⟩ := Option.map_eq_some_iff.1 hd
    have := List.mem_range.1 hn
    have hcontains := Interval.contains_of_multiple? hdigits
    refine ⟨hcontains, ?_⟩
    show -330 ≤ top - (n : Int)
    omega

/-! ### Reading a decimal -/

/-- What lies in an interval that ends before a number is less than that number. -/
theorem Interval.lt_of_contains {i : Interval} {value den bound : Nat} (hden : 0 < den)
    (hhigh : i.high < bound * one) (h : i.contains (value * one) den = true) :
    value < bound * den := by
  obtain ⟨-, hle, -⟩ := bounds_of_contains h
  have hlt := Nat.lt_of_le_of_lt hle (Nat.mul_lt_mul_of_pos_right hhigh hden)
  rw [Nat.mul_right_comm] at hlt
  exact Nat.lt_of_mul_lt_mul_right hlt

/-- A decimal in the interval of a number is not beyond the finite numbers. -/
theorem decimalLength_le_of_contains {digits places : Nat} (hfinite : rank < infiniteRank)
    (h : (Interval.ofRank rank).contains (digits * Interval.one) (10 ^ places) = true) :
    decimalLength digits ≤ 309 + places := by
  have hpow : 0 < 10 ^ places := Nat.pow_pos (by decide)
  have hlt := Interval.lt_of_contains hpow (Interval.high_lt hfinite) h
  rw [← Nat.pow_add 10 309 places] at hlt
  exact (decimalLength_le_iff (by omega)).2 hlt

/-- A decimal in the interval of a finite number reads as that number. -/
theorem ofDecimal_of_contains {digits places : Nat} (negative : Bool) (hpos : 0 < rank)
    (hfinite : rank < infiniteRank) (hplaces : places ≤ 330)
    (h : (Interval.ofRank rank).contains (digits * Interval.one) (10 ^ places) = true) :
    ofDecimal negative digits (-(places : Int)) = ⟨negative, rank⟩ := by
  have hnearest := nearestRank_of_contains hpos hfinite (Nat.pow_pos (by decide)) h
  have hlength := decimalLength_le_of_contains hfinite h
  have hdigits : digits ≠ 0 := by
    intro hzero
    obtain ⟨hle, -, -⟩ := Interval.bounds_of_contains h
    have := Nat.mul_pos (Interval.low_pos hpos) (Nat.pow_pos (n := places) (show 0 < 10 by decide))
    rw [hzero, Nat.zero_mul] at hle
    omega
  unfold ofDecimal
  dsimp only
  rw [if_neg (by omega), if_neg (by omega)]
  split
  · -- A place count of zero.
    obtain rfl : places = 0 := by omega
    simpa using hnearest
  · simpa using hnearest

/-! ### Reading a written decimal -/

theorem digitsValue_append (cs ds : List Char) :
    digitsValue (cs ++ ds) = Nat.ofDigitChars 10 ds (digitsValue cs) :=
  Nat.ofDigitChars_append 0

/-- In place, a decimal is a run of digits, or two with a point between. All digits
together, and how many follow the point, tell the decimal. -/
theorem Decimal.positional_eq (d : Decimal) :
    ∃ whole fraction, (d.positional false).toList =
        whole ++ (if fraction = [] then [] else '.' :: fraction) ∧
      whole ≠ [] ∧ (∀ c ∈ whole, c.isDigit = true) ∧ (∀ c ∈ fraction, c.isDigit = true) ∧
      digitsValue (whole ++ fraction) = d.digits * 10 ^ d.exponent.toNat ∧
      fraction.length = (-d.exponent).toNat := by
  have hdigit : ∀ c ∈ Nat.toDigits 10 d.digits, c.isDigit = true := fun c hc =>
    Nat.isDigit_of_mem_toDigits (by decide) (by decide) hc
  have hvalue : digitsValue (Nat.toDigits 10 d.digits) = d.digits := Nat.ofDigitChars_ten_toDigits
  have hne : Nat.toDigits 10 d.digits ≠ [] := Nat.toDigits_ne_nil
  have hzeros : ∀ n, ∀ c ∈ List.replicate n '0', c.isDigit = true := by
    intro n c hc
    rw [List.eq_of_mem_replicate hc]
    decide
  unfold Decimal.positional
  generalize Nat.toDigits 10 d.digits = digits at *
  dsimp only
  by_cases hwhole : 0 ≤ d.exponent
  · refine ⟨digits ++ List.replicate d.exponent.toNat '0', [], ?_, by simp [hne], ?_, by simp, ?_,
      by simp; omega⟩
    · simp [hwhole]
    · intro c hc
      exact (List.mem_append.1 hc).elim (hdigit c) (hzeros _ c)
    · rw [List.append_nil, digitsValue_append, hvalue, Nat.ofDigitChars_replicate_zero,
        Nat.mul_comm]
  · have hexp : d.exponent.toNat = 0 := by omega
    have hlen := List.length_pos_iff.2 hne
    by_cases hinside : 0 < digits.length + d.exponent
    · -- The point stands between two of the digits.
      refine ⟨digits.take (digits.length + d.exponent).toNat,
        digits.drop (digits.length + d.exponent).toNat, ?_, ?_, ?_, ?_, ?_, ?_⟩
      · rw [if_neg hwhole, if_pos hinside, if_neg (by simp; omega), String.toList_ofList]
      · simp [hne]
        omega
      · exact fun c hc => hdigit c (List.mem_of_mem_take hc)
      · exact fun c hc => hdigit c (List.mem_of_mem_drop hc)
      · rw [List.take_append_drop, hvalue, hexp, Nat.pow_zero, Nat.mul_one]
      · rw [List.length_drop]
        omega
    · -- The point stands before all of them.
      refine ⟨['0'], List.replicate (-(digits.length + d.exponent)).toNat '0' ++ digits,
        ?_, by simp, List.all_eq_true.1 rfl, ?_, ?_, ?_⟩
      · rw [if_neg hwhole, if_neg hinside, if_neg (by simp [hne]), String.toList_ofList]
        rfl
      · intro c hc
        exact (List.mem_append.1 hc).elim (hzeros _ c) (hdigit c)
      · rw [← List.append_assoc, digitsValue_append, digitsValue_append,
          Nat.ofDigitChars_replicate_zero, hexp, Nat.pow_zero, Nat.mul_one]
        exact hvalue
      · simp
        omega

theorem span_digits {cs : List Char} (h : ∀ c ∈ cs, c.isDigit = true) :
    cs.takeWhile Char.isDigit = cs ∧ cs.dropWhile Char.isDigit = [] := by
  induction cs with
  | nil => exact ⟨rfl, rfl⟩
  | cons c cs ih =>
    obtain ⟨hc, hcs⟩ := List.forall_mem_cons.1 h
    simp [hc, ih hcs]

theorem readFinite?_digits (negative : Bool) {whole fraction : List Char} (hne : whole ≠ [])
    (hwhole : ∀ c ∈ whole, c.isDigit = true) (hfraction : ∀ c ∈ fraction, c.isDigit = true) :
    readFinite? negative (whole ++ (if fraction = [] then [] else '.' :: fraction)) =
      some (ofDecimal negative (digitsValue (whole ++ fraction)) (-(fraction.length : Int))) := by
  obtain ⟨htake, hdrop⟩ := span_digits hwhole
  unfold readFinite?
  by_cases hnil : fraction = []
  · subst hnil
    simp [htake, hdrop, takeFraction, hne, readExponent?]
  · obtain ⟨htake', hdrop'⟩ := span_digits hfraction
    rw [if_neg hnil, List.takeWhile_append_of_pos hwhole, List.dropWhile_append_of_pos hwhole]
    simp [takeFraction, hne, htake', hdrop', readExponent?]

/-- A text that has a digit after its sign is no word. -/
theorem ofText?_of_takeSign {text : String} {negative : Bool} {c : Char} {cs : List Char}
    (h : takeSign text.toList = (negative, c :: cs)) (hdigit : c.isDigit = true) :
    ofText? text = readFinite? negative (c :: cs) := by
  have hlower : c.toLower = c := by
    simp only [Char.isDigit, Bool.and_eq_true, decide_eq_true_eq] at hdigit
    unfold Char.toLower
    rw [dif_neg]
    intro hupper
    exact absurd (Nat.le_trans (UInt32.le_iff_toNat_le.1 hupper.1)
      (UInt32.le_iff_toNat_le.1 hdigit.2)) (by decide)
  have hword : ∀ d ds, d.isDigit = false →
      String.ofList ((c :: cs).map Char.toLower) ≠ String.ofList (d :: ds) := by
    intro d ds hd heq
    rw [String.ofList_inj, List.map_cons, hlower] at heq
    cases heq
    rw [hdigit] at hd
    cases hd
  have hinf := hword 'i' ['n', 'f'] rfl
  have hinfinity := hword 'i' ['n', 'f', 'i', 'n', 'i', 't', 'y'] rfl
  have hnan := hword 'n' ['a', 'n'] rfl
  unfold ofText?
  rw [h]
  dsimp only
  rw [if_neg (not_or.2 ⟨hinf, hinfinity⟩), if_neg hnan]

theorem takeSign_of_isDigit {c : Char} (hdigit : c.isDigit = true) (cs : List Char) :
    takeSign (c :: cs) = (false, c :: cs) := by
  unfold takeSign
  split
  · rename_i heq
    cases heq
    cases hdigit
  · rename_i heq
    cases heq
    cases hdigit
  · rfl

/-- A text that begins with a digit is neither signed nor a word. -/
theorem ofText?_of_isDigit {text : String} {c : Char} {cs : List Char}
    (h : text.toList = c :: cs) (hdigit : c.isDigit = true) :
    ofText? text = readFinite? false text.toList := by
  rw [h]
  apply ofText?_of_takeSign _ hdigit
  rw [h]
  exact takeSign_of_isDigit hdigit cs

/-- The shortest decimal of a number, written in place, reads as that number. -/
theorem ofText?_positional_shortest (tie : Tie) (hpos : 0 < rank) (hfinite : rank < infiniteRank) :
    ofText? ((shortest tie rank).positional false) = some ⟨false, rank⟩ := by
  obtain ⟨hcontains, hexponent⟩ := contains_shortest tie rank
  obtain ⟨whole, fraction, htext, hne, hwhole, hfraction, hvalue, hplaces⟩ :=
    (shortest tie rank).positional_eq
  obtain ⟨c, cs, hcs⟩ := List.exists_cons_of_ne_nil hne
  rw [ofText?_of_isDigit (by rw [htext, hcs]; rfl) (hwhole c (by simp [hcs])), htext,
    readFinite?_digits false hne hwhole hfraction, hvalue, hplaces]
  refine congrArg some (ofDecimal_of_contains false hpos hfinite (by omega) ?_)
  rw [Nat.mul_assoc, Nat.mul_comm (10 ^ _) Interval.one]
  exact hcontains

end ClassScript.Binary64

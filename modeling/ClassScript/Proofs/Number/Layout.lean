import ClassScript.Proofs.Number.ReadBack

/-!
# Numbers read back in every layout

However a layout writes a finite number, in place or with an exponent, with a point or
without, the text reads as that number (`ofText?_format`).

The text of a magnitude is a `Numeral`: digits, maybe a point and more digits, maybe an
exponent. A numeral reads as the decimal that its parts spell (`Numeral.readFinite?_text`),
so what is left is that this decimal is the shortest one of the number.
-/

namespace ClassScript.Binary64

attribute [local instance (high)] instPowNat

variable {rank : Nat}

/-! ### Decimals of a number -/

/-- A fraction may be expanded. -/
theorem Interval.contains_mul {i : Interval} {k : Nat} (hk : 0 < k) (value den : Nat) :
    i.contains (value * k) (den * k) = i.contains value den := by
  unfold contains
  rw [← Nat.mul_assoc, ← Nat.mul_assoc]
  simp only [Nat.mul_le_mul_right_iff hk, Nat.mul_lt_mul_right hk]

/-- Zeros at the end count as digits. -/
theorem decimalLength_add_le {digits zeros bound : Nat} (hdigits : 0 < digits) (hbound : 0 < bound)
    (h : decimalLength (digits * 10 ^ zeros) ≤ bound) : decimalLength digits + zeros ≤ bound := by
  have hlt := (decimalLength_le_iff hbound).1 h
  have hzeros : zeros < bound := by
    have hpow := Nat.le_mul_of_pos_left (10 ^ zeros) hdigits
    exact (Nat.pow_lt_pow_iff_right (by decide)).1 (Nat.lt_of_le_of_lt hpow hlt)
  have hlength : decimalLength digits ≤ bound - zeros := by
    apply (decimalLength_le_iff (by omega)).2
    apply Nat.lt_of_mul_lt_mul_right (a := 10 ^ zeros)
    rwa [← Nat.pow_add, Nat.sub_add_cancel (Nat.le_of_lt hzeros)]
  omega

/-- The decimal lies in the interval of a finite number. -/
structure Decimal.Denotes (d : Decimal) (rank : Nat) : Prop where
  pos : 0 < rank
  finite : rank < infiniteRank
  contains : (Interval.ofRank rank).contains (d.digits * (Interval.one * 10 ^ d.exponent.toNat))
    (10 ^ (-d.exponent).toNat) = true
  exponent : -330 ≤ d.exponent

/-- The shortest digits were chosen from the interval. -/
theorem denotes_shortest (tie : Tie) (hpos : 0 < rank) (hfinite : rank < infiniteRank) :
    (shortest tie rank).Denotes rank := by
  obtain ⟨hcontains, hexponent⟩ := contains_shortest tie rank
  exact ⟨hpos, hfinite, hcontains, hexponent⟩

namespace Decimal.Denotes

variable {d : Decimal} (h : d.Denotes rank)

include h

/-- A decimal may be written with more places than it needs. -/
theorem ofDecimal_places (negative : Bool) {places : Nat} (hplaces : places ≤ 330)
    (hwhole : 0 ≤ d.exponent + places) :
    ofDecimal negative (d.digits * 10 ^ (d.exponent + places).toNat) (-(places : Int)) =
      ⟨negative, rank⟩ := by
  obtain ⟨more, hmore⟩ : ∃ more, places = (-d.exponent).toNat + more :=
    ⟨places - (-d.exponent).toNat, by omega⟩
  have hdigits : (d.exponent + places).toNat = d.exponent.toNat + more := by omega
  have hscaled : d.digits * 10 ^ (d.exponent + places).toNat * Interval.one =
      d.digits * (Interval.one * 10 ^ d.exponent.toNat) * 10 ^ more := by
    rw [hdigits, Nat.pow_add]
    generalize Interval.one = one
    ac_rfl
  apply ofDecimal_of_contains negative h.pos h.finite hplaces
  rw [hscaled, hmore, Nat.pow_add, Interval.contains_mul (Nat.pow_pos (by decide))]
  exact h.contains

/-- The interval of a number other than zero does not reach down to zero. -/
theorem digits_pos : 0 < d.digits := by
  obtain ⟨hle, -, -⟩ := Interval.bounds_of_contains h.contains
  have hlow := Nat.mul_pos (Interval.low_pos h.pos)
    (Nat.pow_pos (n := (-d.exponent).toNat) (show 0 < 10 by decide))
  exact Nat.pos_of_mul_pos_right (Nat.lt_of_lt_of_le hlow hle)

/-- Without places behind the point, the decimal is a whole number. -/
theorem contains_whole (hwhole : 0 ≤ d.exponent) :
    (Interval.ofRank rank).contains (d.digits * 10 ^ d.exponent.toNat * Interval.one)
      (10 ^ (0 : Nat)) = true := by
  rw [Nat.mul_assoc, Nat.mul_comm (10 ^ _), ← show (-d.exponent).toNat = 0 by omega]
  exact h.contains

/-- A whole decimal is not beyond the finite numbers. -/
theorem length_le (hwhole : 0 ≤ d.exponent) : decimalLength d.digits + d.exponent ≤ 309 := by
  have hlength := decimalLength_le_of_contains h.finite (h.contains_whole hwhole)
  have hzeros := decimalLength_add_le h.digits_pos (by decide) hlength
  omega

/-- A decimal in the interval of a number is read as that number. -/
theorem ofDecimal_eq (negative : Bool) :
    ofDecimal negative d.digits d.exponent = ⟨negative, rank⟩ := by
  by_cases hwhole : 0 ≤ d.exponent
  · have hpos := h.digits_pos
    have hlength := h.length_le hwhole
    have hnearest :=
      nearestRank_of_contains h.pos h.finite (by decide) (h.contains_whole hwhole)
    unfold ofDecimal
    dsimp only
    rw [if_neg (by omega), if_neg (by omega), if_pos hwhole]
    exact congrArg _ hnearest
  · have hplaces : (-d.exponent).toNat ≤ 330 := by
      have := h.exponent
      omega
    have hread := h.ofDecimal_places negative hplaces (by omega)
    rw [show (d.exponent + (-d.exponent).toNat).toNat = 0 by omega,
      show -((-d.exponent).toNat : Int) = d.exponent by omega] at hread
    simpa using hread

end Decimal.Denotes

/-! ### Numerals -/

/-- The parts of a written number. -/
structure Numeral where
  whole : List Char
  fraction : List Char
  exponent : Option Int
  whole_ne_nil : whole ≠ []
  isDigit_whole : ∀ c ∈ whole, c.isDigit = true
  isDigit_fraction : ∀ c ∈ fraction, c.isDigit = true

namespace Numeral

/-- An exponent always has a sign. -/
def exponentText (e : Int) : List Char :=
  'e' :: (if e < 0 then '-' else '+') :: Nat.toDigits 10 e.natAbs

/-- The text of a numeral. -/
def text (n : Numeral) : List Char :=
  n.whole ++ (if n.fraction = [] then [] else '.' :: n.fraction) ++
    n.exponent.elim [] exponentText

/-- The number nearest to the decimal that a numeral spells. -/
def value (n : Numeral) (negative : Bool) : Binary64 :=
  ofDecimal negative (digitsValue (n.whole ++ n.fraction))
    (n.exponent.getD 0 - n.fraction.length)

theorem digitsValue_toDigits (n : Nat) : digitsValue (Nat.toDigits 10 n) = n :=
  Nat.ofDigitChars_ten_toDigits

theorem isDigit_toDigits (n : Nat) : ∀ c ∈ Nat.toDigits 10 n, c.isDigit = true := by
  intro c hc
  exact Nat.isDigit_of_mem_toDigits (by decide) (by decide) hc

/-- A sign and digits are read back. -/
theorem readExponent?_exponentText (e : Int) : readExponent? (exponentText e) = some e := by
  unfold exponentText readExponent?
  generalize hn : e.natAbs = n
  have hall : (Nat.toDigits 10 n).all Char.isDigit = true :=
    List.all_eq_true.2 (isDigit_toDigits n)
  by_cases he : e < 0
  · simp [he, takeSign, hall, digitsValue_toDigits, Nat.toDigits_ne_nil]
    omega
  · simp [he, takeSign, hall, digitsValue_toDigits, Nat.toDigits_ne_nil]
    omega

theorem readExponent?_elim (e? : Option Int) :
    readExponent? (e?.elim [] exponentText) = some (e?.getD 0) := by
  cases e? with
  | none => rfl
  | some e => exact readExponent?_exponentText e

/-- Digits end where the exponent begins. -/
theorem span_append {cs : List Char} (h : ∀ c ∈ cs, c.isDigit = true) (e? : Option Int) :
    (cs ++ e?.elim [] exponentText).takeWhile Char.isDigit = cs ∧
      (cs ++ e?.elim [] exponentText).dropWhile Char.isDigit = e?.elim [] exponentText := by
  rw [List.takeWhile_append_of_pos h, List.dropWhile_append_of_pos h]
  cases e? with
  | none => simp
  | some e => simp [exponentText]

/-- Without a point there is no fraction. -/
theorem takeFraction_elim (e? : Option Int) :
    takeFraction (e?.elim [] exponentText) = ([], e?.elim [] exponentText) := by
  cases e? with
  | none => rfl
  | some e => rfl

/-- A numeral reads as the decimal that it spells. -/
theorem readFinite?_text (n : Numeral) (negative : Bool) :
    readFinite? negative n.text = some (n.value negative) := by
  obtain ⟨whole, fraction, exponent, hne, hwhole, hfraction⟩ := n
  unfold readFinite? text value
  by_cases hnil : fraction = []
  · obtain ⟨htake, hdrop⟩ := span_append hwhole exponent
    simp [hnil, htake, hdrop, takeFraction_elim, readExponent?_elim, hne]
  · obtain ⟨htake, hdrop⟩ := span_append hfraction exponent
    rw [if_neg hnil, List.append_assoc, List.takeWhile_append_of_pos hwhole,
      List.dropWhile_append_of_pos hwhole]
    simp [takeFraction, htake, hdrop, readExponent?_elim, hne]

/-- A numeral begins with a digit. -/
theorem exists_text_eq (n : Numeral) : ∃ c cs, n.text = c :: cs ∧ c.isDigit = true := by
  obtain ⟨c, cs, hcs⟩ := List.exists_cons_of_ne_nil n.whole_ne_nil
  refine ⟨c, cs ++ (if n.fraction = [] then [] else '.' :: n.fraction) ++
    n.exponent.elim [] exponentText, ?_, n.isDigit_whole c (by simp [hcs])⟩
  rw [text, hcs]
  rfl

theorem mem_text {n : Numeral} {c : Char} (hc : c ∈ n.text) :
    c.isDigit = true ∨ c ∈ ['.', 'e', '+', '-'] := by
  rcases List.mem_append.1 hc with hc | hc
  · rcases List.mem_append.1 hc with hc | hc
    · exact .inl (n.isDigit_whole c hc)
    · split at hc
      · cases hc
      · rcases List.mem_cons.1 hc with rfl | hc
        · exact .inr (by decide)
        · exact .inl (n.isDigit_fraction c hc)
  · cases he : n.exponent with
    | none =>
      rw [he] at hc
      cases hc
    | some e =>
      rw [he] at hc
      rcases List.mem_cons.1 hc with rfl | hc
      · exact .inr (by decide)
      · rcases List.mem_cons.1 hc with rfl | hc
        · split <;> exact .inr (by decide)
        · exact .inl (isDigit_toDigits _ c hc)

/-- A numeral with a point or an exponent is not made of digits only. -/
theorem exists_mem_text {n : Numeral} (h : n.fraction ≠ [] ∨ n.exponent ≠ none) :
    ∃ c ∈ n.text, c.isDigit = false := by
  unfold text
  rcases h with h | h
  · exact ⟨'.', by simp [h], by decide⟩
  · obtain ⟨e, he⟩ := Option.ne_none_iff_exists'.1 h
    exact ⟨'e', by simp [he, exponentText], by decide⟩

end Numeral

/-! ### Writing -/

/-- The numeral is a text of the number. -/
structure Numeral.Writes (n : Numeral) (text : String) (rank : Nat) : Prop where
  text_eq : text.toList = n.text
  value_eq : ∀ negative, n.value negative = ⟨negative, rank⟩

theorem Decimal.positional_of_places {d : Decimal} (h : d.exponent < 0) (keepPoint : Bool) :
    d.positional keepPoint = d.positional false := by
  have hplaces : ¬0 ≤ d.exponent := by omega
  simp [positional, hplaces]

/-- A whole number gets a point only on request. -/
theorem Decimal.positional_of_whole {d : Decimal} (h : 0 ≤ d.exponent) :
    (d.positional true).toList = (d.positional false).toList ++ ['.', '0'] := by
  simp [positional, h]

/-- A decimal that is written in place is a numeral, with a fraction if it has places. -/
theorem exists_writes_inPlace {d : Decimal} (h : d.Denotes rank) :
    ∃ n : Numeral, n.Writes (d.positional false) rank ∧ (d.exponent < 0 → n.fraction ≠ []) := by
  obtain ⟨whole, fraction, htext, hne, hwhole, hfraction, hvalue, hplaces⟩ := d.positional_eq
  refine ⟨⟨whole, fraction, none, hne, hwhole, hfraction⟩, ⟨?_, ?_⟩, ?_⟩
  · rw [htext]
    simp [Numeral.text]
  · intro negative
    have hexponent := h.exponent
    have hread := h.ofDecimal_places negative (show (-d.exponent).toNat ≤ 330 by omega) (by omega)
    rw [show (d.exponent + (-d.exponent).toNat).toNat = d.exponent.toNat by omega, ← hvalue,
      ← hplaces] at hread
    simpa [Numeral.value] using hread
  · intro hneg hnil
    have hlength := congrArg List.length hnil
    rw [hplaces, List.length_nil] at hlength
    omega

/-- A whole number with a point and a zero after it. -/
theorem exists_writes_point {d : Decimal} (h : d.Denotes rank) (he : 0 ≤ d.exponent) :
    ∃ n : Numeral, n.Writes (d.positional true) rank ∧ n.fraction ≠ [] := by
  obtain ⟨whole, fraction, htext, hne, hwhole, -, hvalue, hplaces⟩ := d.positional_eq
  obtain rfl : fraction = [] := List.length_eq_zero_iff.1 (by omega)
  rw [if_pos rfl] at htext
  rw [List.append_nil] at htext hvalue
  refine ⟨⟨whole, ['0'], none, hne, hwhole, by simp⟩, ⟨?_, ?_⟩, by simp⟩
  · rw [Decimal.positional_of_whole he, htext]
    simp [Numeral.text]
  · intro negative
    have hten : digitsValue (whole ++ ['0']) = d.digits * 10 ^ (d.exponent + (1 : Nat)).toNat := by
      rw [digitsValue_append, hvalue,
        show (d.exponent + (1 : Nat)).toNat = d.exponent.toNat + 1 by omega, Nat.pow_succ,
        ← Nat.mul_assoc, Nat.mul_comm _ 10]
      rfl
    have hread := h.ofDecimal_places negative (show 1 ≤ 330 by decide) (by omega)
    rw [← hten] at hread
    exact hread

theorem exists_writes_positional {d : Decimal} (h : d.Denotes rank) (keepPoint : Bool) :
    ∃ n : Numeral, n.Writes (d.positional keepPoint) rank ∧
      (keepPoint = true → n.fraction ≠ []) := by
  obtain ⟨n, hn, hfraction⟩ := exists_writes_inPlace h
  cases keepPoint with
  | false => exact ⟨n, hn, nofun⟩
  | true =>
    by_cases he : 0 ≤ d.exponent
    · obtain ⟨n, hn, hfraction⟩ := exists_writes_point h he
      exact ⟨n, hn, fun _ => hfraction⟩
    · have hneg : d.exponent < 0 := by omega
      rw [Decimal.positional_of_places hneg]
      exact ⟨n, hn, fun _ => hfraction hneg⟩

/-- One that is written with an exponent is a numeral too. -/
theorem exists_writes_scientific {d : Decimal} (h : d.Denotes rank) :
    ∃ n : Numeral, n.Writes d.scientific rank ∧ n.exponent ≠ none := by
  obtain ⟨c, cs, hdigits⟩ :=
    List.exists_cons_of_ne_nil (Nat.toDigits_ne_nil (b := 10) (n := d.digits))
  have hall := Numeral.isDigit_toDigits d.digits
  have hvalue := Numeral.digitsValue_toDigits d.digits
  rw [hdigits] at hall hvalue
  obtain ⟨hc, hcs⟩ := List.forall_mem_cons.1 hall
  refine ⟨⟨[c], cs, some (d.exponent + cs.length), by simp, by simpa using hc, hcs⟩, ⟨?_, ?_⟩,
    by simp⟩
  · have hexponent : d.exponent + (c :: cs).length - 1 = d.exponent + cs.length := by
      rw [List.length_cons]
      omega
    unfold Decimal.scientific Numeral.text
    rw [hdigits]
    dsimp only
    rw [hexponent]
    generalize d.exponent + (cs.length : Int) = e
    have hsign : (if e < 0 then "-" else "+").toList = [if e < 0 then '-' else '+'] := by
      split <;> rfl
    simp [Numeral.exponentText, hsign]
  · intro negative
    have hread := h.ofDecimal_eq negative
    rw [← hvalue] at hread
    simpa [Numeral.value] using hread

theorem exists_writes_zero (keepPoint : Bool) :
    ∃ n : Numeral, n.Writes (if keepPoint then "0.0" else "0") 0 ∧
      (keepPoint = true → n.fraction ≠ []) := by
  have hzero : ∀ c ∈ ['0'], c.isDigit = true := by simp
  cases keepPoint with
  | false => exact ⟨⟨['0'], [], none, nofun, hzero, nofun⟩, ⟨by rfl, fun _ => rfl⟩, nofun⟩
  | true =>
    exact ⟨⟨['0'], ['0'], none, nofun, hzero, hzero⟩, ⟨by rfl, fun _ => rfl⟩, fun _ => nofun⟩

/-- Each layout writes a numeral, behind a sign if the number is negative. -/
theorem exists_writes_format (layout : Layout) {x : Binary64} (hx : x.isFinite = true) :
    ∃ (n : Numeral) (text : String), n.Writes text x.rank ∧
      x.format layout = (if x.negative then "-" else "") ++ text ∧
      (layout.keepPoint = true → n.fraction ≠ [] ∨ n.exponent ≠ none) := by
  have hfinite : x.rank < infiniteRank := of_decide_eq_true hx
  unfold format
  dsimp only
  by_cases hzero : x.rank = 0
  · obtain ⟨n, hn, hpoint⟩ := exists_writes_zero layout.keepPoint
    rw [if_pos hzero, hzero]
    exact ⟨n, _, hn, rfl, fun hkeep => .inl (hpoint hkeep)⟩
  · have hdenotes := denotes_shortest layout.tie (Nat.pos_of_ne_zero hzero) hfinite
    generalize shortest layout.tie x.rank = d at hdenotes
    rw [if_neg hzero]
    by_cases hpositional : layout.positional (d.exponent + decimalLength d.digits - 1) = true
    · obtain ⟨n, hn, hpoint⟩ := exists_writes_positional hdenotes layout.keepPoint
      rw [if_pos hpositional]
      exact ⟨n, _, hn, rfl, fun hkeep => .inl (hpoint hkeep)⟩
    · obtain ⟨n, hn, hexponent⟩ := exists_writes_scientific hdenotes
      rw [if_neg hpositional]
      exact ⟨n, _, hn, rfl, fun _ => .inr hexponent⟩

/-- The text of a finite number is a sign and a numeral. A layout that keeps the point writes
one or an exponent. -/
theorem exists_numeral_format (layout : Layout) {x : Binary64} (hx : x.isFinite = true) :
    ∃ n : Numeral, (x.format layout).toList = (if x.negative then ['-'] else []) ++ n.text ∧
      n.value x.negative = x ∧
      (layout.keepPoint = true → n.fraction ≠ [] ∨ n.exponent ≠ none) := by
  obtain ⟨n, text, ⟨htext, hvalue⟩, hformat, hpoint⟩ := exists_writes_format layout hx
  refine ⟨n, ?_, hvalue x.negative, hpoint⟩
  rw [hformat, String.toList_append, htext]
  cases x.negative <;> rfl

/-- A finite number reads back from its text in every layout. -/
theorem ofText?_format (layout : Layout) {x : Binary64} (hx : x.isFinite = true) :
    ofText? (x.format layout) = some x := by
  obtain ⟨n, hformat, hvalue, -⟩ := exists_numeral_format layout hx
  obtain ⟨c, cs, hcs, hc⟩ := n.exists_text_eq
  have hsign : takeSign (x.format layout).toList = (x.negative, c :: cs) := by
    rw [hformat, hcs]
    cases x.negative with
    | false => exact takeSign_of_isDigit hc cs
    | true => rfl
  rw [ofText?_of_takeSign hsign hc, ← hcs, n.readFinite?_text, hvalue]

end ClassScript.Binary64

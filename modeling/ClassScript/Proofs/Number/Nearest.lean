import ClassScript.Number.Shortest

/-!
# The interval of a number reads back

`Interval.ofRank` is made of the midpoints between a number and its neighbours, and
`nearestRank` rounds a quotient at the spacing that its size asks for. The two fit
together: every quotient in the interval of a rank is rounded to that rank
(`nearestRank_of_contains`). The one place where this is not plain rounding is just
below a power of two, where the numbers lie closer together; a quotient there is
rounded in the binade below, up to its end.
-/

namespace ClassScript.Binary64

attribute [local instance (high)] instPowNat

/-! ### Rounding -/

/-- A quotient within a half of `n` is rounded to `n`. At a half, to the even one. -/
theorem roundHalfEven_eq {a b n : Nat} (hb : 0 < b) (hlow : 2 * (n * b) ≤ 2 * a + b)
    (hhigh : 2 * a ≤ 2 * (n * b) + b)
    (hodd : n % 2 = 1 → 2 * (n * b) < 2 * a + b ∧ 2 * a < 2 * (n * b) + b) :
    roundHalfEven a b = n := by
  have ha : a / b * b + a % b = a := Nat.div_add_mod' a b
  have hr : a % b < b := Nat.mod_lt a hb
  show (if 2 * (a % b) < b ∨ 2 * (a % b) = b ∧ a / b % 2 = 0 then a / b else a / b + 1) = n
  generalize a / b = q at *
  generalize a % b = r at *
  have hle : q ≤ n := by
    refine Nat.le_of_not_lt fun hgt => ?_
    have := Nat.mul_le_mul_right b (show n + 1 ≤ q from hgt)
    rw [Nat.add_mul, Nat.one_mul] at this
    omega
  have hge : n ≤ q + 1 := by
    refine Nat.le_of_not_lt fun hlt => ?_
    have := Nat.mul_le_mul_right b (show q + 2 ≤ n from hlt)
    rw [Nat.add_mul] at this
    omega
  by_cases heq : q = n
  · -- The quotient is not below `n`, so the remainder is at most a half.
    subst heq
    split <;> omega
  · -- The quotient is below `n`, so the remainder is at least a half.
    obtain rfl : n = q + 1 := by omega
    rw [Nat.add_mul, Nat.one_mul] at hlow hhigh hodd
    split <;> omega

/-! ### Ranks, significands and scales -/

theorem binade_pos : 0 < binade := by decide

theorem rank_eq (rank : Nat) : scale rank * binade + significand rank = rank := by
  have hdiv : rank / binade * binade + rank % binade = rank := Nat.div_add_mod' rank binade
  unfold scale significand
  split
  · rename_i hlt
    rw [Nat.div_eq_of_lt hlt]
    simp
  · rename_i hge
    have hpos : 0 < rank / binade := Nat.div_pos (Nat.le_of_not_lt hge) binade_pos
    obtain ⟨q, hq⟩ : ∃ q, rank / binade = q + 1 := ⟨rank / binade - 1, by omega⟩
    rw [hq, Nat.add_mul, Nat.one_mul] at hdiv
    rw [hq, Nat.add_sub_cancel]
    omega

theorem significand_lt (rank : Nat) : significand rank < 2 * binade := by
  have := Nat.mod_lt rank binade_pos
  unfold significand
  split <;> omega

theorem binade_le_significand {rank : Nat} (h : 0 < scale rank) : binade ≤ significand rank := by
  unfold significand
  split
  · rename_i hlt
    rw [scale, Nat.div_eq_of_lt hlt] at h
    omega
  · omega

theorem significand_pos {rank : Nat} (h : 0 < rank) : 0 < significand rank := by
  have := binade_pos
  unfold significand
  split <;> omega

/-! ### Rounding in a binade -/

section

variable {a d m s : Nat}

/-- The first number of the binade of scale `s`, over the denominator `d`. -/
theorem binade_mul_pow (d s : Nat) : 2 ^ (52 + s) * d = binade * (d * 2 ^ s) := by
  rw [Nat.pow_add, Nat.mul_assoc, Nat.mul_comm (2 ^ s) d]
  rfl

/-- A quotient in the binade of scale `s` or below it is rounded at most at the
spacing of that scale. -/
theorem log2_div_le (hd : 0 < d) (h : a < 2 * (binade * (d * 2 ^ s))) :
    (a / d).log2 ≤ 52 + s := by
  by_cases hzero : a / d = 0
  · rw [hzero]
    exact Nat.zero_le _
  · refine Nat.le_of_lt_succ ((Nat.log2_lt hzero).2 ?_)
    rw [Nat.div_lt_iff_lt_mul hd, Nat.pow_succ, Nat.mul_right_comm, binade_mul_pow, Nat.mul_comm]
    exact h

/-- A quotient in the binade of scale `s` or above it is rounded at least at the
spacing of that scale. -/
theorem le_log2_div (hd : 0 < d) (h : binade * (d * 2 ^ s) ≤ a) : 52 + s ≤ (a / d).log2 := by
  have hle : 2 ^ (52 + s) ≤ a / d := by
    rw [Nat.le_div_iff_mul_le hd, binade_mul_pow]
    exact h
  have hzero : a / d ≠ 0 := by
    have := Nat.two_pow_pos (52 + s)
    omega
  exact (Nat.le_log2 hzero).2 hle

/-- A quotient within half a spacing of `m * 2 ^ s`, and not below its binade. -/
theorem round_in_binade (hd : 0 < d) (hm : m < 2 * binade)
    (hbinade : s = 0 ∨ binade * (d * 2 ^ s) ≤ a)
    (hlow : 2 * (m * (d * 2 ^ s)) ≤ 2 * a + d * 2 ^ s)
    (hhigh : 2 * a ≤ 2 * (m * (d * 2 ^ s)) + d * 2 ^ s)
    (hodd : m % 2 = 1 → 2 * (m * (d * 2 ^ s)) < 2 * a + d * 2 ^ s ∧
      2 * a < 2 * (m * (d * 2 ^ s)) + d * 2 ^ s) :
    (a / d).log2 - 52 = s ∧ roundHalfEven a (d * 2 ^ s) = m := by
  have hunit : 0 < d * 2 ^ s := Nat.mul_pos hd (Nat.two_pow_pos s)
  refine ⟨?_, roundHalfEven_eq hunit hlow hhigh hodd⟩
  have hlt : a < 2 * (binade * (d * 2 ^ s)) := by
    have := Nat.mul_le_mul_right (d * 2 ^ s) (show m + 1 ≤ 2 * binade from hm)
    rw [Nat.add_mul, Nat.one_mul, Nat.mul_assoc] at this
    omega
  have hle := log2_div_le hd hlt
  rcases hbinade with rfl | hbinade
  · omega
  · have := le_log2_div hd hbinade
    omega

/-- A quotient just below the binade of scale `s + 1` is rounded up to its first
number, from the spacing of the binade below. -/
theorem round_below_binade (hd : 0 < d) (hlt : a < 2 * (binade * (d * 2 ^ s)))
    (hlow : 4 * (binade * (d * 2 ^ s)) ≤ 2 * a + d * 2 ^ s) :
    (a / d).log2 - 52 = s ∧ roundHalfEven a (d * 2 ^ s) = 2 * binade := by
  have hunit : 0 < d * 2 ^ s := Nat.mul_pos hd (Nat.two_pow_pos s)
  have hbig : d * 2 ^ s ≤ binade * (d * 2 ^ s) := Nat.le_mul_of_pos_left _ binade_pos
  refine ⟨?_, roundHalfEven_eq hunit ?_ ?_ (by omega)⟩
  · have hle := log2_div_le hd hlt
    have hge : binade * (d * 2 ^ s) ≤ a := by omega
    have := le_log2_div hd hge
    omega
  · rw [Nat.mul_assoc]
    omega
  · rw [Nat.mul_assoc]
    omega

end

/-! ### Quotients in the interval of a rank -/

theorem Interval.bounds_of_contains {i : Interval} {value den : Nat}
    (h : i.contains value den = true) :
    i.low * den ≤ value ∧ value ≤ i.high * den ∧
      (i.closed = false → i.low * den < value ∧ value < i.high * den) := by
  unfold Interval.contains at h
  split at h
  · rename_i hclosed
    simp only [Bool.and_eq_true, decide_eq_true_eq] at h
    exact ⟨h.1, h.2, fun hopen => by rw [hclosed] at hopen; cases hopen⟩
  · simp only [Bool.and_eq_true, decide_eq_true_eq] at h
    exact ⟨Nat.le_of_lt h.1, Nat.le_of_lt h.2, fun _ => h⟩

/-- The rank that a quotient is rounded to, if it lies between the midpoints around
`m * 2 ^ s`. The lower midpoint is nearer at the first number of a binade. -/
theorem rank_of_midpoints {a d m s below : Nat} (hd : 0 < d) (hm : m < 2 * binade)
    (hpos : 0 < m) (hbig : 0 < s → binade ≤ m)
    (hbelow : below = if m = binade ∧ 0 < s then 2 ^ s else 2 * 2 ^ s)
    (hlow : (4 * m * 2 ^ s - below) * d ≤ 4 * a) (hhigh : 4 * a ≤ (4 * m * 2 ^ s + 2 * 2 ^ s) * d)
    (hodd : m % 2 = 1 → (4 * m * 2 ^ s - below) * d < 4 * a ∧
      4 * a < (4 * m * 2 ^ s + 2 * 2 ^ s) * d) :
    ((a / d).log2 - 52) * binade + roundHalfEven a (d * 2 ^ ((a / d).log2 - 52)) =
      s * binade + m := by
  have hunit := Nat.two_pow_pos s
  have hle : below ≤ 2 * 2 ^ s := by
    rw [hbelow]
    split <;> omega
  -- The midpoints, multiplied out and without the subtraction.
  have hcenter : 4 * m * 2 ^ s * d = 4 * (m * (d * 2 ^ s)) := by
    rw [Nat.mul_assoc, Nat.mul_comm (2 ^ s) d, Nat.mul_assoc]
  have hhalf : 2 * 2 ^ s * d = 2 * (d * 2 ^ s) := by rw [Nat.mul_assoc, Nat.mul_comm (2 ^ s) d]
  have hsub : (4 * m * 2 ^ s - below) * d + below * d = 4 * (m * (d * 2 ^ s)) := by
    have := Nat.mul_le_mul_right (2 ^ s) (show 4 ≤ 4 * m by omega)
    rw [← Nat.add_mul, Nat.sub_add_cancel (by omega), hcenter]
  have hbelow_d : below * d ≤ 2 * (d * 2 ^ s) := by
    rw [← hhalf]
    exact Nat.mul_le_mul_right d hle
  rw [Nat.add_mul, hcenter, hhalf] at hhigh hodd
  by_cases hbinade : s = 0 ∨ binade * (d * 2 ^ s) ≤ a
  · obtain ⟨hk, hround⟩ := round_in_binade hd hm hbinade (by omega) (by omega) (by omega)
    rw [hk, hround]
  · -- Only the first number of a binade reaches below it.
    have hs : 0 < s := by omega
    have hlt : a < binade * (d * 2 ^ s) := by omega
    have hfirst : m = binade := by
      have hle := hbig hs
      refine Nat.le_antisymm (Nat.le_of_not_lt fun hgt => ?_) hle
      have hnext := Nat.mul_le_mul_right (d * 2 ^ s) (show binade + 1 ≤ m from hgt)
      rw [Nat.add_mul, Nat.one_mul] at hnext
      omega
    obtain ⟨t, rfl⟩ : ∃ t, s = t + 1 := ⟨s - 1, by omega⟩
    have hdouble : d * 2 ^ (t + 1) = 2 * (d * 2 ^ t) := by
      rw [Nat.pow_succ, ← Nat.mul_assoc, Nat.mul_comm]
    have hbinade_double : binade * (d * 2 ^ (t + 1)) = 2 * (binade * (d * 2 ^ t)) := by
      rw [hdouble, Nat.mul_left_comm]
    rw [if_pos ⟨hfirst, hs⟩] at hbelow
    rw [hfirst, hbelow, Nat.mul_comm (2 ^ (t + 1)) d, hbinade_double, hdouble] at hsub
    rw [hfirst, hbelow] at hlow
    rw [hbinade_double] at hlt
    obtain ⟨hk, hround⟩ := round_below_binade hd hlt (by omega)
    rw [hk, hround, hfirst, Nat.add_mul]
    omega

theorem Interval.one_eq : one = 4 * unitsPerOne := by decide +kernel

/-- A quotient in the interval of a finite rank is rounded to that rank. -/
theorem nearestRank_of_contains {rank num den : Nat} (hpos : 0 < rank)
    (hfinite : rank < infiniteRank) (hden : 0 < den)
    (h : (Interval.ofRank rank).contains (num * Interval.one) den = true) :
    nearestRank num den = rank := by
  obtain ⟨hlow, hhigh, hopen⟩ := Interval.bounds_of_contains h
  rw [Interval.one_eq, Nat.mul_left_comm] at hlow hhigh hopen
  have hrank := rank_of_midpoints hden (significand_lt rank) (significand_pos hpos)
    binade_le_significand rfl hlow hhigh
    (fun hodd => hopen (decide_eq_false (by omega)))
  rw [rank_eq] at hrank
  calc nearestRank num den = min infiniteRank rank := congrArg (min infiniteRank) hrank
    _ = rank := Nat.min_eq_right (Nat.le_of_lt hfinite)

end ClassScript.Binary64

import ClassScript.Number.Binary64

/-!
# Shortest decimals

The decimal that stands for a number is the one with the fewest digits among
those that read back as this number, and the nearest of these. The values that
read back form an interval around the number, so the search asks for the
largest power of ten of which a multiple lies in the interval; only the two
multiples next to the number matter.
-/

namespace ClassScript.Binary64

attribute [local instance (high)] instPowNat

/-- Which of two decimals to take when the number lies half way between. -/
inductive Tie where
  | up
  | even
deriving DecidableEq

/-- The decimal `digits * 10 ^ exponent`. -/
structure Decimal where
  digits : Nat
  exponent : Int
deriving DecidableEq, Inhabited

/-- A number and the ends of the interval that reads back as it, in units of
`2 ^ -1076`. The ends themselves belong to the interval if `closed`. -/
structure Interval where
  low : Nat
  center : Nat
  high : Nat
  closed : Bool
deriving DecidableEq

/-- The number one in the units of an interval. -/
def Interval.one : Nat := 2 ^ (1076 : Nat)

/-- The interval of the number of a rank. It reaches half way to both
neighbours; below the first number of a binade the neighbour is nearer. -/
def Interval.ofRank (rank : Nat) : Interval :=
  let m := significand rank
  let unit := 2 ^ scale rank
  let below := if m = binade ∧ 0 < scale rank then unit else 2 * unit
  ⟨4 * m * unit - below, 4 * m * unit, 4 * m * unit + 2 * unit, m % 2 = 0⟩

/-- Does `value / den` lie in the interval? -/
def Interval.contains (i : Interval) (value den : Nat) : Bool :=
  if i.closed then i.low * den ≤ value && value ≤ i.high * den
  else i.low * den < value && value < i.high * den

/-- The multiple of `10 ^ exponent` in the interval that is nearest to the
number, as a factor of `10 ^ exponent`. -/
def Interval.multiple? (i : Interval) (tie : Tie) (exponent : Int) : Option Nat :=
  -- In the units of the interval, the power of ten is `step / den`.
  let step := one * 10 ^ exponent.toNat
  let den := 10 ^ (-exponent).toNat
  let down := i.center * den / step
  let up := down + 1
  match i.contains (down * step) den, i.contains (up * step) den with
  | false, false => none
  | true, false => some down
  | false, true => some up
  | true, true =>
    let twice := 2 * (i.center * den)
    let middle := (down + up) * step
    if twice < middle then some down
    else if middle < twice then some up
    else match tie with
      | .up => some up
      | .even => some (if down % 2 = 0 then down else up)

/-- The exponent of the largest power of ten that is not beyond the interval. -/
def Interval.topExponent (i : Interval) : Int :=
  if one ≤ i.high then decimalLength (i.high / one) - 1
  else 1 - decimalLength (one / i.high)

/-- The shortest decimal of the number of a finite rank. At the exponent `-330`
the multiples lie closer than any two numbers, so the search ends there. -/
def shortest (tie : Tie) (rank : Nat) : Decimal :=
  let interval := Interval.ofRank rank
  let top := interval.topExponent
  ((List.range (top + 331).toNat).findSome? fun (n : Nat) =>
    let exponent : Int := top - (n : Int)
    (interval.multiple? tie exponent).map (⟨·, exponent⟩)).getD default

end ClassScript.Binary64

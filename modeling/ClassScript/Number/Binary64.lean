/-!
# Double-precision numbers

The non-negative double-precision numbers are `0`, then the multiples of
`2 ^ -1074` up to `2 ^ 52` of them, then in each following binade `2 ^ 52`
numbers at twice the spacing of the one before, and last infinity. A number is
kept as its `rank` in that list, together with a sign, so equality of numbers is
equality of ranks and a larger rank is a larger magnitude. Ranks beyond the one
of infinity stand for results that are no number.

All arithmetic on the values is exact arithmetic on natural numbers.
-/

namespace ClassScript

-- Powers are those of the core library, also where other modules bring the ones of a monoid.
attribute [local instance (high)] instPowNat

/-- A double-precision number. -/
structure Binary64 where
  negative : Bool
  rank : Nat
deriving DecidableEq, Inhabited

namespace Binary64

/-- How many numbers a binade has. -/
def binade : Nat := 2 ^ (52 : Nat)

/-- The rank of infinity. -/
def infiniteRank : Nat := 2047 * binade

/-- The number of a rank is `significand rank * 2 ^ (scale rank - 1074)`. -/
def scale (rank : Nat) : Nat := rank / binade - 1

@[inherit_doc scale]
def significand (rank : Nat) : Nat :=
  if rank < binade then rank else binade + rank % binade

/-- How often the least of the positive numbers goes into one. -/
def unitsPerOne : Nat := 2 ^ (1074 : Nat)

/-- Is `x` a number, and not infinite? -/
def isFinite (x : Binary64) : Bool := x.rank < infiniteRank

/-- Is `x` infinite? -/
def isInfinite (x : Binary64) : Bool := x.rank == infiniteRank

/-- The integer nearest to `a / b`, and the even one of two. -/
def roundHalfEven (a b : Nat) : Nat :=
  let q := a / b
  let r := a % b
  if 2 * r < b ∨ 2 * r = b ∧ q % 2 = 0 then q else q + 1

/-- The rank of the number nearest to `num / den`, and the one with the even
significand of two. The quotient is measured in units of `2 ^ -1074` and rounded
at the spacing `2 ^ k` that leaves 53 binary digits; a quotient that rounds up
to the next binade gets its rank by the same sum. -/
def nearestRank (num den : Nat) : Nat :=
  let units := num * unitsPerOne
  let k := (units / den).log2 - 52
  min infiniteRank (k * binade + roundHalfEven units (den * 2 ^ k))

/-- The number of decimal digits of `n`. -/
def decimalLength (n : Nat) : Nat := (Nat.toDigits 10 n).length

/-- The number nearest to `digits * 10 ^ exponent`. Beyond `10 ^ 310` every value
is infinite and below `10 ^ -330` every value is zero, which keeps the powers of
ten small. -/
def ofDecimal (negative : Bool) (digits : Nat) (exponent : Int) : Binary64 :=
  let size := decimalLength digits + exponent
  let rank :=
    if digits = 0 ∨ size < -330 then 0
    else if 310 < size then infiniteRank
    else if 0 ≤ exponent then nearestRank (digits * 10 ^ exponent.toNat) 1
    else nearestRank digits (10 ^ (-exponent).toNat)
  ⟨negative, rank⟩

end Binary64

end ClassScript

import ClassScript.Number.Shortest

/-!
# Writing numbers

A `Layout` holds the decisions of an output format about decimal text: how a
tie between two shortest decimals is broken, which magnitudes are written out
in place, and whether a whole number keeps a point. The digits themselves come
from `shortest`.
-/

namespace ClassScript.Binary64

/-- How an output format writes finite numbers. -/
structure Layout where
  tie : Tie
  /-- Is a number between `10 ^ e` and `10 ^ (e + 1)` written without an
  exponent? -/
  positional : Int → Bool
  /-- Is a whole number written with `.0`? -/
  keepPoint : Bool

/-- The digits of `d` in place. -/
def Decimal.positional (d : Decimal) (keepPoint : Bool) : String :=
  let digits := Nat.toDigits 10 d.digits
  let whole := digits.length + d.exponent
  String.ofList <|
    if 0 ≤ d.exponent then
      digits ++ List.replicate d.exponent.toNat '0' ++ if keepPoint then ['.', '0'] else []
    else if 0 < whole then
      digits.take whole.toNat ++ '.' :: digits.drop whole.toNat
    else
      '0' :: '.' :: List.replicate (-whole).toNat '0' ++ digits

/-- The digits of `d` with a point after the first, and a signed exponent. -/
def Decimal.scientific (d : Decimal) : String :=
  let digits := Nat.toDigits 10 d.digits
  let exponent := d.exponent + digits.length - 1
  let mantissa := digits.take 1 ++ if digits.length = 1 then [] else '.' :: digits.drop 1
  String.ofList mantissa ++ "e" ++ (if exponent < 0 then "-" else "+") ++ toString exponent.natAbs

/-- The text of a finite number in a layout. -/
def format (layout : Layout) (x : Binary64) : String :=
  let sign := if x.negative then "-" else ""
  if x.rank = 0 then sign ++ if layout.keepPoint then "0.0" else "0"
  else
    let d := shortest layout.tie x.rank
    sign ++
      if layout.positional (d.exponent + decimalLength d.digits - 1) then
        d.positional layout.keepPoint
      else d.scientific

end ClassScript.Binary64

/-!
# Tables of code point ranges

A character property is written down as a table of inclusive ranges of code
points, in increasing order.
-/

namespace ClassScript.Text

/-- A set of code points, as inclusive ranges. -/
abbrev RangeTable := Array (Nat × Nat)

/-- Is the code point of `c` in one of the ranges? -/
def RangeTable.contains (table : RangeTable) (c : Char) : Bool :=
  table.any fun range => range.1 ≤ c.toNat && c.toNat ≤ range.2

end ClassScript.Text

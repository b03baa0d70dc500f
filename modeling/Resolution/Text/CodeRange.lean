/-!
# Sets of characters as ranges of code points

A property of characters that a standard fixes by listing them is kept as the list of its ranges.
-/

namespace Resolution.Text

/-- The code points from `first` to `last`, both included. -/
structure CodeRange where
  first : Nat
  last : Nat
deriving DecidableEq, Repr

namespace CodeRange

def covers (r : CodeRange) (c : Char) : Bool :=
  r.first ≤ c.toNat && c.toNat ≤ r.last

end CodeRange

/-- The character lies in one of the ranges. -/
def inRanges (rs : List CodeRange) (c : Char) : Bool :=
  rs.any fun r => r.covers c

end Resolution.Text

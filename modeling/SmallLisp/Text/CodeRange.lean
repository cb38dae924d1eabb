/-!
# Ranges of code points

The properties of characters that the scanner and its messages depend on are given as tables
of closed ranges.
-/

namespace SmallLisp.Text

/-- A closed range of code points. -/
structure CodeRange where
  first : Nat
  last : Nat
  deriving DecidableEq, Repr

/-- The character's code point lies in the range. -/
def CodeRange.contains (range : CodeRange) (c : Char) : Bool :=
  range.first ≤ c.toNat && c.toNat ≤ range.last

end SmallLisp.Text

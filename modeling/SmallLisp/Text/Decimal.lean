/-!
# Decimal numbers

Integers are written in base ten without leading zeros, a minus sign in front of negative
ones. Reading takes any run of decimal digits, so a written integer reads back as itself.

## Main results

* `ofDigits_digits` — the digits written for a natural number have that number as their value.
-/

namespace SmallLisp.Decimal

/-- The character is one of the ten ASCII digits. -/
def isDigit (c : Char) : Bool :=
  '0' ≤ c && c ≤ '9'

/-- The decimal digits of a natural number, most significant first. -/
def digits (n : Nat) : List Char :=
  Nat.toDigits 10 n

/-- The value of a run of decimal digits. -/
def ofDigits (cs : List Char) : Nat :=
  Nat.ofDigitChars 10 cs 0

/-- A natural number in decimal. -/
def ofNat (n : Nat) : String :=
  String.ofList (digits n)

/-- An integer in decimal. -/
def ofInt : Int → String
  | .ofNat n => ofNat n
  | .negSucc n => "-" ++ ofNat (n + 1)

theorem ofDigits_digits (n : Nat) : ofDigits (digits n) = n :=
  Nat.ofDigitChars_toDigits (by decide) (by decide)

end SmallLisp.Decimal

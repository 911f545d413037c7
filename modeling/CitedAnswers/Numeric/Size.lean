/-!
# Sizes

Sizes, offsets and citation numbers are natural numbers below `2 ^ 64`. This module holds the bound
and the decimal text of a size: `Size.digits` writes it, `Size.ofDigits?` and `Size.read?` read it.

The two readers differ in the sign only. `ofDigits?` takes a non-empty run of ASCII digits, leading
zeros included; `read?` also takes one `+` in front. Both refuse a value that does not fit.
-/

namespace CitedAnswers.Size

/-- One more than the largest size: two to the power of 64. -/
def bound : Nat := 0x10000000000000000

/-- Half of the bound: integers of 64 bits with a sign lie between it and its negative, which is one
of them. -/
def half : Nat := 0x8000000000000000

/-- The largest size. -/
def max : Nat := 0xffffffffffffffff

/-- Whether a number is a size. -/
def isSize (n : Nat) : Bool := n < bound

/-- The decimal digits of a number, without leading zeros. -/
def digits (n : Nat) : List Char := Nat.toDigits 10 n

/-- The number written by a non-empty run of decimal digits, however large. -/
def valueOfDigits? (cs : List Char) : Option Nat :=
  if cs.isEmpty || !cs.all Char.isDigit then none else some (Nat.ofDigitChars 10 cs 0)

/-- The size written by a non-empty run of decimal digits. -/
def ofDigits? (cs : List Char) : Option Nat :=
  (valueOfDigits? cs).filter (· < bound)

/-- The size written by decimal digits with at most one `+` in front. -/
def read? : List Char → Option Nat
  | '+' :: cs => ofDigits? cs
  | cs => ofDigits? cs

/-- A number cut down to the largest size. -/
def saturate (n : Nat) : Nat := min n max

end CitedAnswers.Size

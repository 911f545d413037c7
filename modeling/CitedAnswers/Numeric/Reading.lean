import CitedAnswers.Numeric.Shortest

/-!
# Reading floating-point numbers

`Format.ofDecimal` takes a decimal to the nearest number of a format. `Binary.read?` reads the
decimal text of a 64-bit number: digits with at most one point, an exponent, or one of the words for
infinity and for what is no number, all with a sign if there is one.
-/

namespace CitedAnswers

/-- Whether a sign in front is a minus, and what follows the sign. -/
def takeSign : List Char → Bool × List Char
  | '-' :: ds => (true, ds)
  | '+' :: ds => (false, ds)
  | ds => (false, ds)

theorem length_takeSign (cs : List Char) : (takeSign cs).2.length ≤ cs.length := by
  unfold takeSign
  split <;> simp

namespace Binary

/-- The number of the format nearest to a decimal. A decimal far beyond the numbers of the format is
infinite or zero, whatever its digits: a power of ten is larger than the same power of two. -/
def Format.ofDecimal (f : Format) (negative : Bool) (d : Decimal) : Binary :=
  if d.digits = 0 ∨ d.top < f.minExponent - 2 then .finite negative 0 f.minExponent
  else if f.maxExponent + f.precision < d.top then .infinite negative
  else if 0 ≤ d.exponent then f.round negative (d.digits * Nat.pow 10 d.exponent.toNat) 1
  else f.round negative d.digits (Nat.pow 10 (-d.exponent).toNat)

/-- The decimal of the digits before and after a point, times a power of ten. -/
def Decimal.ofParts (whole fraction : List Char) (exponent : Int) : Decimal :=
  ⟨Nat.ofDigitChars 10 (whole ++ fraction) 0, exponent - fraction.length⟩

/-- The integer written by digits with at most one sign in front. -/
def readInt? (cs : List Char) : Option Int :=
  let (negative, ds) := takeSign cs
  (Size.valueOfDigits? ds).map fun n ↦ if negative then -(n : Int) else n

/-- The exponent that ends a number: none is zero. -/
def readExponent? : List Char → Option Int
  | [] => some 0
  | c :: cs => if c = 'e' ∨ c = 'E' then readInt? cs else none

/-- The decimal of digits with at most one point, and an exponent. -/
def Decimal.read? (cs : List Char) : Option Decimal := do
  let whole := cs.takeWhile Char.isDigit
  let rest := cs.dropWhile Char.isDigit
  let (fraction, rest) := match rest with
    | '.' :: rest => (rest.takeWhile Char.isDigit, rest.dropWhile Char.isDigit)
    | rest => ([], rest)
  if whole.isEmpty && fraction.isEmpty then none
  let exponent ← readExponent? rest
  pure (.ofParts whole fraction exponent)

/-- The 64-bit number of a text. -/
def read? (cs : List Char) : Option Binary :=
  let (negative, ds) := takeSign cs
  let word := String.ofList (ds.map Char.toLower)
  if word == "inf" || word == "infinity" then some (.infinite negative)
  else if word == "nan" then some .nan
  else (Decimal.read? ds).map (Format.double.ofDecimal negative)

end Binary

end CitedAnswers

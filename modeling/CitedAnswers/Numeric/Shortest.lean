import CitedAnswers.Numeric.Binary
import CitedAnswers.Numeric.Size

/-!
# The shortest decimal text of a floating-point number

Every finite number owns the interval of reals that round to it. Its shortest decimal form has the
fewest digits among the decimals of that interval, and of those is the nearest to the number.
`Binary.shortest` finds it by going through the decimal grids from one digit upwards and looking at
the two grid points next to the number.

How the digits are laid out is a matter of the text at hand and is kept in a `Layout`: which decimal
exponents are written positionally, and whether an integral value keeps a point.
-/

namespace CitedAnswers.Binary

/-- The digits of a decimal as a number, times a power of ten. -/
structure Decimal where
  digits : Nat
  exponent : Int
deriving DecidableEq, Repr

/-- The bounds of the reals that round to `m * 2 ^ e`, and whether they belong to it. All are
scaled by `2 ^ (2 - e)`, so that the number itself is `4 * m`. -/
structure Interval where
  low : Nat
  high : Nat
  closed : Bool
deriving DecidableEq, Repr

/-- Below a power of two the neighbours are twice as near as above it, unless the exponent is
already the least. -/
def Format.interval (f : Format) (m : Nat) (e : Int) : Interval where
  low := if m = Nat.pow 2 (f.precision - 1) ∧ f.minExponent < e then 4 * m - 1 else 4 * m - 2
  high := 4 * m + 2
  closed := m % 2 == 0

/-- Whether the decimal `d * 10 ^ k`, given as the quotient `num / den` in the scale of the
interval, lies in it. -/
def Interval.contains (i : Interval) (num den : Nat) : Bool :=
  if i.closed then decide (i.low * den ≤ num ∧ num ≤ i.high * den)
  else decide (i.low * den < num ∧ num < i.high * den)

/-- The decimal `d * 10 ^ k` divided by `2 ^ (e - 2)`, as a numerator and a denominator. -/
def scaledDecimal (d : Nat) (k e : Int) : Nat × Nat :=
  let (a, b) := if 0 ≤ k then (d * Nat.pow 10 k.toNat, 1) else (d, Nat.pow 10 (-k).toNat)
  scaleDown a b (e - 2)

/-- The better of the two points of the grid `10 ^ k` next to `m * 2 ^ e`, if one of them lies in
the interval: the nearer one, and of two equally near ones the even one. -/
def onGrid? (i : Interval) (m : Nat) (e k : Int) : Option Decimal :=
  let (a, b) := ratio m e
  let (num, den) :=
    if 0 ≤ k then (a, b * Nat.pow 10 k.toNat) else (a * Nat.pow 10 (-k).toNat, b)
  let below := num / den
  let fits (d : Nat) : Bool := let (x, y) := scaledDecimal d k e; i.contains x y
  let nearer := nearestEven num den
  let other := if nearer = below then below + 1 else below
  if fits nearer then some ⟨nearer, k⟩
  else if fits other then some ⟨other, k⟩
  else none

/-- The exponent of the leading decimal digit of `num / den`, found from an estimate that is at
most two too small. -/
def leadingExponent (num den : Nat) : Int :=
  let atLeast (k : Int) : Bool :=
    if 0 ≤ k then den * Nat.pow 10 k.toNat ≤ num else den ≤ num * Nat.pow 10 (-k).toNat
  -- The number is at least `2 ^ bits`, and `log10 2` is 0.30103 to five places.
  let bits : Int := (num.log2 : Int) - den.log2 - 1
  let low : Int := bits * 30103 / 100000 - 1
  if atLeast (low + 2) then low + 2
  else if atLeast (low + 1) then low + 1
  else low

/-- A decimal without trailing zeros. -/
def Decimal.strip (d : Decimal) : Decimal :=
  if d.digits = 0 then d
  else if d.digits % 10 = 0 then Decimal.strip ⟨d.digits / 10, d.exponent + 1⟩
  else d
termination_by d.digits
decreasing_by show d.digits / 10 < d.digits; omega

/-- The shortest decimal in the interval of `m * 2 ^ e`, for a significand other than zero.
Seventeen digits suffice in every format of at most 53 bits. -/
def Format.shortest (f : Format) (m : Nat) (e : Int) : Decimal :=
  let i := f.interval m e
  let (a, b) := ratio m e
  let top := leadingExponent a b
  let grids := (List.range 17).map fun (n : Nat) ↦ top - n
  ((grids.findSome? (onGrid? i m e)).getD ⟨a, 0⟩).strip

/-! ### Layouts -/

/-- How the digits of a decimal are laid out. -/
structure Layout where
  /-- Whether a leading digit with this exponent is written positionally. -/
  positional : Int → Bool
  /-- Whether a positional integral value ends in `.0`. -/
  keepsPoint : Bool
  notANumber : String
  infinity : String

/-- The digits of a decimal with a point after the digit of the units. -/
def Decimal.positional (d : Decimal) (keepsPoint : Bool) : List Char :=
  let ds := Size.digits d.digits
  if 0 ≤ d.exponent then
    ds ++ List.replicate d.exponent.toNat '0' ++ (if keepsPoint then ['.', '0'] else [])
  else
    let places := (-d.exponent).toNat
    if ds.length ≤ places then '0' :: '.' :: List.replicate (places - ds.length) '0' ++ ds
    else ds.take (ds.length - places) ++ '.' :: ds.drop (ds.length - places)

/-- The digits of a decimal with one digit before the point and a signed exponent. -/
def Decimal.scientific (d : Decimal) : List Char :=
  let ds := Size.digits d.digits
  let top : Int := d.exponent + (ds.length - 1 : Nat)
  let mantissa := match ds with
    | [] => []
    | [c] => [c]
    | c :: cs => c :: '.' :: cs
  mantissa ++ 'e' :: (if 0 ≤ top then '+' else '-') :: Size.digits top.natAbs

/-- The exponent of the leading digit. -/
def Decimal.top (d : Decimal) : Int := d.exponent + ((Size.digits d.digits).length - 1 : Nat)

/-- The text of a decimal in a layout, without its sign. -/
def Layout.magnitude (l : Layout) (d : Decimal) : List Char :=
  if l.positional d.top then d.positional l.keepsPoint else d.scientific

/-- The text of a number of the given format. -/
def Layout.render (l : Layout) (f : Format) : Binary → String
  | .nan => l.notANumber
  | .infinite s => (if s then "-" else "") ++ l.infinity
  | .finite s m e =>
    let d : Decimal := if m = 0 then ⟨0, 0⟩ else f.shortest m e
    String.ofList ((if s then ['-'] else []) ++ l.magnitude d)

/-- Numbers in running text: no exponent and no needless point. -/
def Layout.plain : Layout where
  positional _ := true
  keepsPoint := false
  notANumber := "NaN"
  infinity := "inf"

end CitedAnswers.Binary

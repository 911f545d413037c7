/-!
# Binary floating-point numbers

A `Binary` is a sign, a significand and a power of two, or one of the two infinities, or not a
number. A `Format` says which significands and exponents are stored; `Format.round` takes an exact
quotient to the nearest stored number, a tie going to the even significand.

All arithmetic is on natural numbers: a product or quotient is formed exactly and rounded once,
which is what the standard for floating-point arithmetic asks of each operation.
-/

namespace CitedAnswers

/-- A floating-point number; the finite ones are `± significand * 2 ^ exponent`. -/
inductive Binary where
  | finite (negative : Bool) (significand : Nat) (exponent : Int)
  | infinite (negative : Bool)
  | nan
deriving DecidableEq, Repr, Inhabited

/-- A storage format: the length of a significand in bits and the range of exponents. -/
structure Binary.Format where
  precision : Nat
  minExponent : Int
  maxExponent : Int
deriving DecidableEq, Repr

namespace Binary

/-- The 32-bit format. -/
def Format.single : Format := ⟨24, -149, 104⟩

/-- The 64-bit format. -/
def Format.double : Format := ⟨53, -1074, 971⟩

/-! ### Rounding -/

/-- The integer nearest to `num / den`; of two equally near ones, the even one. -/
def nearestEven (num den : Nat) : Nat :=
  let q := num / den
  let r := num % den
  if den < 2 * r ∨ (2 * r = den ∧ q % 2 = 1) then q + 1 else q

/-- The quotient `num / den` divided by `2 ^ e`, as a numerator and a denominator. -/
def scaleDown (num den : Nat) (e : Int) : Nat × Nat :=
  if 0 ≤ e then (num, den * Nat.pow 2 e.toNat) else (num * Nat.pow 2 (-e).toNat, den)

/-- The number of the format nearest to `num / den`, with the given sign. Beyond the largest
significand and exponent it is an infinity. -/
def Format.round (f : Format) (negative : Bool) (num den : Nat) : Binary :=
  if num = 0 then .finite negative 0 f.minExponent
  else
    -- The estimate is at most one too small: the quotient has `precision` or one more bits.
    let estimate : Int := (num.log2 : Int) - den.log2 - f.precision
    let low := max f.minExponent estimate
    let (a, b) := scaleDown num den low
    let e := if Nat.pow 2 f.precision ≤ a / b then low + 1 else low
    let (a, b) := scaleDown num den e
    let m := nearestEven a b
    -- Rounding up may carry into one more bit.
    let (m, e) :=
      if m = Nat.pow 2 f.precision then (Nat.pow 2 (f.precision - 1), e + 1) else (m, e)
    if f.maxExponent < e then .infinite negative else .finite negative m e

/-- The magnitude of a finite number as a numerator and a denominator. -/
def ratio (significand : Nat) (exponent : Int) : Nat × Nat :=
  scaleDown significand 1 (-exponent)

/-- The number of the format nearest to a natural number. -/
def Format.ofNat (f : Format) (n : Nat) : Binary := f.round false n 1

/-- The value in another format. -/
def Format.convert (f : Format) : Binary → Binary
  | .finite s m e => let (a, b) := ratio m e; f.round s a b
  | x => x

/-! ### Sign and order -/

/-- Whether the sign is a minus; a number that is none has no sign. -/
def isNegative : Binary → Bool
  | .finite s _ _ | .infinite s => s
  | .nan => false

/-- Whether the number is finite and zero. -/
def isZero : Binary → Bool
  | .finite _ m _ => m == 0
  | _ => false

/-- The number with its sign changed. -/
def neg : Binary → Binary
  | .finite s m e => .finite (!s) m e
  | .infinite s => .infinite (!s)
  | .nan => .nan

/-- A finite number as a signed numerator and a denominator. -/
def signedRatio (negative : Bool) (m : Nat) (e : Int) : Int × Nat :=
  let (a, b) := ratio m e
  (if negative then -(a : Int) else a, b)

/-- The order of the values. What is not a number is below, above and beside nothing, itself
included; the two zeros are equal. -/
def le : Binary → Binary → Bool
  | .nan, _ | _, .nan => false
  | .infinite s, .infinite t => s || !t
  | .infinite s, .finite .. => s
  | .finite .., .infinite t => !t
  | .finite s m e, .finite t n k =>
    let (a, b) := signedRatio s m e
    let (c, d) := signedRatio t n k
    decide (a * d ≤ c * b)

/-! ### Products and quotients -/

/-- The product of two magnitudes, rounded once. -/
def Format.mul (f : Format) : Binary → Binary → Binary
  | .finite s m e, .finite t n k =>
    let (a, b) := ratio m e
    let (c, d) := ratio n k
    f.round (s != t) (a * c) (b * d)
  | .nan, _ | _, .nan => .nan
  | x, y => if x.isZero || y.isZero then .nan else .infinite (x.isNegative != y.isNegative)

/-- The quotient of two numbers, rounded once. -/
def Format.div (f : Format) : Binary → Binary → Binary
  | .finite s m e, .finite t n k =>
    if n = 0 then if m = 0 then .nan else .infinite (s != t)
    else
      let (a, b) := ratio m e
      let (c, d) := ratio n k
      f.round (s != t) (a * d) (b * c)
  | .nan, _ | _, .nan => .nan
  | .infinite _, .infinite _ => .nan
  | .infinite s, .finite t _ _ => .infinite (s != t)
  | .finite s _ _, .infinite t => .finite (s != t) 0 f.minExponent

/-! ### Rounding to integers -/

/-- The nearest integer of the magnitude, a half going up; an infinity has none. -/
def nearestMagnitude? : Binary → Option Nat
  | .finite _ m e => let (a, b) := ratio m e; some ((2 * a + b) / (2 * b))
  | _ => none

end Binary

end CitedAnswers

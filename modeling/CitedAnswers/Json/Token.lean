import CitedAnswers.Numeric.Reading
import CitedAnswers.Unicode.Bytes

/-!
# Tokens of JSON text

`Token.scan` cuts a text into the tokens of strict JSON. It never fails: where the text is broken it
ends the list with a token that carries the fault, so that a reader can still act on what stands
before it and the leftmost problem is the one reported.

What a broken or odd token means depends on what is wanted of it (`Break`). A string with an
unpaired surrogate, for instance, is a fault when its value is wanted and harmless when it is passed
over; a number that the text cuts short is reported as truncated in the first case and as malformed
in the second.
-/

namespace CitedAnswers.Json

/-- The ways in which reading fails: the text is not JSON, it ends too early, or it is JSON of
another shape than the type at hand. -/
inductive Fault where
  | malformed
  | truncated
  | mismatched
deriving DecidableEq, Repr, Inhabited

/-- A fault as seen by the three kinds of reader: one that wants the value, one that passes over it,
and one that wants the name of an alternative here. -/
structure Break where
  read : Fault
  skip : Fault
  name : Fault
deriving DecidableEq, Repr

/-- The same fault for every reader. -/
def Fault.toBreak (f : Fault) : Break := ⟨f, f, f⟩

/-! ### Numerals -/

/-- The parts of a number as written. -/
structure Numeral where
  negative : Bool
  /-- The digits before the point. -/
  whole : List Char
  /-- The digits after the point; empty if there is none. -/
  fraction : List Char
  /-- The sign (`true` for a minus) and the digits of the exponent. -/
  exponent : Option (Bool × List Char)
deriving DecidableEq, Repr

namespace Numeral

/-- The text of a numeral. An exponent is written with its sign. -/
def text (n : Numeral) : List Char :=
  (if n.negative then ['-'] else []) ++ n.whole ++
    (if n.fraction.isEmpty then [] else '.' :: n.fraction) ++
    match n.exponent with
    | none => []
    | some (negative, ds) => 'e' :: (if negative then '-' else '+') :: ds

/-- The numeral of an integer. -/
def ofInt (i : Int) : Numeral := ⟨i < 0, Size.digits i.natAbs, [], none⟩

/-- The numeral of a natural number. -/
def ofNat (n : Nat) : Numeral := ⟨false, Size.digits n, [], none⟩

/-- The integer a numeral stands for: it has no fraction and no exponent, is not a negative zero,
and lies between `- 2 ^ 63` and `2 ^ 64 - 1`. -/
def integer? (n : Numeral) : Option Int :=
  if n.fraction.isEmpty && n.exponent.isNone then
    let v := Nat.ofDigitChars 10 n.whole 0
    if n.negative then if 0 < v ∧ v ≤ Size.half then some (-(v : Int)) else none
    else if v < Size.bound then some v else none
  else none

/-- Appends digits to a significand as long as it stays a size; returns the digits left over. -/
def accumulate (significand : Nat) : List Char → Nat × List Char
  | [] => (significand, [])
  | c :: cs =>
    let next := significand * 10 + (c.toNat - '0'.toNat)
    if next < Size.bound then accumulate next cs else (significand, c :: cs)

/-- A power of ten in the 64-bit format. -/
def powerOfTen (k : Nat) : Binary := Binary.Format.double.ofNat (Nat.pow 10 k)

/-- Divides by a power of ten, in steps the format can hold. -/
def divideByPower (x : Binary) (k : Nat) : Binary :=
  if k ≤ 308 then Binary.Format.double.div x (powerOfTen k)
  else if x.isZero then x
  else divideByPower (Binary.Format.double.div x (powerOfTen 308)) (k - 308)
termination_by k

/-- The value as a 64-bit floating-point number: the leading digits that make up a size, multiplied
or divided by a power of ten, each step rounded; `none` beyond the range of the format. -/
def float? (n : Numeral) : Option Binary :=
  let (head, dropped) := accumulate 0 n.whole
  let (significand, unused) := accumulate head n.fraction
  let shift : Int := match n.exponent with
    | none => 0
    | some (negative, ds) =>
      let e : Int := Nat.ofDigitChars 10 ds 0
      if negative then -e else e
  let k : Int := dropped.length - (n.fraction.length - unused.length : Nat) + shift
  let x := Binary.Format.double.ofNat significand
  let scaled := if k < 0 then some (divideByPower x k.natAbs)
    else if x.isZero then some x
    else if 308 < k then none
    else some (Binary.Format.double.mul x (powerOfTen k.toNat))
  match scaled with
  | some (.finite s m e) => some (.finite (s != n.negative) m e)
  | _ => none

/-- Whether the value is within the range of 64-bit floating-point numbers. -/
def inRange (n : Numeral) : Bool := n.integer?.isSome || n.float?.isSome

/-- Floating-point numbers in JSON text: positional from `0.00001` up to sixteen digits, and always
with a point or an exponent. -/
def layout : Binary.Layout where
  positional e := decide (-5 ≤ e ∧ e ≤ 15)
  keepsPoint := true
  notANumber := "null"
  infinity := "null"

/-- The numeral of the shortest text of a finite number. -/
def ofBinary? (f : Binary.Format) : Binary → Option Numeral
  | .finite s m e =>
    let d : Binary.Decimal := if m = 0 then ⟨0, 0⟩ else f.shortest m e
    if layout.positional d.top then
      let ds := d.positional true
      some ⟨s, ds.takeWhile Char.isDigit, (ds.dropWhile Char.isDigit).drop 1, none⟩
    else
      let ds := Size.digits d.digits
      some ⟨s, ds.take 1, ds.drop 1, some (decide (d.top < 0), Size.digits d.top.natAbs)⟩
  | _ => none

end Numeral

/-! ### Tokens -/

/-- A token of JSON text. -/
inductive Token where
  | comma
  | colon
  | openArray
  | closeArray
  | openObject
  | closeObject
  | null
  | bool (b : Bool)
  | number (n : Numeral)
  /-- A string; `none` if a surrogate in it is unpaired. -/
  | string (s : Option String)
  /-- A string that is not brought to its end. -/
  | brokenString (b : Break)
  | broken (b : Break)
deriving DecidableEq, Repr

/-! ### Strings -/

/-- A part of a string literal: a character, or the 16-bit unit of a `\u` escape. -/
inductive Piece where
  | char (c : Char)
  | unit (n : Nat)
deriving DecidableEq, Repr

/-- The first half of a surrogate pair. -/
def isHighSurrogate (n : Nat) : Bool := decide (0xD800 ≤ n ∧ n ≤ 0xDBFF)

/-- The second half of a surrogate pair. -/
def isLowSurrogate (n : Nat) : Bool := decide (0xDC00 ≤ n ∧ n ≤ 0xDFFF)

/-- The character of a surrogate pair. -/
def ofSurrogates (high low : Nat) : Char :=
  Char.ofNat (0x10000 + (high - 0xD800) * 0x400 + (low - 0xDC00))

/-- Joins the parts of a string, a surrogate pair to one character; `none` if a surrogate is
unpaired. Also tells whether the parts end in the first half of a pair. -/
def Piece.join (pending : Option Nat) : List Piece → Option (List Char × Bool)
  | [] => some ([], pending.isSome)
  | .char c :: ps =>
    if pending.isSome then none else (join none ps).map fun (cs, b) ↦ (c :: cs, b)
  | .unit n :: ps =>
    match pending with
    | some high =>
      if isLowSurrogate n then
        (join none ps).map fun (cs, b) ↦ (ofSurrogates high n :: cs, b)
      else none
    | none =>
      if isHighSurrogate n then join (some n) ps
      else if isLowSurrogate n then none
      else (join none ps).map fun (cs, b) ↦ (Char.ofNat n :: cs, b)

/-- The character that a one-letter escape stands for. -/
def ofEscape? : Char → Option Char
  | '"' => some '"'
  | '\\' => some '\\'
  | '/' => some '/'
  | 'b' => some '\x08'
  | 'f' => some '\x0c'
  | 'n' => some '\n'
  | 'r' => some '\r'
  | 't' => some '\t'
  | _ => none

/-- The value of a hexadecimal digit. -/
def hexValue? (c : Char) : Option Nat :=
  if '0' ≤ c ∧ c ≤ '9' then some (c.toNat - '0'.toNat)
  else if 'a' ≤ c ∧ c ≤ 'f' then some (c.toNat - 'a'.toNat + 10)
  else if 'A' ≤ c ∧ c ≤ 'F' then some (c.toNat - 'A'.toNat + 10)
  else none

/-- Where the scan of a string literal stands: between its parts, after a backslash, or within the
four digits of a `\u` escape. -/
inductive StringMode where
  | plain
  | escape
  | hex (seen : Nat) (value : Nat)

/-- The parts of a string literal after its opening quote, and what follows the closing one. -/
def scanString : StringMode → List Char → List Piece × Except Fault (List Char)
  | _, [] => ([], .error .truncated)
  | .plain, c :: cs =>
    if c = '"' then ([], .ok cs)
    else if c = '\\' then scanString .escape cs
    else if c.toNat < 0x20 then ([], .error .malformed)
    else (scanString .plain cs).map (.char c :: ·) id
  | .escape, c :: cs =>
    if c = 'u' then scanString (.hex 0 0) cs
    else match ofEscape? c with
      | some d => (scanString .plain cs).map (.char d :: ·) id
      | none => ([], .error .malformed)
  | .hex seen value, c :: cs =>
    match hexValue? c with
    | some d =>
      if seen = 3 then (scanString .plain cs).map (.unit (value * 16 + d) :: ·) id
      else scanString (.hex (seen + 1) (value * 16 + d)) cs
    | none =>
      -- The four digits are looked at together, so a text too short for them is truncated.
      ([], .error (if seen + Unicode.byteCount (c :: cs) < 4 then .truncated else .malformed))

/-- The token of a string literal from its parts. -/
def Token.ofPieces (ps : List Piece) : Except Fault (List Char) → Token × List Char
  | .ok rest =>
    match Piece.join none ps with
    | some (cs, false) => (.string (some (String.ofList cs)), rest)
    | _ => (.string none, rest)
  | .error f =>
    let read := if (Piece.join none ps).isSome then f else .malformed
    (.brokenString ⟨read, f, read⟩, [])

/-! ### Numbers and words -/

/-- A number that stops short: truncated for one who wants it, malformed for one who does not. -/
def Break.ofShortNumber (rest : List Char) : Break :=
  ⟨if rest.isEmpty then .truncated else .malformed, .malformed, .malformed⟩

/-- The exponent of a number, if there is one. -/
def scanExponent (n : Numeral) : List Char → Token × List Char
  | [] => (.number n, [])
  | c :: cs =>
    if c = 'e' ∨ c = 'E' then
      let (negative, ds) := takeSign cs
      let digits := ds.takeWhile Char.isDigit
      let rest := ds.dropWhile Char.isDigit
      if digits.isEmpty then (.broken (.ofShortNumber rest), [])
      else (.number { n with exponent := some (negative, digits) }, rest)
    else (.number n, c :: cs)

/-- The fraction of a number, if there is one, and its exponent. -/
def scanFraction (n : Numeral) : List Char → Token × List Char
  | '.' :: cs =>
    let digits := cs.takeWhile Char.isDigit
    let rest := cs.dropWhile Char.isDigit
    if digits.isEmpty then (.broken (.ofShortNumber rest), [])
    else scanExponent { n with fraction := digits } rest
  | cs => scanExponent n cs

/-- A number from its first digit on. A zero takes no further digit before the point. -/
def scanNumber (negative : Bool) (cs : List Char) : Token × List Char :=
  let digits := cs.takeWhile Char.isDigit
  let rest := cs.dropWhile Char.isDigit
  match digits with
  | [] => (.broken (.ofShortNumber rest), [])
  | '0' :: _ :: _ => (.broken Fault.malformed.toBreak, [])
  | _ => scanFraction ⟨negative, digits, [], none⟩ rest

/-- What follows the given word, or the fault of a text that does not hold it here. -/
def scanWord : List Char → List Char → Except Fault (List Char)
  | [], cs => .ok cs
  | _ :: _, [] => .error .truncated
  | w :: ws, c :: cs => if c = w then scanWord ws cs else .error .malformed

/-- The token of one of the three words, from its second letter on. -/
def Token.ofWord (t : Token) (word cs : List Char) : Token × List Char :=
  match scanWord word cs with
  | .ok rest => (t, rest)
  | .error f => (.broken ⟨f, f, .malformed⟩, [])

/-- The blanks of JSON. -/
def isBlank (c : Char) : Bool := c == ' ' || c == '\n' || c == '\t' || c == '\r'

/-- The token that starts with `c`, and what follows it. After a broken token nothing follows. -/
def Token.first (c : Char) (cs : List Char) : Token × List Char :=
  match c with
  | ',' => (.comma, cs)
  | ':' => (.colon, cs)
  | '[' => (.openArray, cs)
  | ']' => (.closeArray, cs)
  | '{' => (.openObject, cs)
  | '}' => (.closeObject, cs)
  | '"' => let (ps, r) := scanString .plain cs; Token.ofPieces ps r
  | 'n' => Token.null.ofWord ['u', 'l', 'l'] cs
  | 't' => (Token.bool true).ofWord ['r', 'u', 'e'] cs
  | 'f' => (Token.bool false).ofWord ['a', 'l', 's', 'e'] cs
  | '-' => scanNumber true cs
  | c =>
    if c.isDigit then scanNumber false (c :: cs)
    else (.broken Fault.malformed.toBreak, [])

/-! ### What follows a token is no longer than what followed its first character -/

theorem length_scanString {mode : StringMode} {cs rest : List Char}
    (h : (scanString mode cs).2 = .ok rest) : rest.length ≤ cs.length := by
  fun_induction scanString mode cs <;> simp_all <;> omega

theorem length_ofPieces (ps : List Piece) {r : Except Fault (List Char)} {n : Nat}
    (h : ∀ rest, r = .ok rest → rest.length ≤ n) : (Token.ofPieces ps r).2.length ≤ n := by
  unfold Token.ofPieces
  split
  · split <;> exact h _ rfl
  · simp

theorem length_dropWhile_le (p : Char → Bool) (cs : List Char) :
    (cs.dropWhile p).length ≤ cs.length :=
  (List.dropWhile_sublist p).length_le

theorem length_scanExponent (n : Numeral) (cs : List Char) :
    (scanExponent n cs).2.length ≤ cs.length := by
  cases cs with
  | nil => simp [scanExponent]
  | cons c cs =>
    have h := length_dropWhile_le Char.isDigit (takeSign cs).2
    have h' := length_takeSign cs
    simp only [scanExponent]
    split
    · split
      · simp
      · exact Nat.le_succ_of_le (Nat.le_trans h h')
    · simp

theorem length_scanFraction (n : Numeral) (cs : List Char) :
    (scanFraction n cs).2.length ≤ cs.length := by
  unfold scanFraction
  split
  · rename_i cs
    have h := length_dropWhile_le Char.isDigit cs
    have h' := fun m ↦ length_scanExponent m (cs.dropWhile Char.isDigit)
    simp only
    split
    · simp
    · exact Nat.le_trans (h' _) (Nat.le_trans h (by simp))
  · exact length_scanExponent _ _

theorem length_scanNumber (negative : Bool) (cs : List Char) :
    (scanNumber negative cs).2.length ≤ cs.length := by
  have h := length_dropWhile_le Char.isDigit cs
  unfold scanNumber
  simp only
  split
  · simp
  · simp
  · exact Nat.le_trans (length_scanFraction _ _) h

/-- A number takes at least its first digit. -/
theorem length_scanNumber_cons (negative : Bool) {c : Char} (hc : c.isDigit) (cs : List Char) :
    (scanNumber negative (c :: cs)).2.length ≤ cs.length := by
  have h := length_dropWhile_le Char.isDigit cs
  unfold scanNumber
  simp only [List.takeWhile_cons, List.dropWhile_cons, hc, if_true]
  split
  · simp
  · simp
  · exact Nat.le_trans (length_scanFraction _ _) h

theorem length_scanWord {w cs rest : List Char} (h : scanWord w cs = .ok rest) :
    rest.length ≤ cs.length := by
  fun_induction scanWord w cs with
  | case1 => simp_all
  | case2 => simp at h
  | case3 w c cs ih => exact Nat.le_trans (ih h) (by simp)
  | case4 => simp at h

theorem length_ofWord (t : Token) (w cs : List Char) :
    (t.ofWord w cs).2.length ≤ cs.length := by
  unfold Token.ofWord
  split
  · exact length_scanWord (by assumption)
  · simp

theorem length_first (c : Char) (cs : List Char) :
    (Token.first c cs).2.length ≤ cs.length := by
  unfold Token.first
  split
  case h_7 => exact length_ofPieces _ fun rest h ↦ length_scanString h
  case h_8 => exact length_ofWord ..
  case h_9 => exact length_ofWord ..
  case h_10 => exact length_ofWord ..
  case h_11 => exact length_scanNumber ..
  case h_12 =>
    split
    · exact length_scanNumber_cons false (by assumption) cs
    · simp
  all_goals exact Nat.le_refl _

/-- The tokens of a text, blanks left out, up to the first broken one. -/
def Token.scan : List Char → List Token
  | [] => []
  | c :: cs =>
    if isBlank c then scan cs
    else (Token.first c cs).1 :: scan (Token.first c cs).2
termination_by cs => cs.length
decreasing_by
  · exact Nat.lt_succ_self _
  · exact Nat.lt_succ_of_le (length_first c cs)

end CitedAnswers.Json

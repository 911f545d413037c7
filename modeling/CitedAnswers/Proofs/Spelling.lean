import CitedAnswers.Json.Tree
import CitedAnswers.Proofs.Labels
import Mathlib.Data.List.TakeWhile

/-!
# The text of numbers and strings is one token

What is written for a string or a number is scanned as one token, which is that string or number,
and the scan goes on with what follows (`Token.scan_quote`, `Token.scan_text`). A string ends at its
closing quote, so anything may follow it. A number ends where no digit, point or exponent goes on;
that is all that is asked of what follows (`Apart`).

Of a number only the shape of its numeral matters (`Numeral.Proper`): digits where digits belong and
no zero in front of others. The numerals of integers and of finite floating-point numbers have that
shape. For the latter it takes that the shortest decimal of a number other than zero is not zero
(`Binary.Format.digits_shortest`), since it lies in an interval above zero.
-/

namespace CitedAnswers

/-! ### Digits -/

namespace Size

theorem digits_eq {n : Nat} (h : 10 ≤ n) :
    digits n = digits (n / 10) ++ [Nat.digitChar (n % 10)] :=
  Nat.toDigits_of_base_le (by decide) h

theorem digits_ne_nil (n : Nat) : digits n ≠ [] := Nat.toDigits_ne_nil

/-- Only zero starts with a zero. -/
theorem head?_digits_ne {n : Nat} (h : n ≠ 0) : (digits n).head? ≠ some '0' := by
  induction n using Nat.strong_induction_on with
  | _ n ih =>
    rcases Nat.lt_or_ge n 10 with hlt | hge
    · have hsmall : ∀ k < 10, k ≠ 0 → (digits k).head? ≠ some '0' := by decide
      exact hsmall n hlt h
    · obtain ⟨c, cs, hcons⟩ := List.exists_cons_of_ne_nil (digits_ne_nil (n / 10))
      have hhead := ih (n / 10) (by omega) (by omega)
      rw [hcons] at hhead
      rwa [digits_eq hge, hcons]

end Size

namespace Json

/-- A run of digits is taken as a whole from a text that goes on with no digit. -/
theorem takeWhile_isDigit_append {ds rest : List Char} (hds : ∀ c ∈ ds, c.isDigit = true)
    (hrest : ∀ c ∈ rest.head?, c.isDigit = false) :
    (ds ++ rest).takeWhile Char.isDigit = ds ∧ (ds ++ rest).dropWhile Char.isDigit = rest := by
  rw [List.takeWhile_append_of_pos hds, List.dropWhile_append_of_pos hds]
  cases rest with
  | nil => simp
  | cons c cs => simp [hrest c rfl]

/-! ### Proper numerals -/

namespace Numeral

/-- **A numeral as JSON has it**: digits before the point, no zero in front of other digits, and
digits in an exponent. -/
structure Proper (n : Numeral) : Prop where
  whole_ne_nil : n.whole ≠ []
  isDigit_whole : ∀ c ∈ n.whole, c.isDigit = true
  whole_eq_zero : n.whole.head? = some '0' → n.whole = ['0']
  isDigit_fraction : ∀ c ∈ n.fraction, c.isDigit = true
  exponent : ∀ s ds, n.exponent = some (s, ds) → ds ≠ [] ∧ ∀ c ∈ ds, c.isDigit = true

/-- What is written after the whole part. -/
def fractionText (n : Numeral) : List Char := if n.fraction.isEmpty then [] else '.' :: n.fraction

/-- What is written at the end. -/
def exponentText (n : Numeral) : List Char :=
  match n.exponent with
  | none => []
  | some (negative, ds) => 'e' :: (if negative then '-' else '+') :: ds

theorem text_eq (n : Numeral) : n.text =
    (if n.negative then ['-'] else []) ++ (n.whole ++ (n.fractionText ++ n.exponentText)) := by
  show ((_ ++ n.whole) ++ n.fractionText) ++ n.exponentText = _
  simp only [List.append_assoc]

theorem digits_whole_eq_zero {n : Nat} (h : (Size.digits n).head? = some '0') :
    Size.digits n = ['0'] := by
  have hzero : n = 0 := by_contra fun hn ↦ Size.head?_digits_ne hn h
  rw [hzero]
  rfl

theorem proper_ofDigits (negative : Bool) (n : Nat) :
    Proper ⟨negative, Size.digits n, [], none⟩ where
  whole_ne_nil := Size.digits_ne_nil n
  isDigit_whole _ := Size.isDigit_of_mem_digits
  whole_eq_zero := digits_whole_eq_zero
  isDigit_fraction _ h := nomatch h
  exponent _ _ h := nomatch h

theorem proper_ofInt (i : Int) : (ofInt i).Proper := proper_ofDigits _ _

theorem proper_ofNat (n : Nat) : (ofNat n).Proper := proper_ofDigits _ _

end Numeral

/-- A number does not go on with this text. -/
def Apart (rest : List Char) : Prop :=
  ∀ c ∈ rest.head?, c.isDigit = false ∧ c ≠ '.' ∧ c ≠ 'e' ∧ c ≠ 'E'

section Numbers

variable {n : Numeral} {rest : List Char}

/-- The exponent starts neither with a digit nor with a point. -/
theorem Apart.head_exponentText (hrest : Apart rest) :
    ∀ c ∈ (n.exponentText ++ rest).head?, c.isDigit = false ∧ c ≠ '.' := by
  intro c hc
  rcases hn : n.exponent with _ | ⟨s, ds⟩ <;> simp only [Numeral.exponentText, hn] at hc
  · exact ⟨(hrest c hc).1, (hrest c hc).2.1⟩
  · cases hc
    decide

/-- The whole part ends before what is written after it. -/
theorem Apart.head_fractionText (hrest : Apart rest) :
    ∀ c ∈ (n.fractionText ++ (n.exponentText ++ rest)).head?, c.isDigit = false := by
  intro c hc
  rcases hn : n.fraction with _ | ⟨d, ds⟩ <;> simp only [Numeral.fractionText, hn] at hc
  · exact (hrest.head_exponentText c hc).1
  · cases hc
    decide

theorem scanExponent_exponentText (h : n.Proper) (hrest : Apart rest) :
    scanExponent { n with exponent := none } (n.exponentText ++ rest) = (.number n, rest) := by
  rcases n with ⟨negative, whole, fraction, _ | ⟨s, ds⟩⟩
  · cases rest with
    | nil => rfl
    | cons c cs =>
      have hc := hrest c rfl
      simp [Numeral.exponentText, scanExponent, hc.2.2.1, hc.2.2.2]
  · obtain ⟨hne, hds⟩ := h.exponent s ds rfl
    obtain ⟨htake, hdrop⟩ := takeWhile_isDigit_append hds fun c hc ↦ (hrest c hc).1
    have hempty : ds.isEmpty = false := List.isEmpty_eq_false_iff.2 hne
    cases s <;>
      simp [Numeral.exponentText, scanExponent, takeSign, htake, hdrop, hempty]

theorem scanFraction_fractionText (h : n.Proper) (hrest : Apart rest) :
    scanFraction { n with fraction := [], exponent := none }
      (n.fractionText ++ (n.exponentText ++ rest)) = (.number n, rest) := by
  have hexponent := scanExponent_exponentText h hrest
  cases hfraction : n.fraction with
  | nil =>
    have hn : { n with fraction := [], exponent := none } = { n with exponent := none } := by
      rw [← hfraction]
    rw [Numeral.fractionText, hfraction, List.isEmpty_nil, if_pos rfl, List.nil_append, hn,
      scanFraction, hexponent]
    rintro cs hcs
    exact (hrest.head_exponentText '.' (by rw [hcs]; rfl)).2 rfl
  | cons c cs =>
    obtain ⟨htake, hdrop⟩ := takeWhile_isDigit_append h.isDigit_fraction
      fun c hc ↦ (hrest.head_exponentText c hc).1
    have htext : n.fractionText ++ (n.exponentText ++ rest) =
        '.' :: (n.fraction ++ (n.exponentText ++ rest)) := by
      simp [Numeral.fractionText, hfraction]
    have hempty : n.fraction.isEmpty = false := by simp [hfraction]
    rw [htext, scanFraction, htake, hdrop, hempty, if_neg (by decide), hexponent]

theorem scanNumber_whole (h : n.Proper) (hrest : Apart rest) :
    scanNumber n.negative (n.whole ++ (n.fractionText ++ (n.exponentText ++ rest))) =
      (.number n, rest) := by
  obtain ⟨htake, hdrop⟩ := takeWhile_isDigit_append h.isDigit_whole hrest.head_fractionText
  have hfraction := scanFraction_fractionText h hrest
  have hzero : ∀ c cs, n.whole ≠ '0' :: c :: cs := by
    intro c cs hcons
    have hwhole := h.whole_eq_zero (by rw [hcons]; rfl)
    rw [hcons] at hwhole
    cases hwhole
  rw [scanNumber, htake, hdrop]
  split
  · rename_i hnil
    exact absurd hnil h.whole_ne_nil
  · rename_i c cs hcons
    exact absurd hcons (hzero c cs)
  · exact hfraction

end Numbers

/-! ### Tokens of numbers and strings -/

namespace Token

theorem scan_of_first {c : Char} {cs rest : List Char} {t : Token} (hc : isBlank c = false)
    (h : first c cs = (t, rest)) : scan (c :: cs) = t :: scan rest := by
  rw [scan, hc, if_neg (by decide), h]

theorem first_of_isDigit {c : Char} (hc : c.isDigit = true) (cs : List Char) :
    first c cs = scanNumber false (c :: cs) := by
  unfold first
  split
  case h_12 => rw [if_pos hc]
  all_goals exact absurd hc (by decide)

theorem isBlank_of_isDigit {c : Char} (hc : c.isDigit = true) : isBlank c = false := by
  rw [isBlank, Bool.eq_false_iff]
  intro h
  simp only [Bool.or_eq_true, beq_iff_eq] at h
  rcases h with ((rfl | rfl) | rfl) | rfl <;> exact absurd hc (by decide)

/-- **A number is one token**, wherever the text does not go on with it. -/
theorem scan_text {n : Numeral} (h : n.Proper) {rest : List Char} (hrest : Apart rest) :
    scan (n.text ++ rest) = .number n :: scan rest := by
  have hnumber := scanNumber_whole h hrest
  rw [Numeral.text_eq, List.append_assoc, List.append_assoc, List.append_assoc]
  cases hnegative : n.negative with
  | true =>
    rw [hnegative] at hnumber
    exact scan_of_first rfl hnumber
  | false =>
    obtain ⟨c, cs, hwhole⟩ := List.exists_cons_of_ne_nil h.whole_ne_nil
    have hc : c.isDigit = true := h.isDigit_whole c (by rw [hwhole]; exact List.mem_cons_self ..)
    rw [hnegative, hwhole] at hnumber
    rw [hwhole]
    exact scan_of_first (isBlank_of_isDigit hc) ((first_of_isDigit hc _).trans hnumber)

end Token

/-- The part of a string literal that a character is written as. -/
def Piece.ofChar (c : Char) : Piece :=
  if c.toNat < 0x20 ∧ c ∉ ['\x08', '\x0c', '\n', '\r', '\t'] then .unit c.toNat else .char c

theorem hexValue?_hexDigit {n : Nat} (h : n < 16) : hexValue? (Tree.hexDigit n) = some n := by
  have hall : ∀ k < 16, hexValue? (Tree.hexDigit k) = some k := by decide
  exact hall n h

theorem scanString_escape (c : Char) (cs : List Char) :
    scanString .plain (Tree.escape c ++ cs) =
      (scanString .plain cs).map (Piece.ofChar c :: ·) id := by
  unfold Tree.escape
  -- The characters that have an escape of one letter.
  iterate 7
    split
    · subst_vars
      rfl
  split
  · rename_i hb hf hn hr ht hcontrol
    have hpiece : Piece.ofChar c = .unit c.toNat := if_pos ⟨hcontrol, by simp [hb, hf, hn, hr, ht]⟩
    have hzero : hexValue? '0' = some 0 := by decide
    have hhigh := hexValue?_hexDigit (n := c.toNat / 16) (by omega)
    have hlow := hexValue?_hexDigit (n := c.toNat % 16) (by omega)
    have hvalue : c.toNat / 16 * 16 + c.toNat % 16 = c.toNat := by omega
    simp [scanString, hzero, hhigh, hlow, hvalue, hpiece]
  · rename_i hquote hslash _ _ _ _ _ hcontrol
    have hpiece : Piece.ofChar c = .char c := if_neg fun h ↦ hcontrol h.1
    rw [hpiece, List.singleton_append, scanString, if_neg hquote, if_neg hslash, if_neg hcontrol]

theorem scanString_flatMap_escape (cs rest : List Char) :
    scanString .plain (cs.flatMap Tree.escape ++ '"' :: rest) =
      (cs.map Piece.ofChar, .ok rest) := by
  induction cs with
  | nil => rfl
  | cons c cs ih =>
    rw [List.flatMap_cons, List.append_assoc, scanString_escape, ih]
    rfl

theorem join_map_ofChar (cs : List Char) :
    Piece.join none (cs.map Piece.ofChar) = some (cs, false) := by
  induction cs with
  | nil => rfl
  | cons c cs ih =>
    rw [List.map_cons, Piece.ofChar]
    split
    · rename_i hcontrol
      have hhigh : isHighSurrogate c.toNat = false := by
        rw [isHighSurrogate, decide_eq_false_iff_not]
        omega
      have hlow : isLowSurrogate c.toNat = false := by
        rw [isLowSurrogate, decide_eq_false_iff_not]
        omega
      simp [Piece.join, hhigh, hlow, ih]
    · simp [Piece.join, ih]

/-- **A string is one token**, whatever follows it. -/
theorem Token.scan_quote (s : String) (rest : List Char) :
    scan (Tree.quote s ++ rest) = .string (some s) :: scan rest := by
  have htext : Tree.quote s ++ rest = '"' :: (s.toList.flatMap Tree.escape ++ '"' :: rest) := by
    simp [Tree.quote]
  have hfirst : first '"' (s.toList.flatMap Tree.escape ++ '"' :: rest) =
      (.string (some s), rest) := by
    show ofPieces (scanString .plain _).1 (scanString .plain _).2 = _
    rw [scanString_flatMap_escape]
    simp [ofPieces, join_map_ofChar]
  rw [htext]
  exact scan_of_first rfl hfirst

end Json

/-! ### Numerals of floating-point numbers -/

namespace Binary

theorem Decimal.digits_strip_ne_zero {d : Decimal} (h : d.digits ≠ 0) : d.strip.digits ≠ 0 := by
  fun_induction Decimal.strip d with
  | case1 d hzero => exact absurd hzero h
  | case2 d hzero hten ih => exact ih (by show d.digits / 10 ≠ 0; omega)
  | case3 d hzero hten => exact h

/-- No decimal zero lies in an interval above zero. -/
theorem Interval.not_contains_zero {i : Interval} (hi : 0 < i.low) {den : Nat} (hden : 0 < den) :
    i.contains 0 den = false := by
  have hpos : 0 < i.low * den := Nat.mul_pos hi hden
  rw [Interval.contains]
  split <;> simp only [decide_eq_false_iff_not] <;> omega

theorem scaleDown_zero {den : Nat} (hden : 0 < den) (e : Int) :
    (scaleDown 0 den e).1 = 0 ∧ 0 < (scaleDown 0 den e).2 := by
  have hpow (n : Nat) : 0 < Nat.pow 2 n := Nat.pow_pos (by decide)
  rw [scaleDown]
  split
  · exact ⟨rfl, Nat.mul_pos hden (hpow _)⟩
  · exact ⟨Nat.zero_mul _, hden⟩

theorem scaledDecimal_zero (k e : Int) :
    (scaledDecimal 0 k e).1 = 0 ∧ 0 < (scaledDecimal 0 k e).2 := by
  have hpow (n : Nat) : 0 < Nat.pow 10 n := Nat.pow_pos (by decide)
  by_cases hk : 0 ≤ k
  · have hscaled : scaledDecimal 0 k e = scaleDown 0 1 (e - 2) := by
      rw [scaledDecimal, if_pos hk, Nat.zero_mul]
    rw [hscaled]
    exact scaleDown_zero Nat.one_pos _
  · have hscaled : scaledDecimal 0 k e = scaleDown 0 (Nat.pow 10 (-k).toNat) (e - 2) := by
      rw [scaledDecimal, if_neg hk]
    rw [hscaled]
    exact scaleDown_zero (hpow _) _

theorem onGrid?_ne_zero {i : Interval} (hi : 0 < i.low) {m : Nat} {e k : Int} {d : Decimal}
    (h : onGrid? i m e k = some d) : d.digits ≠ 0 := by
  intro hzero
  have hfits (n : Nat) (hn : i.contains (scaledDecimal n k e).1 (scaledDecimal n k e).2 = true) :
      n ≠ 0 := by
    rintro rfl
    rw [(scaledDecimal_zero k e).1, Interval.not_contains_zero hi (scaledDecimal_zero k e).2] at hn
    cases hn
  -- Whichever of its two grid points is taken was seen to lie in the interval.
  obtain ⟨nearer, other, hgrid⟩ : ∃ nearer other : Nat, onGrid? i m e k =
      if i.contains (scaledDecimal nearer k e).1 (scaledDecimal nearer k e).2 then some ⟨nearer, k⟩
      else if i.contains (scaledDecimal other k e).1 (scaledDecimal other k e).2 then
        some ⟨other, k⟩
      else none := ⟨_, _, rfl⟩
  rw [hgrid] at h
  split at h
  · rename_i hnearer
    rw [← Option.some.inj h] at hzero
    exact hfits _ hnearer hzero
  · split at h
    · rename_i hother
      rw [← Option.some.inj h] at hzero
      exact hfits _ hother hzero
    · cases h

theorem Format.low_interval_pos (f : Format) {m : Nat} (hm : m ≠ 0) (e : Int) :
    0 < (f.interval m e).low := by
  rw [interval]
  dsimp only
  split <;> omega

theorem ratio_ne_zero {m : Nat} (hm : m ≠ 0) (e : Int) : (ratio m e).1 ≠ 0 := by
  have hpow (n : Nat) : Nat.pow 2 n ≠ 0 := Nat.pos_iff_ne_zero.1 (Nat.pow_pos (by decide))
  rw [ratio, scaleDown]
  split
  · exact hm
  · exact Nat.mul_ne_zero hm (hpow _)

/-- **The shortest decimal of a number other than zero is not zero.** -/
theorem Format.digits_shortest (f : Format) {m : Nat} (hm : m ≠ 0) (e : Int) :
    (f.shortest m e).digits ≠ 0 := by
  have hgrids (grids : List Int) :
      ((grids.findSome? (onGrid? (f.interval m e) m e)).getD ⟨(ratio m e).1, 0⟩).digits ≠ 0 := by
    cases hfound : grids.findSome? (onGrid? (f.interval m e) m e) with
    | none => exact ratio_ne_zero hm e
    | some d =>
      obtain ⟨k, -, hk⟩ := List.exists_of_findSome?_eq_some hfound
      exact onGrid?_ne_zero (f.low_interval_pos hm e) hk
  exact Decimal.digits_strip_ne_zero (hgrids _)

end Binary

namespace Json.Numeral

/-- A beginning of the digits of a number other than zero. -/
theorem take_digits {n k : Nat} (hn : n ≠ 0) (hk : 0 < k) :
    ((Size.digits n).take k) ≠ [] ∧ ((Size.digits n).take k).head? ≠ some '0' := by
  obtain ⟨c, cs, hcons⟩ := List.exists_cons_of_ne_nil (Size.digits_ne_nil n)
  obtain ⟨j, rfl⟩ := Nat.exists_eq_succ_of_ne_zero hk.ne'
  have hhead := Size.head?_digits_ne hn
  rw [hcons] at hhead ⊢
  exact ⟨List.cons_ne_nil _ _, hhead⟩

/-- The positional text of a decimal: digits and a point, with no zero in front of other digits. -/
theorem positional_eq (d : Binary.Decimal) (hd : d.digits ≠ 0 ∨ d.exponent = 0) :
    ∃ whole fraction, d.positional true = whole ++ '.' :: fraction ∧ whole ≠ [] ∧
      (∀ c ∈ whole, c.isDigit = true) ∧ (whole.head? = some '0' → whole = ['0']) ∧
      ∀ c ∈ fraction, c.isDigit = true := by
  have hdigits {c : Char} (hc : c ∈ Size.digits d.digits) : c.isDigit = true :=
    Size.isDigit_of_mem_digits hc
  have hzeros {n : Nat} {c : Char} (hc : c ∈ List.replicate n '0') : c.isDigit = true := by
    rw [List.eq_of_mem_replicate hc]
    rfl
  by_cases hexponent : 0 ≤ d.exponent
  · refine ⟨Size.digits d.digits ++ List.replicate d.exponent.toNat '0', ['0'], ?_, ?_, ?_, ?_, ?_⟩
    · rw [Binary.Decimal.positional, if_pos hexponent]
      rfl
    · exact List.append_ne_nil_of_left_ne_nil (Size.digits_ne_nil _) _
    · intro c hc
      exact (List.mem_append.1 hc).elim hdigits hzeros
    · intro hhead
      rcases hd with hd | hd
      · obtain ⟨c, cs, hcons⟩ := List.exists_cons_of_ne_nil (Size.digits_ne_nil d.digits)
        have hne := Size.head?_digits_ne hd
        rw [hcons] at hhead hne
        exact absurd hhead hne
      · rw [hd] at hhead ⊢
        simp only [Int.toNat_zero, List.replicate_zero, List.append_nil] at hhead ⊢
        exact digits_whole_eq_zero hhead
    · simp
  · have hd : d.digits ≠ 0 := hd.resolve_right fun h ↦ hexponent (by omega)
    by_cases hplaces : (Size.digits d.digits).length ≤ (-d.exponent).toNat
    · refine ⟨['0'], List.replicate ((-d.exponent).toNat - (Size.digits d.digits).length) '0' ++
        Size.digits d.digits, ?_, by simp, by simp, by simp, ?_⟩
      · rw [Binary.Decimal.positional, if_neg hexponent, if_pos hplaces]
        rfl
      · intro c hc
        exact (List.mem_append.1 hc).elim hzeros hdigits
    · obtain ⟨k, hk⟩ : ∃ k, k = (Size.digits d.digits).length - (-d.exponent).toNat := ⟨_, rfl⟩
      obtain ⟨hne, hhead⟩ := take_digits (k := k) hd (by omega)
      refine ⟨(Size.digits d.digits).take k, (Size.digits d.digits).drop k, ?_, hne, ?_,
        fun h ↦ absurd h hhead, ?_⟩
      · rw [Binary.Decimal.positional, if_neg hexponent, if_neg hplaces, hk]
      · exact fun c hc ↦ hdigits (List.mem_of_mem_take hc)
      · exact fun c hc ↦ hdigits (List.mem_of_mem_drop hc)

/-- **The numeral of a finite floating-point number is proper.** -/
theorem proper_ofBinary? {f : Binary.Format} {x : Binary} {n : Numeral}
    (h : ofBinary? f x = some n) : n.Proper := by
  cases x with
  | infinite s => cases h
  | nan => cases h
  | finite s m e =>
    have hd : ∃ d : Binary.Decimal, (d.digits ≠ 0 ∨ d.exponent = 0) ∧
        d = if m = 0 then ⟨0, 0⟩ else f.shortest m e := by
      by_cases hm : m = 0
      · exact ⟨⟨0, 0⟩, .inr rfl, by rw [if_pos hm]⟩
      · exact ⟨f.shortest m e, .inl (f.digits_shortest hm e), by rw [if_neg hm]⟩
    obtain ⟨d, hproper, hd⟩ := hd
    simp only [ofBinary?, ← hd] at h
    split at h
    · obtain ⟨whole, fraction, hpositional, hne, hwhole, hzero, hfraction⟩ :=
        positional_eq d hproper
      have hpoint : ∀ c ∈ ('.' :: fraction).head?, c.isDigit = false := by simp
      obtain ⟨htake, hdrop⟩ := takeWhile_isDigit_append hwhole hpoint
      rw [hpositional, htake, hdrop] at h
      cases h
      exact ⟨hne, hwhole, hzero, hfraction, nofun⟩
    · cases h
      have hne := Size.digits_ne_nil d.digits
      have hdigit {c : Char} (hc : c ∈ Size.digits d.digits) : c.isDigit = true :=
        Size.isDigit_of_mem_digits hc
      obtain ⟨c, cs, hcons⟩ := List.exists_cons_of_ne_nil hne
      have htake : (Size.digits d.digits).take 1 = [c] := by rw [hcons]; rfl
      refine ⟨by simp [htake], fun c hc ↦ hdigit (List.mem_of_mem_take hc), ?_,
        fun c hc ↦ hdigit (List.mem_of_mem_drop hc), ?_⟩
      · rw [htake]
        simp
      · intro s ds hds
        cases hds
        exact ⟨Size.digits_ne_nil _, fun c hc ↦ Size.isDigit_of_mem_digits hc⟩

end Json.Numeral

end CitedAnswers

import CitedAnswers.Proofs.Labels
import CitedAnswers.Proofs.Markers

/-!
# Texts with a label

A text carries the label of a number if it begins with `Source `, an optional sign, a numeral of
that number and a colon at the end of the line (`Node.IsLabelled`). `Node.labels_read_back` says
that the number of a text is read exactly if the text carries its label, so nothing else is taken
for a label: no text whose first colon at the end of a line comes later, and no number that is not a
size.

The reader looks for the first colon at the end of a line, wherever it is, and only then at what
stands before it. For a text that carries a label these agree because a numeral has no colon; this
is also why a label tells its number and its chunk apart (`Node.label_inj`), however many labels the
chunk looks like.
-/

namespace CitedAnswers

open Citation.Marker (IsNumeral)

namespace Size

variable {cs ds : List Char} {n : Nat}

theorem ofDigits?_eq_some_iff :
    ofDigits? ds = some n ↔ IsNumeral ds ∧ Nat.ofDigitChars 10 ds 0 = n ∧ n < bound := by
  constructor
  · intro h
    have hds : IsNumeral ds := by
      rw [ofDigits?, valueOfDigits?] at h
      split at h
      case isTrue => cases h
      case isFalse hds =>
        simp only [Bool.or_eq_true, not_or, Bool.not_eq_true, Bool.not_eq_false', List.isEmpty_iff,
          List.all_eq_true] at hds
        exact ⟨fun hnil ↦ hds.1 hnil, hds.2⟩
    rw [hds.ofDigits?, Option.filter_eq_some_iff] at h
    exact ⟨hds, Option.some.inj h.1, of_decide_eq_true h.2⟩
  · rintro ⟨hds, rfl, hlt⟩
    rw [hds.ofDigits?, Option.filter_eq_some_iff]
    exact ⟨rfl, decide_eq_true hlt⟩

/-- A size is read from a numeral with at most one sign in front. -/
theorem read?_eq_some_iff :
    read? cs = some n ↔ ∃ ds, (cs = ds ∨ cs = '+' :: ds) ∧ IsNumeral ds ∧
      Nat.ofDigitChars 10 ds 0 = n ∧ n < bound := by
  simp only [← ofDigits?_eq_some_iff]
  constructor
  · intro h
    rw [read?.eq_def] at h
    split at h
    · exact ⟨_, .inr rfl, h⟩
    · exact ⟨_, .inl rfl, h⟩
  · rintro ⟨ds, rfl | rfl, h⟩
    · rwa [(ofDigits?_eq_some_iff.1 h).1.read?]
    · exact h

end Size

namespace Node

variable {cs ds ss rest : List Char} {n : Nat}

theorem dropStart?_eq_some_iff : dropStart? ss cs = some rest ↔ cs = ss ++ rest := by
  constructor
  · intro h
    fun_induction dropStart? ss cs with
    | case1 => exact Option.some.inj h
    | case2 ss c cs ih => rw [ih h, List.cons_append]
    | case3 => cases h
    | case4 => cases h
  · rintro rfl
    exact dropStart?_append ss rest

/-- What stands before a colon at the end of a line is found in front of one. -/
theorem eq_append_of_beforeColon? (h : beforeColon? cs = some ds) :
    ∃ rest, cs = ds ++ ':' :: '\n' :: rest := by
  fun_induction beforeColon? cs generalizing ds with
  | case1 rest => exact ⟨rest, by rw [← Option.some.inj h, List.nil_append]⟩
  | case2 c cs _ ih =>
    obtain ⟨ds, hds, rfl⟩ := Option.map_eq_some_iff.1 h
    obtain ⟨rest, rfl⟩ := ih hds
    exact ⟨rest, rfl⟩
  | case3 => cases h

/-! ### Labels tell number and chunk apart -/

/-- **A label tells its number and its chunk apart.** -/
theorem label_inj {n n' : Nat} {chunk chunk' : String} (h : label n chunk = label n' chunk') :
    n = n' ∧ chunk = chunk' := by
  have hlists := String.ofList_injective h
  simp only [List.append_assoc, List.cons_append, List.append_cancel_left_eq] at hlists
  have hdigits : Size.digits n = Size.digits n' := by
    have := congrArg beforeColon? hlists
    rwa [beforeColon?_append (colon_not_mem_digits n),
      beforeColon?_append (colon_not_mem_digits n'), Option.some.injEq] at this
  have hchunks : chunk.toList ++ ['\n'] = chunk'.toList ++ ['\n'] := by
    rw [hdigits] at hlists
    simpa using hlists
  refine ⟨?_, String.toList_inj.1 (List.append_cancel_right hchunks)⟩
  have hvalue := Size.valueOfDigits?_digits n
  rw [hdigits, Size.valueOfDigits?_digits] at hvalue
  exact (Option.some.inj hvalue).symm

/-! ### What is read as a label -/

/-- **A text carries the label of a number**: a start, perhaps a sign, a numeral of the number and a
colon at the end of the line, and then anything. The number is a size. -/
def IsLabelled (n : Nat) (text : String) : Prop :=
  ∃ sign digits rest : String, text = "Source " ++ sign ++ digits ++ ":\n" ++ rest ∧
    (sign = "" ∨ sign = "+") ∧ digits ≠ "" ∧ (∀ c ∈ digits.toList, c.isDigit) ∧
    Nat.ofDigitChars 10 digits.toList 0 = n ∧ n < Size.bound

/-- **What is read as a label**, character by character. A numeral has no colon, so the first one at
the end of a line is that behind the numeral. -/
theorem numberOfLabel?_eq_some_iff :
    numberOfLabel? cs = some n ↔ ∃ sign ds rest,
      cs = labelStart ++ (sign ++ ds ++ ':' :: '\n' :: rest) ∧ (sign = [] ∨ sign = ['+']) ∧
        IsNumeral ds ∧ Nat.ofDigitChars 10 ds 0 = n ∧ n < Size.bound := by
  simp only [numberOfLabel?, Option.bind_eq_some_iff, dropStart?_eq_some_iff,
    Size.read?_eq_some_iff]
  constructor
  · rintro ⟨_, rfl, before, hbefore, ds, hsign, hds⟩
    obtain ⟨rest, rfl⟩ := eq_append_of_beforeColon? hbefore
    rcases hsign with rfl | rfl
    · exact ⟨[], _, rest, rfl, .inl rfl, hds⟩
    · exact ⟨['+'], ds, rest, rfl, .inr rfl, hds⟩
  · rintro ⟨sign, ds, rest, rfl, hsign, hds⟩
    have hcolon : ':' ∉ sign ++ ds := by
      have hnumeral : ':' ∉ ds := hds.1.not_mem (by decide)
      rcases hsign with rfl | rfl <;> simpa using hnumeral
    refine ⟨_, rfl, _, beforeColon?_append hcolon rest, ds, ?_, hds⟩
    rcases hsign with rfl | rfl
    · exact .inl rfl
    · exact .inr rfl

/-- **The number of a text** is read exactly if the text carries its label. -/
theorem citationNumber?_iff_isLabelled {m : Node} :
    m.citationNumber? = some n ↔ IsLabelled n m.text := by
  have hstart : "Source ".toList = labelStart := rfl
  have hcolon : ":\n".toList = [':', '\n'] := rfl
  rw [citationNumber?, numberOfLabel?_eq_some_iff]
  constructor
  · rintro ⟨sign, ds, rest, htext, hsign, hds, hn, hlt⟩
    refine ⟨String.ofList sign, String.ofList ds, String.ofList rest, ?_, ?_, ?_, ?_, ?_, hlt⟩
    · refine String.toList_inj.1 ?_
      simp [htext, hstart, hcolon]
    · rcases hsign with rfl | rfl
      · exact .inl rfl
      · exact .inr rfl
    · simpa using hds.ne_nil
    · simpa using hds.isDigit
    · simpa using hn
  · rintro ⟨sign, digits, rest, htext, hsign, hne, hdigits, hn, hlt⟩
    refine ⟨sign.toList, digits.toList, rest.toList, ?_, ?_, ⟨?_, hdigits⟩, hn, hlt⟩
    · simp [htext, hstart, hcolon]
    · rcases hsign with rfl | rfl
      · exact .inl rfl
      · exact .inr rfl
    · simpa using hne

/-- **Labels and their numbers.** A text that was labelled with a number is read back as that number
if it is a size, whatever the chunk; the label tells number and chunk apart; and the number of a
text is read exactly if the text carries its label, so any other text has none. -/
theorem labels_read_back :
    (∀ (n : Nat) (chunk : String) (m : Node),
      ({ m with text := label n chunk } : Node).citationNumber? =
        if n < Size.bound then some n else none) ∧
    (Function.Injective fun p : Nat × String ↦ label p.1 p.2) ∧
    ∀ m : Node, (∀ n, m.citationNumber? = some n ↔ IsLabelled n m.text) ∧
      (m.citationNumber? = none ↔ ∀ n, ¬ IsLabelled n m.text) := by
  refine ⟨fun n chunk m ↦ citationNumber?_label rfl, fun p q h ↦ ?_, fun m ↦
    ⟨fun n ↦ citationNumber?_iff_isLabelled, ?_⟩⟩
  · obtain ⟨hnumber, hchunk⟩ := label_inj h
    exact Prod.ext hnumber hchunk
  · simp only [← citationNumber?_iff_isLabelled, Option.eq_none_iff_forall_ne_some, ne_eq]

end Node

end CitedAnswers

import CitedAnswers.Node

/-!
# Labels are read back

The label of a numbered source is read back as its number, whatever the chunk after it is: digits
hold no colon, so the first colon at the end of a line is that of the label
(`Node.citationNumber?_label`). A number is read back as long as it is a size.
-/

namespace CitedAnswers

namespace Size

theorem isDigit_of_mem_digits {n : Nat} {c : Char} (h : c ∈ digits n) : c.isDigit :=
  Nat.isDigit_of_mem_toDigits (by decide) (by decide) h

theorem valueOfDigits?_digits (n : Nat) : valueOfDigits? (digits n) = some n := by
  have hne : (digits n).isEmpty = false := List.isEmpty_eq_false_iff.2 Nat.toDigits_ne_nil
  have hall : (digits n).all Char.isDigit = true :=
    List.all_eq_true.2 fun _ ↦ isDigit_of_mem_digits
  rw [valueOfDigits?, hne, hall, digits, Nat.ofDigitChars_ten_toDigits]
  rfl

/-- **A number is read back** if it is a size. -/
theorem read?_digits (n : Nat) : read? (digits n) = if n < bound then some n else none := by
  have h : ofDigits? (digits n) = if n < bound then some n else none := by
    rw [ofDigits?, valueOfDigits?_digits, Option.filter_some]
    simp only [decide_eq_true_eq]
  rw [read?]
  · exact h
  · -- A sign is no digit.
    intro cs hcs
    have := isDigit_of_mem_digits (hcs ▸ List.mem_cons_self .. : '+' ∈ digits n)
    revert this
    decide

end Size

namespace Node

theorem dropStart?_append (ss cs : List Char) : dropStart? ss (ss ++ cs) = some cs := by
  induction ss with
  | nil => cases cs <;> rfl
  | cons s ss ih => rw [List.cons_append, dropStart?, if_pos rfl, ih]

/-- Text without a colon is not looked into for the end of the label. -/
theorem beforeColon?_append {ds : List Char} (h : ':' ∉ ds) (cs : List Char) :
    beforeColon? (ds ++ ':' :: '\n' :: cs) = some ds := by
  induction ds with
  | nil => rfl
  | cons d ds ih =>
    have hd : d ≠ ':' := fun hd ↦ h (hd ▸ List.mem_cons_self ..)
    rw [List.cons_append, beforeColon?, ih fun hm ↦ h (List.mem_cons_of_mem _ hm), Option.map_some]
    rintro _ rfl
    exact absurd rfl hd

/-- A label as it is written. -/
theorem label_eq (n : Nat) (chunk : String) :
    label n chunk = "Source " ++ toString n ++ ":\n" ++ chunk ++ "\n" := by
  have hstart : "Source ".toList = labelStart := rfl
  have hcolon : ":\n".toList = [':', '\n'] := rfl
  have hend : "\n".toList = ['\n'] := rfl
  refine String.toList_inj.1 ?_
  simp only [label, String.toList_ofList, String.toList_append, hstart, hcolon, hend,
    Nat.toString_eq_ofList_toDigits, Size.digits, List.append_assoc, List.cons_append,
    List.nil_append]

theorem colon_not_mem_digits (n : Nat) : ':' ∉ Size.digits n := by
  intro h
  have := Size.isDigit_of_mem_digits h
  revert this
  decide

/-- **The label is read back.** -/
theorem citationNumber?_label {n : Node} {k : Nat} {chunk : String} (h : n.text = label k chunk) :
    n.citationNumber? = if k < Size.bound then some k else none := by
  rw [citationNumber?, h, label, String.toList_ofList, numberOfLabel?, List.append_assoc,
    List.append_assoc, dropStart?_append, Option.bind_some, List.cons_append, List.cons_append,
    beforeColon?_append (colon_not_mem_digits k), Option.bind_some, Size.read?_digits]

end Node

end CitedAnswers

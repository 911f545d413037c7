/-!
# Ascending lists

Sets of numbers as ascending lists without repeats.
-/

namespace CitedAnswers.Ascending

/-- Adds a number to an ascending list without repeats. -/
def insert (n : Nat) : List Nat → List Nat
  | [] => [n]
  | k :: ks => if n < k then n :: k :: ks else if n = k then k :: ks else k :: insert n ks

/-- The numbers of a list, ascending and without repeats. -/
def ofList (ns : List Nat) : List Nat := ns.foldr insert []

theorem mem_insert {m n : Nat} {ks : List Nat} : m ∈ insert n ks ↔ m = n ∨ m ∈ ks := by
  induction ks with
  | nil => simp [insert]
  | cons k ks ih =>
    simp only [insert]
    split
    · simp
    · split
      · simp_all
      · simp only [List.mem_cons, ih]
        constructor
        · rintro (h | h | h) <;> simp [h]
        · rintro (h | h | h) <;> simp [h]

@[simp]
theorem mem_ofList {m : Nat} {ns : List Nat} : m ∈ ofList ns ↔ m ∈ ns := by
  induction ns with
  | nil => simp [ofList]
  | cons n ns ih =>
    simp only [ofList, List.foldr_cons, mem_insert, List.mem_cons]
    exact or_congr Iff.rfl ih

theorem pairwise_insert {n : Nat} {ks : List Nat} (h : ks.Pairwise (· < ·)) :
    (insert n ks).Pairwise (· < ·) := by
  induction ks with
  | nil => simp [insert]
  | cons k ks ih =>
    rw [List.pairwise_cons] at h
    simp only [insert]
    split
    · rename_i hn
      refine List.pairwise_cons.2 ⟨fun m hm ↦ ?_, List.pairwise_cons.2 h⟩
      rcases List.mem_cons.1 hm with rfl | hm
      · exact hn
      · exact Nat.lt_trans hn (h.1 m hm)
    · split
      · exact List.pairwise_cons.2 h
      · refine List.pairwise_cons.2 ⟨fun m hm ↦ ?_, ih h.2⟩
        rcases mem_insert.1 hm with rfl | hm
        · omega
        · exact h.1 m hm

theorem pairwise_ofList (ns : List Nat) : (ofList ns).Pairwise (· < ·) := by
  induction ns with
  | nil => exact List.Pairwise.nil
  | cons n ns ih => exact pairwise_insert ih

end CitedAnswers.Ascending

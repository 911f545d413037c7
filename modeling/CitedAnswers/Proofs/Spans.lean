import CitedAnswers.Chunking.Chunk

/-!
# Chunks that give their text back

Chunks are **lossless** for a text if leaving out what each repeats and joining the rest gives the
text back (`Lossless`). Chunks of spans are lossless as soon as the spans cover the text without a
gap (`Covers`), however much they overlap: a span may even lie within those before it.

The induction is on the spans, and carries that what the chunks still to come give back is the text
from `covered` on (`Chunk.rejoin_ofSpansFrom`). All else that `Lossless` asks for holds of the
chunks of any spans.
-/

namespace CitedAnswers.Chunking

/-- The spans cover a text of `n` characters, of which earlier ones reach up to `covered`: each
begins no later than where those before it end, and the furthest end is that of the text. -/
def Covers (n covered : Nat) : List Span → Prop
  | [] => covered = n
  | s :: ss =>
    s.start ≤ covered ∧ s.start < s.stop ∧ s.stop ≤ n ∧ Covers n (max covered s.stop) ss

/-- **The chunks of a text are lossless.** -/
structure Lossless (cs : List Char) (chunks : List Chunk) : Prop where
  /-- Leaving out what each chunk repeats and joining the rest gives the text back. -/
  rejoin : Chunk.rejoin chunks = cs
  /-- The first chunk repeats nothing. -/
  head : ∀ c ∈ chunks.head?, c.overlap = 0
  /-- Each chunk stands in the text. -/
  contiguous : ∀ c ∈ chunks, c.text.toList <:+: cs
  /-- No chunk repeats more than it has. -/
  overlap_le : ∀ c ∈ chunks, c.overlap ≤ c.length
  /-- Only the empty text has no chunks. -/
  nil_iff : chunks = [] ↔ cs = []

namespace Chunk

variable {cs : List Char}

/-- A chunk followed by the text from the furthest end on is the text from the furthest end before
it on. -/
theorem drop_overlap_append_drop {covered start stop : Nat} (hc : covered ≤ cs.length)
    (hs : start ≤ covered) (hss : start < stop) (hn : stop ≤ cs.length) :
    ((cs.drop start).take (stop - start)).drop
        (min (covered - start) ((cs.drop start).take (stop - start)).length) ++
      cs.drop (max covered stop) = cs.drop covered := by
  have hl : ((cs.drop start).take (stop - start)).length = stop - start := by
    rw [List.length_take, List.length_drop]
    omega
  rw [hl]
  rcases Nat.le_total stop covered with h | h
  · rw [Nat.min_eq_right (by omega), List.drop_of_length_le (by omega), Nat.max_eq_left h,
      List.nil_append]
  · have hd : cs.drop stop = (cs.drop covered).drop (stop - covered) := by
      rw [List.drop_drop, Nat.add_sub_cancel' h]
    rw [Nat.min_eq_left (by omega), List.drop_take, List.drop_drop, Nat.add_sub_cancel' hs,
      Nat.max_eq_right h, hd, show stop - start - (covered - start) = stop - covered by omega,
      List.take_append_drop]

/-- **Chunks give back** the text from the furthest end before them on. -/
theorem rejoin_ofSpansFrom {covered : Nat} {ss : List Span} (hc : covered ≤ cs.length)
    (h : Covers cs.length covered ss) : rejoin (ofSpansFrom cs covered ss) = cs.drop covered := by
  induction ss generalizing covered with
  | nil => rw [show covered = cs.length from h, List.drop_length, ofSpansFrom, rejoin,
      List.flatMap_nil]
  | cons s ss ih =>
    obtain ⟨hs, hss, hn, hmore⟩ := h
    have ih := ih (Nat.max_le.2 ⟨hc, hn⟩) hmore
    rw [rejoin] at ih ⊢
    rw [ofSpansFrom, List.flatMap_cons, ih, fresh, String.toList_ofList]
    exact drop_overlap_append_drop hc hs hss hn

theorem exists_span_of_mem {covered : Nat} {ss : List Span} {c : Chunk}
    (h : c ∈ ofSpansFrom cs covered ss) :
    ∃ s ∈ ss, c.text.toList = (cs.drop s.start).take (s.stop - s.start) ∧ c.overlap ≤ c.length := by
  induction ss generalizing covered with
  | nil => cases h
  | cons s ss ih =>
    rcases List.mem_cons.1 h with rfl | h
    · refine ⟨s, List.mem_cons_self .., String.toList_ofList, ?_⟩
      rw [length, String.length_ofList]
      exact Nat.min_le_right ..
    · obtain ⟨s', hs', h⟩ := ih h
      exact ⟨s', List.mem_cons_of_mem _ hs', h⟩

theorem overlap_of_mem_head? {ss : List Span} {c : Chunk} (h : c ∈ (ofSpans cs ss).head?) :
    c.overlap = 0 := by
  cases ss with
  | nil => cases h
  | cons s ss =>
    cases h
    rw [Nat.zero_sub, Nat.zero_min]

theorem ofSpans_eq_nil_iff {ss : List Span} : ofSpans cs ss = [] ↔ ss = [] := by
  cases ss <;> simp [ofSpans, ofSpansFrom]

/-- **Chunks of covering spans are lossless.** -/
theorem lossless_ofSpans {ss : List Span} (h : Covers cs.length 0 ss) :
    Lossless cs (ofSpans cs ss) where
  rejoin := rejoin_ofSpansFrom (Nat.zero_le _) h
  head _ hc := overlap_of_mem_head? hc
  contiguous c hc := by
    obtain ⟨s, -, hs, -⟩ := exists_span_of_mem hc
    rw [hs]
    exact (List.take_prefix ..).isInfix.trans (List.drop_suffix ..).isInfix
  overlap_le c hc := by
    obtain ⟨s, -, -, hs⟩ := exists_span_of_mem hc
    exact hs
  nil_iff := by
    rw [ofSpans_eq_nil_iff]
    constructor
    · rintro rfl
      exact List.length_eq_zero_iff.1 (Eq.symm h)
    · rintro rfl
      cases ss with
      | nil => rfl
      | cons s ss =>
        obtain ⟨-, hss, hn, -⟩ := h
        exact absurd (Nat.lt_of_lt_of_le hss hn) (Nat.not_lt_zero _)

end Chunk

end CitedAnswers.Chunking

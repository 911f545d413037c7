import CitedAnswers.Chunking.Splitter
import CitedAnswers.Proofs.Sweep

/-!
# Splitting loses nothing

A chunker hands over the pieces of a text with their offsets in bytes, and splitting makes chunks of
them: it keeps the furthest end so far, and counts the characters between the offset of a piece and
that end by slicing the text there. A slice can go wrong, beyond the end of the text or within a
character, so `Piece.chunks?` may come to nothing.

Two things are shown of it. Pieces that cover the text never make it fail and always give lossless
chunks (`Piece.exists_chunks`), wherever they come from; and the chunks of a window are the ones it
makes of the window's own pieces, which do cover the text. `Sliding.split_lossless` says both.

The way from bytes to characters is `Unicode.byteCount` of a beginning of the text: it grows
strictly with the beginning, so that offsets compare as the characters before them do. Every piece
is that of a span of characters, and what remains to be said of spans is `Chunk.lossless_ofSpans`.
-/

namespace CitedAnswers

/-! ### Bytes and characters -/

namespace Unicode

variable {cs : List Char}

/-- A text divided after so many bytes, if a character ends there. -/
def divide? : Nat → List Char → Option (List Char × List Char)
  | 0, cs => some ([], cs)
  | _ + 1, [] => none
  | n + 1, c :: cs =>
    if c.utf8Size ≤ n + 1 then (divide? (n + 1 - c.utf8Size) cs).map fun d ↦ (c :: d.1, d.2)
    else none

/-- The part of a text between two offsets in bytes, if they are in the text, in this order, and a
character ends at each. -/
def slice? (cs : List Char) (a b : Nat) : Option (List Char) :=
  if a ≤ b then (divide? a cs).bind fun d ↦ (divide? (b - a) d.2).map Prod.fst else none

theorem divide?_byteCount (us vs : List Char) :
    divide? (byteCount us) (us ++ vs) = some (us, vs) := by
  induction us with
  | nil => cases vs <;> rfl
  | cons c us ih =>
    obtain ⟨n, hn⟩ : ∃ n, byteCount (c :: us) = n + 1 :=
      Nat.exists_eq_add_one.2 (Nat.add_pos_left c.utf8Size_pos _)
    have hrest : n + 1 - c.utf8Size = byteCount us := by
      rw [← hn, byteCount_cons, Nat.add_sub_cancel_left]
    have hle : c.utf8Size ≤ n + 1 := hn ▸ Nat.le_add_right ..
    rw [hn, List.cons_append, divide?, if_pos hle, hrest, ih]
    rfl

theorem of_divide?_eq_some {n : Nat} {us vs : List Char} (h : divide? n cs = some (us, vs)) :
    cs = us ++ vs ∧ byteCount us = n := by
  fun_induction divide? n cs generalizing us with
  | case1 cs =>
    cases h
    exact ⟨rfl, rfl⟩
  | case2 => cases h
  | case3 n c cs hc ih =>
    obtain ⟨⟨us', vs'⟩, hd, h⟩ := Option.map_eq_some_iff.1 h
    cases h
    obtain ⟨hcs, hus⟩ := ih hd
    refine ⟨congrArg (c :: ·) hcs, ?_⟩
    rw [byteCount_cons, hus]
    omega
  | case4 => cases h

/-- **What a slice is.** -/
theorem slice?_eq_some_iff {a b : Nat} {ds : List Char} :
    slice? cs a b = some ds ↔
      ∃ us vs, cs = us ++ ds ++ vs ∧ byteCount us = a ∧ a + byteCount ds = b := by
  constructor
  · intro h
    rw [slice?] at h
    split at h
    · obtain ⟨⟨us, rest⟩, hus, h⟩ := Option.bind_eq_some_iff.1 h
      obtain ⟨⟨ds', vs⟩, hds, h⟩ := Option.map_eq_some_iff.1 h
      cases h
      obtain ⟨rfl, rfl⟩ := of_divide?_eq_some hus
      obtain ⟨hrest, hn⟩ := of_divide?_eq_some hds
      dsimp only at hrest
      exact ⟨us, vs, by rw [hrest, List.append_assoc], rfl, by dsimp only; omega⟩
    · cases h
  · rintro ⟨us, vs, rfl, rfl, rfl⟩
    rw [slice?, if_pos (Nat.le_add_right ..), List.append_assoc, divide?_byteCount,
      Option.bind_some, Nat.add_sub_cancel_left, divide?_byteCount]
    rfl

theorem byteCount_take_add (cs : List Char) (i k : Nat) :
    byteCount (cs.take (i + k)) = byteCount (cs.take i) + byteCount ((cs.drop i).take k) := by
  rw [List.take_add, byteCount_append]

theorem byteCount_take_lt {i j : Nat} (h : i < j) (hj : j ≤ cs.length) :
    byteCount (cs.take i) < byteCount (cs.take j) := by
  obtain ⟨k, rfl⟩ := Nat.exists_eq_add_of_le (Nat.le_of_lt h)
  have hle := length_le_byteCount ((cs.drop i).take k)
  rw [List.length_take, List.length_drop, Nat.min_eq_left (by omega)] at hle
  rw [byteCount_take_add]
  omega

/-- **Offsets compare as the characters before them do.** -/
theorem byteCount_take_le_iff {i j : Nat} (hi : i ≤ cs.length) (hj : j ≤ cs.length) :
    byteCount (cs.take i) ≤ byteCount (cs.take j) ↔ i ≤ j := by
  rcases Nat.lt_trichotomy i j with h | rfl | h
  · exact iff_of_true (Nat.le_of_lt (byteCount_take_lt h hj)) (Nat.le_of_lt h)
  · exact iff_of_true (Nat.le_refl _) (Nat.le_refl _)
  · exact iff_of_false (Nat.not_le_of_lt (byteCount_take_lt h hi)) (Nat.not_le_of_lt h)

theorem byteCount_take_lt_iff {i j : Nat} (hi : i ≤ cs.length) (hj : j ≤ cs.length) :
    byteCount (cs.take i) < byteCount (cs.take j) ↔ i < j := by
  rw [← Nat.not_le, ← Nat.not_le, byteCount_take_le_iff hj hi]

theorem byteCount_take_max {i j : Nat} (hi : i ≤ cs.length) (hj : j ≤ cs.length) :
    byteCount (cs.take (max i j)) = max (byteCount (cs.take i)) (byteCount (cs.take j)) := by
  rcases Nat.le_total i j with h | h
  · rw [Nat.max_eq_right h, Nat.max_eq_right ((byteCount_take_le_iff hi hj).2 h)]
  · rw [Nat.max_eq_left h, Nat.max_eq_left ((byteCount_take_le_iff hj hi).2 h)]

/-- The slice between the offsets of two characters. -/
theorem slice?_take {i j : Nat} (h : i ≤ j) (hj : j ≤ cs.length) :
    slice? cs (byteCount (cs.take i)) (byteCount (cs.take j)) =
      some ((cs.drop i).take (j - i)) := by
  obtain ⟨k, rfl⟩ := Nat.exists_eq_add_of_le h
  refine slice?_eq_some_iff.2 ⟨cs.take i, cs.drop (i + k), ?_, rfl, ?_⟩
  · rw [Nat.add_sub_cancel_left, ← List.take_add, List.take_append_drop]
  · rw [Nat.add_sub_cancel_left, ← byteCount_take_add]

end Unicode

namespace Chunking

open Unicode (byteCount slice?)

/-! ### Pieces -/

/-- A piece of a text as a chunker hands it over. -/
structure Piece where
  /-- The number of bytes before it. -/
  offset : Nat
  text : List Char

namespace Piece

/-- The number of bytes up to the end of the piece. -/
def stop (p : Piece) : Nat := p.offset + byteCount p.text

/-- The number of characters that a piece repeats of earlier ones that reach up to `covered`: those
between its offset and that end, but no more than it has. The first piece repeats none. -/
def overlap? (cs : List Char) (first : Bool) (covered : Nat) (p : Piece) : Option Nat :=
  if first || decide (covered ≤ p.offset) then some 0
  else (slice? cs p.offset covered).map fun ds ↦ min ds.length p.text.length

/-- The chunks of pieces, of which earlier ones reach up to `covered`. -/
def chunksFrom? (cs : List Char) (first : Bool) (covered : Nat) : List Piece → Option (List Chunk)
  | [] => some []
  | p :: ps => do
    let overlap ← overlap? cs first covered p
    let more ← chunksFrom? cs false (max covered p.stop) ps
    some (⟨String.ofList p.text, overlap⟩ :: more)

/-- The chunks of the pieces of a text. Nothing is asked of the pieces of an empty text. -/
def chunks? (cs : List Char) (ps : List Piece) : Option (List Chunk) :=
  if cs.isEmpty then some [] else chunksFrom? cs true 0 ps

/-- Pieces cover a text, of which earlier ones reach up to `covered`: each is a part of the text
that stands at its offset and is not empty, and begins no later than where those before it end; and
the furthest end is that of the text. -/
def Cover (cs : List Char) (covered : Nat) : List Piece → Prop
  | [] => covered = byteCount cs
  | p :: ps =>
    p.text ≠ [] ∧ slice? cs p.offset p.stop = some p.text ∧ p.offset ≤ covered ∧
      Cover cs (max covered p.stop) ps

/-- The piece of a span. -/
def ofSpan (cs : List Char) (s : Span) : Piece :=
  ⟨byteCount (cs.take s.start), (cs.drop s.start).take (s.stop - s.start)⟩

variable {cs : List Char}

theorem stop_ofSpan {s : Span} (h : s.start ≤ s.stop) :
    (ofSpan cs s).stop = byteCount (cs.take s.stop) := by
  obtain ⟨k, hk⟩ := Nat.exists_eq_add_of_le h
  rw [hk, Unicode.byteCount_take_add, stop, ofSpan, hk, Nat.add_sub_cancel_left]

/-- Every part of a text is that of a span of its characters. -/
theorem exists_span {p : Piece} (hne : p.text ≠ []) (h : slice? cs p.offset p.stop = some p.text) :
    ∃ s : Span, s.start < s.stop ∧ s.stop ≤ cs.length ∧ p = ofSpan cs s := by
  obtain ⟨us, vs, hcs, hus, -⟩ := Unicode.slice?_eq_some_iff.1 h
  have hpos : 0 < p.text.length := List.length_pos_iff.2 hne
  refine ⟨⟨us.length, us.length + p.text.length⟩, Nat.lt_add_of_pos_right hpos, ?_, ?_⟩
  · rw [hcs, List.length_append, List.length_append]
    exact Nat.le_add_right ..
  · rw [ofSpan, hcs, List.append_assoc, List.take_left, List.drop_left, Nat.add_sub_cancel_left,
      List.take_left, hus]

/-- **Pieces that cover a text are those of spans that cover it.** -/
theorem exists_spans {covered : Nat} {ps : List Piece} (hc : covered ≤ cs.length)
    (h : Cover cs (byteCount (cs.take covered)) ps) :
    ∃ ss, Covers cs.length covered ss ∧ ps = ss.map (ofSpan cs) := by
  induction ps generalizing covered with
  | nil =>
    refine ⟨[], Nat.le_antisymm hc ?_, rfl⟩
    rw [← Unicode.byteCount_take_le_iff (Nat.le_refl _) hc, List.take_length]
    exact Nat.le_of_eq (Eq.symm h)
  | cons p ps ih =>
    obtain ⟨hne, hslice, hoffset, hmore⟩ := h
    obtain ⟨s, hs, hn, rfl⟩ := exists_span hne hslice
    have hstart : s.start ≤ cs.length := by omega
    rw [stop_ofSpan (Nat.le_of_lt hs), ← Unicode.byteCount_take_max hc hn] at hmore
    obtain ⟨ss, hss, rfl⟩ := ih (Nat.max_le.2 ⟨hc, hn⟩) hmore
    exact ⟨s :: ss, ⟨(Unicode.byteCount_take_le_iff hstart hc).1 hoffset, hs, hn, hss⟩, rfl⟩

/-- The pieces of spans that cover a text cover it. -/
theorem cover_ofSpan {covered : Nat} {ss : List Span} (hc : covered ≤ cs.length)
    (h : Covers cs.length covered ss) :
    Cover cs (byteCount (cs.take covered)) (ss.map (ofSpan cs)) := by
  induction ss generalizing covered with
  | nil =>
    have hc : covered = cs.length := h
    rw [hc, List.take_length]
    rfl
  | cons s ss ih =>
    obtain ⟨hs, hss, hn, hmore⟩ := h
    have hle : s.start ≤ s.stop := Nat.le_of_lt hss
    refine ⟨?_, ?_, ?_, ?_⟩
    · refine List.ne_nil_of_length_pos ?_
      rw [ofSpan, List.length_take, List.length_drop]
      omega
    · rw [stop_ofSpan hle]
      exact Unicode.slice?_take hle hn
    · exact (Unicode.byteCount_take_le_iff (by omega) hc).2 hs
    · rw [stop_ofSpan hle, ← Unicode.byteCount_take_max hc hn]
      exact ih (Nat.max_le.2 ⟨hc, hn⟩) hmore

/-- The slice for the piece of a span is in the text, and has the characters between. -/
theorem overlap?_ofSpan {first : Bool} {covered : Nat} {s : Span} (hfirst : first → covered = 0)
    (hc : covered ≤ cs.length) (hs : s.start ≤ covered) :
    overlap? cs first (byteCount (cs.take covered)) (ofSpan cs s) =
      some (min (covered - s.start) (ofSpan cs s).text.length) := by
  rw [overlap?]
  split
  · rename_i h
    have hle : covered ≤ s.start := by
      rcases Bool.or_eq_true_iff.1 h with h | h
      · rw [hfirst h]
        exact Nat.zero_le _
      · exact (Unicode.byteCount_take_le_iff hc (by omega)).1 (of_decide_eq_true h)
    rw [Nat.sub_eq_zero_of_le hle, Nat.zero_min]
  · have hlen : ((cs.drop s.start).take (covered - s.start)).length = covered - s.start := by
      rw [List.length_take, List.length_drop]
      omega
    rw [ofSpan, Unicode.slice?_take hs hc, Option.map_some, hlen]

/-- **The chunks of pieces are those of their spans.** -/
theorem chunksFrom?_ofSpan {first : Bool} {covered : Nat} {ss : List Span}
    (hfirst : first → covered = 0) (hc : covered ≤ cs.length) (h : Covers cs.length covered ss) :
    chunksFrom? cs first (byteCount (cs.take covered)) (ss.map (ofSpan cs)) =
      some (Chunk.ofSpansFrom cs covered ss) := by
  induction ss generalizing first covered with
  | nil => rfl
  | cons s ss ih =>
    obtain ⟨hs, hss, hn, hmore⟩ := h
    rw [List.map_cons, chunksFrom?, overlap?_ofSpan hfirst hc hs, stop_ofSpan (Nat.le_of_lt hss),
      ← Unicode.byteCount_take_max hc hn, ih (by simp) (Nat.max_le.2 ⟨hc, hn⟩) hmore]
    rfl

theorem chunks?_ofSpan {ss : List Span} (h : Covers cs.length 0 ss) :
    chunks? cs (ss.map (ofSpan cs)) = some (Chunk.ofSpans cs ss) := by
  rw [chunks?]
  split
  · rename_i hcs
    rw [(Chunk.lossless_ofSpans h).nil_iff.2 (List.isEmpty_iff.1 hcs)]
  · exact chunksFrom?_ofSpan (fun _ ↦ rfl) (Nat.zero_le _) h

/-- **Pieces that cover a text come to lossless chunks**, and no slice goes wrong. -/
theorem exists_chunks {ps : List Piece} (h : Cover cs 0 ps) :
    ∃ chunks, chunks? cs ps = some chunks ∧ Lossless cs chunks := by
  obtain ⟨ss, hss, rfl⟩ := exists_spans (Nat.zero_le _) h
  exact ⟨_, chunks?_ofSpan hss, Chunk.lossless_ofSpans hss⟩

end Piece

namespace Sliding

/-- The pieces that the window hands over. -/
def pieces (s : Sliding) (text : String) : List Piece :=
  (s.window.spans text.toList).map (Piece.ofSpan text.toList)

/-- **Splitting loses and invents nothing.** Whatever pieces a chunker hands over, as long as they
cover the text: no slice goes wrong, and the chunks are lossless. The window's pieces cover the
text, and their chunks are those that the text is split into. -/
theorem split_lossless (s : Sliding) (text : String) :
    (∀ ps, Piece.Cover text.toList 0 ps →
        ∃ chunks, Piece.chunks? text.toList ps = some chunks ∧ Lossless text.toList chunks) ∧
      Piece.Cover text.toList 0 (s.pieces text) ∧
      Piece.chunks? text.toList (s.pieces text) = some (s.split text) ∧
      Lossless text.toList (s.split text) := by
  have h : Covers text.toList.length 0 (s.window.spans text.toList) :=
    (s.window.sweeps_spans text.toList).covers
  exact ⟨fun _ ↦ Piece.exists_chunks, Piece.cover_ofSpan (Nat.zero_le _) h, Piece.chunks?_ofSpan h,
    Chunk.lossless_ofSpans h⟩

end Sliding

end Chunking

end CitedAnswers

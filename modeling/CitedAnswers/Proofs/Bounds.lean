import CitedAnswers.Chunking.Splitter
import CitedAnswers.Proofs.Capacity
import CitedAnswers.Proofs.Passages
import CitedAnswers.Token.Standard

/-!
# Chunks are bounded

However a text is measured, its chunks **progress** through it (`Progress`): each reaches beyond all
before it, so there are no more of them than characters. How large they are and how much they repeat
depends on the measure.

* Counted in characters, no chunk is larger than the size asked for, and none repeats more than the
  overlap (`Sliding.characters_bounded`).
* Counted in any measure that is at most the number of bytes, as the number of tokens is, a chunk
  can only be larger if its first character is so by itself (`Sliding.measured_bounded`); then it
  may even have a second character (`Sliding.pair_too_large`).

What a chunk measures is found out at its cursor (`Window.bounded_stopOf`). That it repeats no more
than the overlap is an invariant of the whole course (`Window.laps_spansFrom`): a chunk that reaches
no further than an earlier one is left out, so what the next one repeats is not what its cursor was
moved back by. But the cursor moves on with every chunk, and so stays within the overlap of the
furthest end once it is.
-/

namespace CitedAnswers.Chunking

/-! ### Progress -/

/-- **Chunks progress through a text**: they are the characters of spans of it, each of which ends
beyond all before it. -/
structure Progress (cs : List Char) (ss : List Span) (chunks : List Chunk) : Prop where
  /-- The chunks are what stands at the spans. -/
  stand : chunks.map (fun c ↦ c.text.toList) = ss.map fun s ↦ cs.extract s.start s.stop
  /-- Each span has a character and stays within the text. -/
  within : ∀ s ∈ ss, s.start < s.stop ∧ s.stop ≤ cs.length
  /-- Each span ends beyond all before it. -/
  beyond : ss.Pairwise fun s s' ↦ s.stop < s'.stop
  /-- There are no more chunks than characters. -/
  length_le : chunks.length ≤ cs.length

namespace Sweeps

variable {n cursor reached : Nat} {ss : List Span}

theorem pairwise_stop (h : Sweeps n cursor reached ss) :
    ss.Pairwise fun s s' ↦ s.stop < s'.stop :=
  (h.isChain.imp fun _ _ hs ↦ hs.2.2).pairwise

theorem add_length_le (h : Sweeps n cursor reached ss) : reached + ss.length ≤ n := by
  induction ss generalizing cursor reached with
  | nil => exact Nat.le_of_eq h
  | cons s ss ih =>
    obtain ⟨-, -, hstop, -, hmore⟩ := h
    have hle := ih hmore
    rw [List.length_cons]
    omega

end Sweeps

theorem Chunk.map_text_ofSpansFrom (cs : List Char) (reached : Nat) (ss : List Span) :
    (ofSpansFrom cs reached ss).map (fun c ↦ c.text.toList) =
      ss.map fun s ↦ cs.extract s.start s.stop := by
  induction ss generalizing reached with
  | nil => rfl
  | cons s ss ih =>
    rw [ofSpansFrom, List.map_cons, List.map_cons, ih, String.toList_ofList,
      List.extract_eq_take_drop]

/-- The chunks of spans that sweep over a text progress through it. -/
theorem Sweeps.progress {cs : List Char} {ss : List Span} (h : Sweeps cs.length 0 0 ss) :
    Progress cs ss (Chunk.ofSpans cs ss) where
  stand := Chunk.map_text_ofSpansFrom ..
  within _ hs := h.lt_and_le_of_mem hs
  beyond := h.pairwise_stop
  length_le := by
    have hlength := congrArg List.length (Chunk.map_text_ofSpansFrom cs 0 ss)
    rw [List.length_map, List.length_map] at hlength
    have hle := h.add_length_le
    rw [Chunk.ofSpans, hlength]
    omega

/-! ### What a chunk repeats -/

/-- Spans **lap** by at most `k` characters: each begins no further before the end of the one before
it, or before `reached`. -/
def Laps (k reached : Nat) : List Span → Prop
  | [] => True
  | s :: ss => reached ≤ s.start + k ∧ Laps k s.stop ss

theorem Chunk.overlap_of_mem_ofSpansFrom {cs : List Char} {k cursor reached : Nat}
    {ss : List Span} (h : Sweeps cs.length cursor reached ss) (hk : Laps k reached ss) {c : Chunk}
    (hc : c ∈ ofSpansFrom cs reached ss) : c.overlap ≤ k ∧ c.overlap < c.length := by
  induction ss generalizing cursor reached with
  | nil => cases hc
  | cons s ss ih =>
    rw [ofSpansFrom_cons h] at hc
    obtain ⟨-, hstart, hstop, hn, hmore⟩ := h
    rcases List.mem_cons.1 hc with rfl | hc
    · have hreached := hk.1
      rw [length_ofExtract (by omega) hn]
      exact ⟨by dsimp only; omega, by dsimp only; omega⟩
    · exact ih hmore hk.2 hc

namespace Window

variable (w : Window)

/-- What the cursor is moved back by measures no more than the overlap. -/
theorem retreat_cases (cs : List Char) (sections : List Mark) (stop low high start : Nat) :
    w.retreat cs sections stop low high start = start ∨
      w.size ((cs.take stop).drop (w.retreat cs sections stop low high start)) ≤ w.overlap := by
  fun_induction retreat w cs sections stop low high start with
  | case1 low high start _ mid o k start' _ ih | case2 low high start _ mid o k start' _ ih =>
    rcases ih with hsame | hless
    · rw [hsame]
      by_cases hk : k ≤ w.overlap ∧ o < start ∧ 0 < o
      · right
        rw [show start' = o from if_pos hk]
        exact hk.1
      · exact .inl (if_neg hk)
    · exact .inr hless
  | case3 => exact .inl rfl

theorem advance_cases (cs : List Char) (sections : List Mark) (stop : Nat) :
    w.advance cs sections stop = stop ∨
      w.size ((cs.take stop).drop (w.advance cs sections stop)) ≤ w.overlap := by
  rw [advance]
  split
  · exact .inl rfl
  · exact w.retreat_cases ..

section

variable (hw : w.size = List.length)
include hw

/-- Counted in characters, the cursor is moved back by no more than the overlap. -/
theorem le_advance_add {cs : List Char} {stop : Nat} (hstop : stop ≤ cs.length)
    (sections : List Mark) : stop ≤ w.advance cs sections stop + w.overlap := by
  rcases w.advance_cases cs sections stop with h | h
  · omega
  · rw [hw, List.length_drop, List.length_take] at h
    omega

/-- The furthest end stays within the overlap of the cursor once it is. -/
theorem laps_spansFrom {cursor reached : Nat} {longest : Option Nat} {r : Rest} (hr : r.Marked)
    (h : reached ≤ cursor + w.overlap) :
    Laps w.overlap reached (w.spansFrom cursor reached longest r) := by
  fun_induction spansFrom w cursor reached longest r with
  | case1 => trivial
  | case2 cursor reached longest c cs ms r g stop bytes more further hlt ih =>
    -- The chunk is kept, and the next one begins within the overlap of its end.
    have hback : stop ≤ w.advance r.chars g.sections stop + w.overlap :=
      w.le_advance_add hw (w.stopOf_gathered hr (Nat.succ_pos _) longest).2 _
    have hfurther : Laps w.overlap (max reached (cursor + stop)) further :=
      ih (hr.next more) (by omega)
    rw [Nat.max_eq_right (Nat.le_of_lt hlt)] at hfurther
    exact ⟨h, hfurther⟩
  | case3 cursor reached longest c cs ms r g stop bytes more further hlt ih =>
    -- It is left out: the cursor has moved on, and the furthest end is where it was.
    have hfurther : Laps w.overlap (max reached (cursor + stop)) further :=
      ih (hr.next more) (by omega)
    rwa [Nat.max_eq_left (Nat.le_of_not_lt hlt)] at hfurther

end

/-! ### What a chunk measures -/

theorem drop_next {c : Char} {cs text : List Char} {cursor : Nat}
    (h : c :: cs = text.drop cursor) (more : Nat) :
    cs.drop more = text.drop (cursor + more + 1) := by
  rw [Nat.add_assoc, ← List.drop_drop, ← h, List.drop_succ_cons]

/-- What holds of the chunk at every cursor holds of all chunks. -/
theorem forall_mem_spansFrom {P : List Char → Prop}
    (hP : ∀ {r : Rest}, r.Marked → 0 < r.chars.length → ∀ longest,
      P (r.chars.take (w.stopOf r.chars (w.gathered r longest))))
    {text : List Char} {cursor reached : Nat} {longest : Option Nat} {r : Rest} (hr : r.Marked)
    (htext : r.chars = text.drop cursor) :
    ∀ s ∈ w.spansFrom cursor reached longest r, P (text.extract s.start s.stop) := by
  fun_induction spansFrom w cursor reached longest r with
  | case1 =>
    intro s hs
    cases hs
  | case2 cursor reached longest c cs ms r g stop bytes more further hlt ih =>
    intro s hs
    rcases List.mem_cons.1 hs with rfl | hs
    · rw [List.extract_eq_take_drop, ← htext, Nat.add_sub_cancel_left]
      exact hP hr (Nat.succ_pos _) longest
    · exact ih (hr.next more) (drop_next htext more) s hs
  | case3 cursor reached longest c cs ms r g stop bytes more further hlt ih =>
    exact ih (hr.next more) (drop_next htext more)

/-- The chunks of a text are what the window allows for. -/
theorem bounded_of_mem_ofSpans (hsize : ∀ cs, w.size cs ≤ Unicode.byteCount cs) {cs : List Char}
    {c : Chunk} (hc : c ∈ Chunk.ofSpans cs (w.spans cs)) : w.Bounded c.text.toList := by
  obtain ⟨s, hs, htext⟩ := Chunk.exists_span_of_mem hc
  rw [htext.1, ← List.extract_eq_take_drop]
  exact w.forall_mem_spansFrom (fun hr hpos ↦ w.bounded_stopOf hr hpos hsize)
    (Rest.marked_ofText cs) rfl s hs

/-- Counted in characters, a chunk has no more than the capacity. -/
theorem Bounded.length_le {w : Window} {cs : List Char} (h : w.Bounded cs)
    (hw : w.size = List.length) (hcapacity : 0 < w.capacity) : cs.length ≤ w.capacity := by
  cases h with
  | fits h => rwa [hw] at h
  | single c => exact hcapacity
  | pair c d h =>
    rw [hw, List.length_singleton] at h
    exact absurd hcapacity (Nat.not_lt.2 (Nat.le_of_lt_succ h))

end Window

/-! ### Chunks counted in characters -/

namespace Sliding

variable (s : Sliding)

theorem size_window_of_characters (h : s.sizing.measure = .characters) :
    s.window.size = List.length := by
  funext cs
  show s.sizing.measure.size s.vocabulary cs = cs.length
  rw [h]
  rfl

/-- **Chunks counted in characters** progress through their text, have between one character and the
size asked for, and repeat no more than the overlap, and never all they have; the first repeats
nothing. -/
theorem characters_bounded (h : s.sizing.measure = .characters) (text : String) :
    Progress text.toList (s.window.spans text.toList) (s.split text) ∧
      (∀ c ∈ (s.split text).head?, c.overlap = 0) ∧
      ∀ c ∈ s.split text, (0 < c.length ∧ c.length ≤ s.sizing.size) ∧
        c.overlap ≤ s.sizing.overlap ∧ c.overlap < c.length := by
  have hw := s.size_window_of_characters h
  have hsize (cs : List Char) : s.window.size cs ≤ Unicode.byteCount cs := by
    rw [hw]
    exact Unicode.length_le_byteCount cs
  have hpositive : 0 < s.window.capacity := Nat.zero_lt_of_lt s.valid
  have hsweeps := s.sweeps_spans text
  have hlaps : Laps s.window.overlap 0 (s.window.spans text.toList) :=
    s.window.laps_spansFrom hw (Rest.marked_ofText _) (Nat.zero_le _)
  refine ⟨hsweeps.progress, fun _ ↦ Chunk.overlap_of_mem_head?, fun c hc ↦ ?_⟩
  obtain ⟨hoverlap, hless⟩ := Chunk.overlap_of_mem_ofSpansFrom hsweeps hlaps hc
  have hbounded : s.window.Bounded c.text.toList := s.window.bounded_of_mem_ofSpans hsize hc
  exact ⟨⟨Nat.zero_lt_of_lt hless, hbounded.length_le hw hpositive⟩, hoverlap, hless⟩

/-- Six characters with an overlap of three, over lines, words and a long word. -/
theorem characters_bounded_six_three :
    let s : Sliding := ⟨.characters 6 3, by decide, .standard⟩
    let text := "a\n\n\nébcdefghij, and\r\nso on"
    s.sizing.measure = .characters ∧
      Progress text.toList (s.window.spans text.toList) (s.split text) ∧
      (∀ c ∈ (s.split text).head?, c.overlap = 0) ∧
      ∀ c ∈ s.split text, (0 < c.length ∧ c.length ≤ 6) ∧ c.overlap ≤ 3 ∧ c.overlap < c.length :=
  ⟨rfl, characters_bounded ⟨.characters 6 3, by decide, .standard⟩ rfl _⟩

end Sliding

/-! ### Chunks counted in tokens -/

namespace Sliding

variable (s : Sliding)

/-- **Chunks counted in tokens** progress through their text, and none has more tokens than the size
asked for, unless its first character does by itself: then it is that character, or two characters
with no more tokens than the first. Of what counts tokens it is enough that no text has more of them
than bytes; the splitter's own vocabulary is one way to count them. -/
theorem measured_bounded (hs : s.sizing.measure = .tokens) (tokens : List Char → Nat)
    (h : ∀ cs, tokens cs ≤ Unicode.byteCount cs) (text : String) :
    let w : Window := ⟨tokens, s.sizing.size, s.sizing.overlap⟩
    let chunks := Chunk.ofSpans text.toList (w.spans text.toList)
    (s.vocabulary.size = tokens → s.split text = chunks) ∧
      Progress text.toList (w.spans text.toList) chunks ∧
      ∀ c ∈ chunks, w.Bounded c.text.toList := by
  intro w chunks
  refine ⟨fun hv ↦ ?_, (w.sweeps_spans _).progress, fun c hc ↦ w.bounded_of_mem_ofSpans h hc⟩
  have hw : s.window = w := by
    rw [window, hs]
    exact congrArg (Window.mk · s.sizing.size s.sizing.overlap) hv
  show Chunk.ofSpans text.toList (s.window.spans text.toList) = chunks
  rw [hw]

/-- One token at most: a word that begins with a character of two tokens. -/
theorem measured_bounded_one :
    let s : Sliding := ⟨⟨1, 0, .tokens⟩, by decide, .standard⟩
    let text := "Rain\n안다"
    s.sizing.measure = .tokens ∧ (∀ cs, s.vocabulary.size cs ≤ Unicode.byteCount cs) ∧
      Progress text.toList (s.window.spans text.toList) (s.split text) ∧
      ∀ c ∈ s.split text, s.window.Bounded c.text.toList := by
  intro s text
  have hsize : ∀ cs, s.vocabulary.size cs ≤ Unicode.byteCount cs :=
    Token.Vocabulary.sparing_standard.size_le
  exact ⟨rfl, hsize, (measured_bounded s rfl s.vocabulary.size hsize text).2⟩

/-- **Two characters can be too large**: the first has two tokens by itself, and both together still
have two. -/
theorem pair_too_large :
    let s : Sliding := ⟨⟨1, 0, .tokens⟩, by decide, .standard⟩
    (∀ cs, s.vocabulary.size cs ≤ Unicode.byteCount cs) ∧
      ∃ c ∈ s.split "Rain\n안다",
        ¬(s.vocabulary.size c.text.toList ≤ s.sizing.size ∨ c.length = 1) := by
  intro s
  have hsplit : s.split "Rain\n안다" = [⟨"Rain", 0⟩, ⟨"\n", 0⟩, ⟨"안다", 0⟩] := by decide +kernel
  refine ⟨Token.Vocabulary.sparing_standard.size_le, ⟨"안다", 0⟩, ?_, by decide +kernel⟩
  rw [hsplit]
  exact List.mem_cons_of_mem _ (List.mem_cons_of_mem _ (List.mem_cons_self ..))

end Sliding

end CitedAnswers.Chunking

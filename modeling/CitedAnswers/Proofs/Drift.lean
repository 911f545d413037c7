import CitedAnswers.Proofs.Numbering
import CitedAnswers.Proofs.Passages
import CitedAnswers.Token.Standard
import Mathlib.Order.Monotone.Basic

/-!
# How far the windows of sources are off

The window of a source starts where all chunks before it would end if one character followed each of
them, less what its own chunk repeats (`Citation.getElem?_windowsFrom`). Nothing else goes into it:
no other passage, nor the end of its own, nor its number (`Citation.window_closed_form`).

That is the place of the chunk in its passage only if the chunks do stand like this. A sliding
window cuts a passage into chunks with nothing between them, and the second and later ones may
repeat some of the text before them, so the windows of its sources **drift**: each is off by one
character for every chunk before it and by all that those chunks repeat. `Citation.window_drift`
says so, and that windows are exact where one character stands between two chunks and nothing is
repeated.

Windows are reckoned by adding sizes, and numbering stops at a sum that is no size. The greatest of
all sums for a passage is the offset after its last chunk (`Citation.forall_mem_sumsFrom_lt_iff`),
so all goes well as long as there is room for the chunks up to there.

The argument about the drift compares two sums over the chunks before a given one: the room they
take up in the reckoning of the windows, and the place up to which they really reach
(`Chunking.Chunk.getElem?_ofSpansFrom`). Both are exact; nothing is rounded to zero on the way, as
no chunk repeats more than the room before it.
-/

namespace CitedAnswers

namespace Chunking.Chunk

/-! ### Room and drift -/

/-- The room that chunks take up if one character follows each of them. -/
def room (cs : List Chunk) : Nat := (cs.map fun c ↦ c.length + 1).sum

/-- How far the window of the `j`-th chunk is off: by one character for every chunk before it and by
all that these repeat. -/
def drift (cs : List Chunk) (j : Nat) : Nat := j + ((cs.take j).map overlap).sum

theorem room_cons (c : Chunk) (cs : List Chunk) : room (c :: cs) = c.length + 1 + room cs := by
  rw [room, List.map_cons, List.sum_cons, room]

theorem drift_zero (cs : List Chunk) : drift cs 0 = 0 := rfl

theorem drift_cons_succ (c : Chunk) (cs : List Chunk) (j : Nat) :
    drift (c :: cs) (j + 1) = drift cs j + c.overlap + 1 := by
  rw [drift, List.take_succ_cons, List.map_cons, List.sum_cons, drift]
  omega

/-- **The drift grows with every chunk.** -/
theorem strictMono_drift (cs : List Chunk) : StrictMono (drift cs) := by
  refine strictMono_nat_of_lt_succ fun j ↦ ?_
  have hsum : ((cs.take j).map overlap).sum ≤ ((cs.take (j + 1)).map overlap).sum := by
    rw [List.take_add_one, List.map_append, List.sum_append]
    exact Nat.le_add_right ..
  show j + _ < j + 1 + _
  omega

/-- **Where a chunk of a sweep stands**, and what the room of the chunks before it comes to: the
place of the chunk, what it repeats and the drift. -/
theorem getElem?_ofSpansFrom {cs : List Char} {cursor reached : Nat} {ss : List Span}
    (h : Sweeps cs.length cursor reached ss) {j : Nat} {c : Chunk}
    (hc : (ofSpansFrom cs reached ss)[j]? = some c) :
    ∃ s, ss[j]? = some s ∧ s.stop = s.start + c.length ∧ s.stop ≤ cs.length ∧
      c.text.toList = cs.extract s.start s.stop ∧
      reached + room ((ofSpansFrom cs reached ss).take j) =
        s.start + c.overlap + drift (ofSpansFrom cs reached ss) j := by
  induction ss generalizing cursor reached j with
  | nil => cases hc
  | cons s ss ih =>
    rw [ofSpansFrom_cons h] at hc ⊢
    obtain ⟨-, hstart, hstop, hn, hmore⟩ := h
    have hle : s.start ≤ s.stop := by omega
    cases j with
    | zero =>
      cases hc
      refine ⟨s, rfl, ?_, hn, String.toList_ofList, ?_⟩
      · rw [length_ofExtract hle hn, Nat.add_sub_cancel' hle]
      · rw [drift_zero]
        exact (Nat.add_sub_cancel' hstart).symm
    | succ j =>
      obtain ⟨s', hs', hstop', hn', htext, hroom⟩ := ih hmore hc
      refine ⟨s', hs', hstop', hn', htext, ?_⟩
      rw [List.take_succ_cons, room_cons, length_ofExtract hle hn, drift_cons_succ]
      dsimp only
      omega

end Chunking.Chunk

namespace Citation

open Chunking (Chunk Piece Sliding Span Splitter Sweeps)
open Unicode (byteCount)

/-! ### The window of a source -/

/-- **The windows of chunks in closed form.** The offset of a chunk is behind the room of those
before it. -/
theorem getElem?_windowsFrom (offset : Nat) {cs : List Chunk} {j : Nat} {c : Chunk}
    (hc : cs[j]? = some c) : (windowsFrom offset cs)[j]? =
      some ⟨offset + Chunk.room (cs.take j) - c.overlap,
        offset + Chunk.room (cs.take j) - c.overlap + c.length⟩ := by
  induction cs generalizing offset j with
  | nil => cases hc
  | cons c' cs ih =>
    cases j with
    | zero =>
      cases hc
      rfl
    | succ j =>
      have hoffset : offset + (c'.length + 1) + Chunk.room (cs.take j) =
          offset + Chunk.room ((c' :: cs).take (j + 1)) := by
        rw [List.take_succ_cons, Chunk.room_cons, Nat.add_assoc]
      rw [windowsFrom, List.getElem?_cons_succ, ← hoffset]
      exact ih _ hc

/-- **The greatest of all sums** is the offset after the last chunk. -/
theorem forall_mem_sumsFrom_lt_iff {offset bound : Nat} (h : offset < bound) {cs : List Chunk} :
    (∀ n ∈ sumsFrom offset cs, n < bound) ↔ offset + Chunk.room cs < bound := by
  induction cs generalizing offset with
  | nil => exact ⟨fun _ ↦ h, fun _ _ hn ↦ absurd hn List.not_mem_nil⟩
  | cons c cs ih =>
    rw [Chunk.room_cons, ← Nat.add_assoc, sumsFrom]
    simp only [List.forall_mem_append, List.forall_mem_cons]
    -- Of the sums for the first chunk the next offset is the greatest.
    constructor
    · rintro ⟨⟨-, hnext, -, -⟩, hmore⟩
      exact (ih hnext).1 hmore
    · intro hroom
      have hnext : offset + (c.length + 1) < bound := by omega
      have hstop : offset - c.overlap + c.length < bound := by omega
      exact ⟨⟨by omega, hnext, hstop, List.forall_mem_nil _⟩, (ih hnext).2 hroom⟩

/-- **All sums of a passage are sizes** if it starts at a size and its chunks, with one character
after each, have room behind the start. -/
theorem forall_mem_sums_lt {S : Splitter} {passage : ScoredNode}
    (h : baseOf passage + Chunk.room (S.split passage.text) < Size.bound) :
    ∀ n ∈ sums S passage, n < Size.bound :=
  (forall_mem_sumsFrom_lt_iff (by omega)).2 h

theorem getElem?_number (passage : ScoredNode) (first : Nat) (cs : List (Chunk × Position))
    (j : Nat) : (number passage first cs)[j]? =
      (cs[j]?).map fun c ↦ source passage (first + j) c.1 c.2 := by
  induction cs generalizing first j with
  | nil => rfl
  | cons c cs ih =>
    cases j with
    | zero => rfl
    | succ j =>
      rw [number, List.getElem?_cons_succ, List.getElem?_cons_succ, ih, Nat.add_right_comm,
        Nat.add_assoc]

theorem sourcesFrom_append (S : Splitter) (first : Nat) (ps qs : List ScoredNode) :
    sourcesFrom S first (ps ++ qs) =
      sourcesFrom S first ps ++ sourcesFrom S (first + (sourcesFrom S first ps).length) qs := by
  induction ps generalizing first with
  | nil => rfl
  | cons p ps ih =>
    rw [List.cons_append, sourcesFrom, sourcesFrom, ih, List.length_append, List.append_assoc,
      Nat.add_assoc]

/-- The window of the `j`-th source of a passage that stands among others. -/
def window? (S : Splitter) (before : List ScoredNode) (passage : ScoredNode)
    (after : List ScoredNode) (j : Nat) : Option Position :=
  ((sources S (before ++ passage :: after))[(sources S before).length + j]?).bind fun n ↦
    n.node.position

/-- **The windows of a passage do not depend on the passages around it.** -/
theorem window?_eq {S : Splitter} (before : List ScoredNode) {passage : ScoredNode}
    (after : List ScoredNode) {j : Nat} (hj : j < (S.split passage.text).length) :
    window? S before passage after j =
      (windowsFrom (baseOf passage) (S.split passage.text))[j]? := by
  obtain ⟨p, hp⟩ : ∃ p, (windowsFrom (baseOf passage) (S.split passage.text))[j]? = some p :=
    ⟨_, List.getElem?_eq_getElem ((length_windowsFrom ..).symm ▸ hj)⟩
  have hzip : ((S.split passage.text).zip
      (windowsFrom (baseOf passage) (S.split passage.text)))[j]? =
        some ((S.split passage.text)[j], p) :=
    List.getElem?_zip_eq_some.2 ⟨List.getElem?_eq_getElem hj, hp⟩
  have hsource (first : Nat) : (sourcesOf S passage first)[j]? =
      some (source passage (first + j) (S.split passage.text)[j] p) := by
    rw [sourcesOf, getElem?_number, hzip, Option.map_some]
  have hlt (first : Nat) : j < (sourcesOf S passage first).length :=
    (List.getElem?_eq_some_iff.1 (hsource first)).1
  rw [window?, sources, sourcesFrom_append, sourcesFrom, ← sources,
    List.getElem?_append_right (Nat.le_add_right ..), Nat.add_sub_cancel_left,
    List.getElem?_append_left (hlt _), hsource, hp]
  rfl

/-- Passages with the same text and the same start have the same windows, wherever they stand. -/
theorem window?_congr {S : Splitter} {passage passage' : ScoredNode}
    (htext : passage'.text = passage.text) (hbase : baseOf passage' = baseOf passage)
    (before before' after after' : List ScoredNode) {j : Nat}
    (hj : j < (S.split passage.text).length) :
    window? S before' passage' after' j = window? S before passage after j := by
  have hj' : j < (S.split passage'.text).length := htext.symm ▸ hj
  rw [window?_eq before' after' hj', window?_eq before after hj, htext, hbase]

theorem map_position_number (passage : ScoredNode) (first : Nat) (cs : List (Chunk × Position)) :
    (number passage first cs).map (fun n ↦ n.node.position) = cs.map fun c ↦ some c.2 := by
  induction cs generalizing first with
  | nil => rfl
  | cons c cs ih => exact congrArg (some c.2 :: ·) (ih (first + 1))

/-- **Windows have nothing to do with numbers.** -/
theorem map_position_sourcesOf (S : Splitter) (passage : ScoredNode) (first : Nat) :
    (sourcesOf S passage first).map (fun n ↦ n.node.position) =
      (windowsFrom (baseOf passage) (S.split passage.text)).map some := by
  have hwindows (cs : List (Chunk × Position)) :
      (cs.map fun c ↦ some c.2) = (cs.map Prod.snd).map some := (List.map_map ..).symm
  rw [sourcesOf, map_position_number, hwindows,
    List.map_snd_zip (Nat.le_of_eq (length_windowsFrom ..))]

/-- **The windows of a passage in closed form.** If there is room for its chunks, all sums are
sizes. The window of the `j`-th chunk starts where the passage does and behind the room of the
chunks before it, less what the chunk says it repeats, or at zero if that is more; and it is as long
as the chunk. So nothing of what was cut off at zero for one chunk is made up for at the next.

It is the same for any passage with the same text and the same start, whatever its end is, and
wherever either stands among others; and the first number given to a source has no part in it. -/
theorem window_closed_form (S : Splitter) (passage : ScoredNode) :
    let base (p : ScoredNode) := (p.node.position.map Position.start).getD 0
    let chunks := S.split passage.text
    (base passage + Chunk.room chunks < Size.bound → (∀ n ∈ sums S passage, n < Size.bound) ∧
      ∀ before after j c, chunks[j]? = some c → ∃ p, window? S before passage after j = some p ∧
        (p.start : Int) = max 0 (base passage + Chunk.room (chunks.take j) - c.overlap) ∧
        p.stop = p.start + c.length) ∧
      (∀ passage', passage'.text = passage.text → base passage' = base passage →
        ∀ before before' after after' j, j < chunks.length →
          window? S before' passage' after' j = window? S before passage after j) ∧
      ∀ first first', (sourcesOf S passage first).map (fun n ↦ n.node.position) =
        (sourcesOf S passage first').map fun n ↦ n.node.position := by
  intro base chunks
  refine ⟨fun h ↦ ⟨forall_mem_sums_lt h, fun before after j c hc ↦ ?_⟩,
    fun passage' htext hbase before before' after after' j ↦ ?_, fun first first' ↦ ?_⟩
  · have hj : j < chunks.length := (List.getElem?_eq_some_iff.1 hc).1
    refine ⟨_, (window?_eq before after hj).trans (getElem?_windowsFrom _ hc), ?_, rfl⟩
    show ((base passage + Chunk.room (chunks.take j) - c.overlap : Nat) : Int) = _
    omega
  · exact window?_congr htext hbase before before' after after'
  · rw [map_position_sourcesOf, map_position_sourcesOf]

/-- A chunk that says it repeats more than there is before it: its window starts at zero, and the
window of the next chunk starts where it would anyway. -/
theorem window_closed_form_cut_off :
    let S : Splitter := .custom fun _ ↦ [⟨"ab", 9⟩, ⟨"c", 1⟩]
    let passage : ScoredNode := ⟨{ text := "ab c", position := some ⟨4, 8⟩ }, none⟩
    let other : ScoredNode := ⟨{ text := "ab c", position := some ⟨4, 0⟩ }, none⟩
    (4 + Chunk.room (S.split passage.text) < Size.bound ∧
      (∃ p, window? S [other] passage [] 0 = some p ∧
        (p.start : Int) = max 0 (4 + 0 - 9) ∧ p.stop = p.start + 2) ∧
      window? S [other] passage [] 0 = some ⟨0, 2⟩ ∧
      window? S [other] passage [] 1 = some ⟨6, 7⟩) ∧
    other.text = passage.text ∧ baseOf other = baseOf passage ∧
      window? S [] other [passage] 1 = window? S [other] passage [] 1 := by
  intro S passage other
  have hroom : 4 + Chunk.room (S.split passage.text) < Size.bound := by decide +kernel
  obtain ⟨hclosed, hsame, -⟩ := window_closed_form S passage
  have hfirst := (hclosed hroom).2 [other] [] 0 ⟨"ab", 9⟩ rfl
  have hsecond := hsame other rfl rfl [other] [] [] [passage] 1 (by decide)
  exact ⟨⟨hroom, hfirst, by decide +kernel, by decide +kernel⟩, rfl, rfl, hsecond⟩

/-! ### Chunks of a sliding window -/

/-- **The windows drift** of chunks that a passage is cut into, given the pieces that the chunks
were made of and the number of characters before the passage. -/
structure Drifts (base : Nat) (cs : List Char) (ps : List Piece) (chunks : List Chunk)
    (window : Nat → Option Position) : Prop where
  /-- The first chunk repeats nothing. -/
  head : ∀ c ∈ chunks.head?, c.overlap = 0
  /-- The `j`-th chunk begins at character `t` of the passage. The start of its window is off by the
  drift, and was not cut down to zero: with what the chunk repeats it makes up all the room before
  it. -/
  window : ∀ j c, chunks[j]? = some c → ∃ t p,
    (ps[j]?).map Piece.offset = some (byteCount (cs.take t)) ∧ t + c.length ≤ cs.length ∧
      c.text.toList = cs.extract t (t + c.length) ∧
      window j = some p ∧ p.start = base + t + Chunk.drift chunks j ∧
      p.stop = p.start + c.length ∧ p.start + c.overlap = base + Chunk.room (chunks.take j)
  /-- The first window is exact. -/
  drift_zero : Chunk.drift chunks 0 = 0
  /-- Every window is further off than those before it. -/
  strictMono_drift : StrictMono (Chunk.drift chunks)

section

variable {S : Splitter} {before : List ScoredNode} {passage : ScoredNode}
  (after : List ScoredNode)

/-- Windows drift if the chunks are those of spans that sweep over the passage. -/
theorem drifts_of_sweeps {ss : List Span} (hss : Sweeps passage.text.toList.length 0 0 ss)
    (hchunks : S.split passage.text = Chunk.ofSpans passage.text.toList ss) :
    Drifts (baseOf passage) passage.text.toList (ss.map (Piece.ofSpan passage.text.toList))
      (S.split passage.text) (window? S before passage after) where
  head c hc := Chunk.overlap_of_mem_head? (hchunks ▸ hc)
  window j c hc := by
    have hj : j < (S.split passage.text).length := (List.getElem?_eq_some_iff.1 hc).1
    obtain ⟨s, hs, hstop, hn, htext, hroom⟩ := Chunk.getElem?_ofSpansFrom hss (hchunks ▸ hc)
    rw [← Chunk.ofSpans, ← hchunks, Nat.zero_add] at hroom
    have hstart : baseOf passage + Chunk.room ((S.split passage.text).take j) - c.overlap =
        baseOf passage + s.start + Chunk.drift (S.split passage.text) j := by
      omega
    refine ⟨s.start, _, ?_, hstop ▸ hn, hstop ▸ htext,
      (window?_eq before after hj).trans (getElem?_windowsFrom _ hc), hstart, rfl, ?_⟩
    · rw [List.getElem?_map, hs]
      rfl
    · show _ - c.overlap + c.overlap = _
      omega
  drift_zero := Chunk.drift_zero _
  strictMono_drift := Chunk.strictMono_drift _

end

/-! ### Chunks with one character between two -/

/-- Chunks stand in a text with one character between two, the first at its start, and repeat
nothing. -/
def Separated (cs : List Char) : List Chunk → Prop
  | [] => True
  | c :: more =>
    c.overlap = 0 ∧ ∃ rest, cs = c.text.toList ++ rest ∧
      (more ≠ [] → ∃ sep rest', rest = sep :: rest' ∧ Separated rest' more)

/-- **Where such a chunk stands**: after the room of those before it. -/
theorem Separated.extract_room {cs : List Char} {chunks : List Chunk} (h : Separated cs chunks)
    {j : Nat} {c : Chunk} (hc : chunks[j]? = some c) :
    c.overlap = 0 ∧ Chunk.room (chunks.take j) + c.length ≤ cs.length ∧
      cs.extract (Chunk.room (chunks.take j)) (Chunk.room (chunks.take j) + c.length) =
        c.text.toList := by
  induction chunks generalizing cs j with
  | nil => cases hc
  | cons c' more ih =>
    obtain ⟨hoverlap, rest, rfl, hmore⟩ := h
    cases j with
    | zero =>
      cases hc
      have hlen : Chunk.room ([] : List Chunk) + c.length = c.text.toList.length :=
        (Nat.zero_add _).trans String.length_toList.symm
      refine ⟨hoverlap, ?_, ?_⟩
      · rw [List.take_zero, hlen, List.length_append]
        exact Nat.le_add_right ..
      · rw [List.take_zero, hlen]
        exact List.take_left' rfl
    | succ j =>
      rw [List.getElem?_cons_succ] at hc
      have hne : more ≠ [] := by
        rintro rfl
        cases hc
      obtain ⟨sep, rest', rfl, hrest⟩ := hmore hne
      obtain ⟨hoverlap', hle, htext⟩ := ih hrest hc
      have hroom : Chunk.room ((c' :: more).take (j + 1)) =
          (c'.text.toList ++ [sep]).length + Chunk.room (more.take j) := by
        rw [List.take_succ_cons, Chunk.room_cons, List.length_append, String.length_toList]
        rfl
      have hcs : c'.text.toList ++ sep :: rest' = (c'.text.toList ++ [sep]) ++ rest' :=
        List.append_cons ..
      rw [hroom, hcs]
      refine ⟨hoverlap', ?_, ?_⟩
      · rw [@List.length_append _ _ rest', Nat.add_assoc]
        exact Nat.add_le_add_left hle _
      · rw [← htext, List.extract_eq_take_drop, List.extract_eq_take_drop, ← List.drop_drop,
          List.drop_left, Nat.add_sub_cancel_left, Nat.add_sub_cancel_left]

/-- **How far the windows of sources are off.** A passage may stand anywhere among others; the
windows of its sources are computed from the place where the passage starts. All sums are sizes if
there is room for its chunks behind it.

If the chunks of the passage are those of pieces that sweep over it, whichever chunker hands them
over, and so if they are those of a sliding window of any valid sizing: the windows drift. If one
character stands between two chunks and nothing is repeated: less what stands before the passage,
every window selects its own chunk. -/
theorem window_drift (S : Splitter) (before : List ScoredNode) (passage : ScoredNode)
    (after : List ScoredNode)
    (h : baseOf passage + Chunk.room (S.split passage.text) < Size.bound) :
    let base := baseOf passage
    let cs := passage.text.toList
    let chunks := S.split passage.text
    let window := window? S before passage after
    (∀ n ∈ sums S passage, n < Size.bound) ∧
      (∀ ps, Piece.Sweep cs 0 0 ps → Piece.chunks? cs ps = some chunks →
        Drifts base cs ps chunks window) ∧
      (∀ s, S = .sliding s → Drifts base cs (s.pieces passage.text) chunks window) ∧
      (Separated cs chunks → ∀ j c, chunks[j]? = some c →
        ∃ p, window j = some p ∧ base ≤ p.start ∧ p.stop ≤ base + cs.length ∧
          cs.extract (p.start - base) (p.stop - base) = c.text.toList) := by
  intro base cs chunks window
  refine ⟨forall_mem_sums_lt h, fun ps hps hchunks ↦ ?_, ?_, fun hsep j c hc ↦ ?_⟩
  · obtain ⟨ss, hss, rfl, hchunks'⟩ := Piece.exists_chunks_of_sweep hps
    exact drifts_of_sweeps after hss (Option.some.inj (hchunks.symm.trans hchunks'))
  · rintro s rfl
    exact drifts_of_sweeps after (s.sweeps_spans passage.text) rfl
  · have hj : j < chunks.length := (List.getElem?_eq_some_iff.1 hc).1
    obtain ⟨hoverlap, hle, htext⟩ := hsep.extract_room hc
    have hwindow := (window?_eq before after hj).trans (getElem?_windowsFrom _ hc)
    rw [hoverlap, Nat.sub_zero] at hwindow
    refine ⟨_, hwindow, Nat.le_add_right .., ?_, ?_⟩
    · show base + Chunk.room (chunks.take j) + c.length ≤ _
      omega
    · dsimp only
      rw [Nat.add_assoc, Nat.add_sub_cancel_left, Nat.add_sub_cancel_left]
      exact htext

/-- Words cut by a sliding window: the fourth chunk begins at character 9 of a passage that starts
at character 100, and its window is off by 3 for the chunks before it and by 6 for what they repeat.
The lines of a text are a case of chunks with one character between two. -/
theorem window_drift_words_and_lines :
    let words : Sliding := ⟨.characters 6 3, by decide, .standard⟩
    let passage : ScoredNode := ⟨{ text := "aa bb cc dd ee", position := some ⟨100, 114⟩ }, none⟩
    let verse : ScoredNode := ⟨{ text := "one\ntwo\nthree", position := some ⟨40, 53⟩ }, none⟩
    (baseOf passage + Chunk.room (words.split passage.text) < Size.bound ∧
      Drifts 100 passage.text.toList (words.pieces passage.text) (words.split passage.text)
        (window? (.sliding words) [verse] passage []) ∧
      window? (.sliding words) [verse] passage [] 3 = some ⟨100 + 9 + 9, 100 + 9 + 9 + 5⟩) ∧
    baseOf verse + Chunk.room (Splitter.lines.split verse.text) < Size.bound ∧
      Separated verse.text.toList (Splitter.lines.split verse.text) ∧
      ∃ p, window? .lines [] verse [passage] 2 = some p ∧
        verse.text.toList.extract (p.start - 40) (p.stop - 40) = "three".toList := by
  intro words passage verse
  have hwords : baseOf passage + Chunk.room (words.split passage.text) < Size.bound := by
    decide +kernel
  have hlines : baseOf verse + Chunk.room (Splitter.lines.split verse.text) < Size.bound := by
    decide +kernel
  have hchunks : Splitter.lines.split verse.text = [⟨"one", 0⟩, ⟨"two", 0⟩, ⟨"three", 0⟩] := by
    decide +kernel
  have hsep : Separated verse.text.toList (Splitter.lines.split verse.text) := by
    have hone : verse.text.toList = "one".toList ++ '\n' :: "two\nthree".toList := by
      decide +kernel
    have htwo : "two\nthree".toList = "two".toList ++ '\n' :: "three".toList := by decide +kernel
    rw [hchunks]
    exact ⟨rfl, _, hone, fun _ ↦ ⟨_, _, rfl, rfl, _, htwo, fun _ ↦ ⟨_, _, rfl, rfl, [],
      (List.append_nil _).symm, by simp⟩⟩⟩
  have hdrift := (window_drift (.sliding words) [verse] passage [] hwords).2.2.1 words rfl
  obtain ⟨p, hp, -, -, htext⟩ :=
    (window_drift .lines [] verse [passage] hlines).2.2.2 hsep 2 ⟨"three", 0⟩
      (by rw [hchunks]; rfl)
  exact ⟨⟨hwords, hdrift, by decide +kernel⟩, hlines, hsep, p, hp, htext⟩

end Citation

end CitedAnswers

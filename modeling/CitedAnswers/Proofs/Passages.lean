import CitedAnswers.Document
import CitedAnswers.Proofs.Lossless
import Mathlib.Data.List.Chain

/-!
# Passages index their document

The windows of a document's passages say exactly where each passage stands in the document
(`Indexes`): the characters of a window are the text of its passage, and the windows go from the
first character to the last without a gap, each beginning and ending after the one before it. That
is `Document.passages_indexed`.

Two accumulators are at work. Splitting keeps the furthest end so far, in bytes, and says of each
chunk how much it repeats of what stands before that end; the positions are counted from the end of
the chunk before, in characters. The two agree because spans that sweep over a text
(`Chunking.Sweeps`) always end beyond the furthest end so far, which is then the end of the chunk
before, and never repeat all of a chunk, so the number of repeated characters is not cut down
(`Chunk.ofSpansFrom_cons`).
-/

namespace CitedAnswers

namespace Chunking

/-! ### Spans that sweep over a text -/

namespace Sweeps

variable {n cursor reached : Nat} {s : Span} {ss : List Span}

theorem start_of_mem_head? (h : Sweeps n 0 0 ss) (hs : s ∈ ss.head?) : s.start = 0 := by
  cases ss with
  | nil => cases hs
  | cons _ ss =>
    cases hs
    exact Nat.le_zero.1 h.2.1

theorem stop_of_mem_getLast? (h : Sweeps n cursor reached ss) (hs : s ∈ ss.getLast?) :
    s.stop = n := by
  induction ss generalizing cursor reached with
  | nil => cases hs
  | cons s' ss ih =>
    obtain ⟨-, -, -, -, hmore⟩ := h
    cases ss with
    | nil =>
      cases hs
      exact hmore
    | cons s'' ss =>
      rw [List.getLast?_cons_cons] at hs
      exact ih hmore hs

theorem lt_and_le_of_mem (h : Sweeps n cursor reached ss) (hs : s ∈ ss) :
    s.start < s.stop ∧ s.stop ≤ n := by
  induction ss generalizing cursor reached with
  | nil => cases hs
  | cons s' ss ih =>
    obtain ⟨-, hstart, hstop, hn, hmore⟩ := h
    rcases List.mem_cons.1 hs with rfl | hs
    · exact ⟨Nat.lt_of_le_of_lt hstart hstop, hn⟩
    · exact ih hmore hs

/-- Starts and ends increase, and there is no gap between two spans. -/
theorem isChain (h : Sweeps n cursor reached ss) :
    ss.IsChain fun s s' ↦ s.start < s'.start ∧ s'.start ≤ s.stop ∧ s.stop < s'.stop := by
  induction ss generalizing cursor reached with
  | nil => exact .nil
  | cons s ss ih =>
    obtain ⟨-, -, -, -, hmore⟩ := h
    cases ss with
    | nil => exact .singleton s
    | cons s' ss =>
      obtain ⟨hcursor, hstart, hstop, -⟩ := id hmore
      exact .cons_cons ⟨hcursor, hstart, hstop⟩ (ih hmore)

/-- **Every character is in a span**, from the furthest end so far on. -/
theorem exists_mem (h : Sweeps n cursor reached ss) {i : Nat} (hr : reached ≤ i) (hi : i < n) :
    ∃ s ∈ ss, s.start ≤ i ∧ i < s.stop := by
  induction ss generalizing cursor reached with
  | nil =>
    have hn : reached = n := h
    omega
  | cons s ss ih =>
    obtain ⟨-, hstart, -, -, hmore⟩ := h
    by_cases hlt : i < s.stop
    · exact ⟨s, List.mem_cons_self .., Nat.le_trans hstart hr, hlt⟩
    · obtain ⟨s', hs', hin⟩ := ih hmore (Nat.le_of_not_lt hlt)
      exact ⟨s', List.mem_cons_of_mem _ hs', hin⟩

end Sweeps

/-- **What a chunk of a sweep is**: the characters of its span, of which those before the furthest
end so far are repeated. -/
theorem Chunk.ofSpansFrom_cons {cs : List Char} {cursor reached : Nat} {s : Span} {ss : List Span}
    (h : Sweeps cs.length cursor reached (s :: ss)) :
    Chunk.ofSpansFrom cs reached (s :: ss) =
      ⟨String.ofList (cs.extract s.start s.stop), reached - s.start⟩ ::
        Chunk.ofSpansFrom cs s.stop ss := by
  obtain ⟨-, hstart, hstop, hn, -⟩ := h
  have hlen : ((cs.drop s.start).take (s.stop - s.start)).length = s.stop - s.start := by
    rw [List.length_take, List.length_drop]
    omega
  have hmin : min (reached - s.start) (s.stop - s.start) = reached - s.start :=
    Nat.min_eq_left (by omega)
  rw [Chunk.ofSpansFrom, hlen, hmin, Nat.max_eq_right (Nat.le_of_lt hstop)]

theorem Chunk.length_ofExtract {cs : List Char} {s : Span} (hs : s.start ≤ s.stop)
    (hn : s.stop ≤ cs.length) (overlap : Nat) :
    Chunk.length ⟨String.ofList (cs.extract s.start s.stop), overlap⟩ = s.stop - s.start := by
  rw [Chunk.length, String.length_ofList, List.extract_eq_take_drop, List.length_take,
    List.length_drop]
  omega

/-! ### Pieces that sweep over a text -/

namespace Piece

open Unicode (byteCount slice?)

/-- Pieces sweep over a text, of which earlier ones reach up to `covered`, from an offset on: each
is a part of the text that stands at its offset and is not empty; each begins after the one before
it does and no later than where that one ends, and ends beyond it; and the last one ends with the
text. -/
def Sweep (cs : List Char) (from_ covered : Nat) : List Piece → Prop
  | [] => covered = byteCount cs
  | p :: ps =>
    p.text ≠ [] ∧ slice? cs p.offset p.stop = some p.text ∧ from_ ≤ p.offset ∧
      p.offset ≤ covered ∧ covered < p.stop ∧ Sweep cs (p.offset + 1) p.stop ps

variable {cs : List Char}

/-- **Pieces that sweep over a text are those of spans that do.** The offset that a piece must not
come before is that of a character, or the next after it. -/
theorem exists_sweeps {from_ cursor covered : Nat} {ps : List Piece} (hc : covered ≤ cs.length)
    (hfrom : ∀ i ≤ cs.length, from_ ≤ byteCount (cs.take i) → cursor ≤ i)
    (h : Sweep cs from_ (byteCount (cs.take covered)) ps) :
    ∃ ss, Sweeps cs.length cursor covered ss ∧ ps = ss.map (ofSpan cs) := by
  induction ps generalizing from_ cursor covered with
  | nil =>
    refine ⟨[], Nat.le_antisymm hc ?_, rfl⟩
    rw [← Unicode.byteCount_take_le_iff (Nat.le_refl _) hc, List.take_length]
    exact Nat.le_of_eq (Eq.symm h)
  | cons p ps ih =>
    obtain ⟨hne, hslice, hoffset, hle, hlt, hmore⟩ := h
    obtain ⟨s, hs, hn, rfl⟩ := exists_span hne hslice
    have hstart : s.start ≤ cs.length := by omega
    rw [stop_ofSpan (Nat.le_of_lt hs)] at hlt hmore
    have hnext (i : Nat) (hi : i ≤ cs.length)
        (h : byteCount (cs.take s.start) + 1 ≤ byteCount (cs.take i)) : s.start + 1 ≤ i :=
      (Unicode.byteCount_take_lt_iff hstart hi).1 h
    obtain ⟨ss, hss, rfl⟩ := ih hn hnext hmore
    exact ⟨s :: ss, ⟨hfrom _ hstart hoffset, (Unicode.byteCount_take_le_iff hstart hc).1 hle,
      (Unicode.byteCount_take_lt_iff hc hn).1 hlt, hn, hss⟩, rfl⟩

/-- The pieces of spans that sweep over a text do so. -/
theorem sweep_ofSpan {from_ cursor covered : Nat} {ss : List Span} (hc : covered ≤ cs.length)
    (hfrom : ∀ i ≤ cs.length, cursor ≤ i → from_ ≤ byteCount (cs.take i))
    (h : Sweeps cs.length cursor covered ss) :
    Sweep cs from_ (byteCount (cs.take covered)) (ss.map (ofSpan cs)) := by
  induction ss generalizing from_ cursor covered with
  | nil =>
    have hc : covered = cs.length := h
    rw [hc, List.take_length]
    rfl
  | cons s ss ih =>
    obtain ⟨hcursor, hs, hstop, hn, hmore⟩ := h
    have hle : s.start ≤ s.stop := by omega
    have hstart : s.start ≤ cs.length := by omega
    refine ⟨?_, ?_, hfrom _ hstart hcursor, ?_, ?_, ?_⟩
    · refine List.ne_nil_of_length_pos ?_
      rw [ofSpan, List.length_take, List.length_drop]
      omega
    · rw [stop_ofSpan hle]
      exact Unicode.slice?_take hle hn
    · exact (Unicode.byteCount_take_le_iff hstart hc).2 hs
    · rw [stop_ofSpan hle]
      exact (Unicode.byteCount_take_lt_iff hc hn).2 hstop
    · rw [stop_ofSpan hle]
      exact ih hn (fun i hi h ↦ (Unicode.byteCount_take_lt_iff hstart hi).2 h) hmore

end Piece

namespace Sliding

variable (s : Sliding) (text : String)

theorem sweeps_spans : Sweeps text.toList.length 0 0 (s.window.spans text.toList) :=
  s.window.sweeps_spans text.toList

/-- The pieces that the window hands over sweep over the text. -/
theorem sweep_pieces : Piece.Sweep text.toList 0 0 (s.pieces text) :=
  Piece.sweep_ofSpan (Nat.zero_le _) (fun _ _ _ ↦ Nat.zero_le _) (s.sweeps_spans text)

/-- Their chunks are those that the text is split into. -/
theorem chunks?_pieces : Piece.chunks? text.toList (s.pieces text) = some (s.split text) :=
  Piece.chunks?_ofSpan (s.sweeps_spans text).covers

end Sliding

/-- Pieces that sweep over a text come to the chunks of spans that do. -/
theorem Piece.exists_chunks_of_sweep {cs : List Char} {ps : List Piece} (h : Sweep cs 0 0 ps) :
    ∃ ss, Sweeps cs.length 0 0 ss ∧ ps = ss.map (ofSpan cs) ∧
      chunks? cs ps = some (Chunk.ofSpans cs ss) := by
  obtain ⟨ss, hss, rfl⟩ := exists_sweeps (Nat.zero_le _) (fun _ _ _ ↦ Nat.zero_le _) h
  exact ⟨ss, hss, rfl, chunks?_ofSpan hss.covers⟩

end Chunking

/-! ### Windows of passages -/

open Chunking (Chunk Piece Sliding Span Splitter Sweeps)

/-- The window of a span. -/
def Position.ofSpan (s : Span) : Position := ⟨s.start, s.stop⟩

/-- The windows of nodes. -/
def windowsOf (nodes : List ScoredNode) : List Position := nodes.filterMap fun n ↦ n.node.position

/-- **Nodes index a text**: their windows say exactly where their texts stand in it, and go over the
whole of it. -/
structure Indexes (cs : List Char) (nodes : List ScoredNode) : Prop where
  /-- Every node has a window, and its text is what stands there. -/
  located : ∀ n ∈ nodes, ∃ p, n.node.position = some p ∧ p.start < p.stop ∧ p.stop ≤ cs.length ∧
    n.text.toList = cs.extract p.start p.stop
  /-- The first window starts with the text. -/
  head : ∀ p ∈ (windowsOf nodes).head?, p.start = 0
  /-- The last window ends with the text. -/
  last : ∀ p ∈ (windowsOf nodes).getLast?, p.stop = cs.length
  /-- Starts and ends increase, and there is no gap between two windows. -/
  isChain : (windowsOf nodes).IsChain fun p p' ↦
    p.start < p'.start ∧ p'.start ≤ p.stop ∧ p.stop < p'.stop
  /-- Every character is in a window. -/
  covered : ∀ i < cs.length, ∃ p ∈ windowsOf nodes, p.start ≤ i ∧ i < p.stop

/-- Nodes with the texts and the windows of spans index the text. -/
theorem Indexes.of_sweeps {cs : List Char} {ss : List Span} {nodes : List ScoredNode}
    (h : Sweeps cs.length 0 0 ss)
    (hnodes : nodes.map (fun n ↦ (n.text.toList, n.node.position)) =
      ss.map fun s ↦ (cs.extract s.start s.stop, some (Position.ofSpan s))) :
    Indexes cs nodes := by
  have hwindows : windowsOf nodes = ss.map Position.ofSpan := by
    have := congrArg (List.filterMap Prod.snd) hnodes
    rw [List.filterMap_map, List.filterMap_map] at this
    exact this.trans (congrFun List.filterMap_eq_map ss)
  constructor
  · intro n hn
    obtain ⟨s, hs, heq⟩ := List.mem_map.1 (hnodes ▸ List.mem_map_of_mem hn)
    obtain ⟨htext, hposition⟩ := Prod.mk.inj heq
    obtain ⟨hlt, hle⟩ := h.lt_and_le_of_mem hs
    exact ⟨Position.ofSpan s, hposition.symm, hlt, hle, htext.symm⟩
  · intro p hp
    rw [hwindows, List.head?_map] at hp
    obtain ⟨s, hs, rfl⟩ := Option.map_eq_some_iff.1 hp
    exact h.start_of_mem_head? hs
  · intro p hp
    rw [hwindows, List.getLast?_map] at hp
    obtain ⟨s, hs, rfl⟩ := Option.map_eq_some_iff.1 hp
    exact h.stop_of_mem_getLast? hs
  · rw [hwindows, List.isChain_map]
    exact h.isChain
  · intro i hi
    obtain ⟨s, hs, hin⟩ := h.exists_mem (Nat.zero_le i) hi
    exact ⟨Position.ofSpan s, hwindows ▸ List.mem_map_of_mem hs, hin⟩

namespace Document

variable (d : Document)

/-- **The two accumulators agree.** Counted from the end of the chunk before, each chunk of a sweep
has the window of its span. -/
theorem positionsFrom_ofSpansFrom {cs : List Char} {cursor reached : Nat} {ss : List Span}
    (h : Sweeps cs.length cursor reached ss) :
    positionsFrom reached (Chunk.ofSpansFrom cs reached ss) = ss.map Position.ofSpan := by
  induction ss generalizing cursor reached with
  | nil => rfl
  | cons s ss ih =>
    rw [Chunk.ofSpansFrom_cons h]
    obtain ⟨-, hstart, hstop, hn, hmore⟩ := h
    have hle : s.start ≤ s.stop := by omega
    have hfrom : reached - (reached - s.start) = s.start := by omega
    rw [positionsFrom, Chunk.length_ofExtract hle hn, hfrom, Nat.add_sub_cancel' hle, ih hmore]
    rfl

/-- The passages of spans have the texts and the windows of the spans. -/
theorem map_zipWith_passage {cs : List Char} {cursor reached : Nat} {ss : List Span}
    (h : Sweeps cs.length cursor reached ss) :
    (List.zipWith d.passage (Chunk.ofSpansFrom cs reached ss) (ss.map Position.ofSpan)).map
        (fun n ↦ (n.text.toList, n.node.position)) =
      ss.map fun s ↦ (cs.extract s.start s.stop, some (Position.ofSpan s)) := by
  induction ss generalizing cursor reached with
  | nil => rfl
  | cons s ss ih =>
    have htext (overlap : Nat) :
        (d.passage ⟨String.ofList (cs.extract s.start s.stop), overlap⟩
          (Position.ofSpan s)).text.toList = cs.extract s.start s.stop :=
      String.toList_ofList
    rw [Chunk.ofSpansFrom_cons h, List.map_cons, List.zipWith_cons_cons, List.map_cons, htext,
      ih h.2.2.2.2]
    rfl

/-- A splitter that gives the chunks of spans gives passages that index the document. -/
theorem indexes_passages {S : Splitter} {ss : List Span}
    (h : Sweeps d.text.toList.length 0 0 ss)
    (hs : S.split d.text = Chunk.ofSpans d.text.toList ss) :
    Indexes d.text.toList (d.passages S) := by
  refine .of_sweeps h ?_
  rw [passages, hs, Chunk.ofSpans, positionsFrom_ofSpansFrom h]
  exact d.map_zipWith_passage h

/-- **Passages index their document.** Whatever pieces a chunker hands over, as long as they sweep
over the text: no slice goes wrong, and the passages of their chunks index the document. The pieces
of a window of any valid sizing do sweep over the text, and their chunks are those that the text is
split into; so the passages of the document index it. -/
theorem passages_indexed (s : Sliding) :
    (∀ ps, Piece.Sweep d.text.toList 0 0 ps →
        ∃ chunks, Piece.chunks? d.text.toList ps = some chunks ∧
          Indexes d.text.toList (d.passages (.fixed chunks))) ∧
      Piece.Sweep d.text.toList 0 0 (s.pieces d.text) ∧
      Piece.chunks? d.text.toList (s.pieces d.text) = some (s.split d.text) ∧
      Indexes d.text.toList (d.passages (.sliding s)) := by
  refine ⟨fun ps hps ↦ ?_, s.sweep_pieces d.text, s.chunks?_pieces d.text,
    d.indexes_passages (s.sweeps_spans d.text) rfl⟩
  obtain ⟨ss, hss, -, hchunks⟩ := Piece.exists_chunks_of_sweep hps
  exact ⟨_, hchunks, d.indexes_passages hss rfl⟩

end Document

end CitedAnswers

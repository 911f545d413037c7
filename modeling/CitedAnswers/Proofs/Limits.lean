import CitedAnswers.Proofs.Course
import CitedAnswers.Proofs.Drift
import CitedAnswers.Proofs.RoundTrip

/-!
# Windows at the limit of sizes

Any size may be given as the start of a passage, and the windows of its sources are reckoned from
there by adding up lengths. Nothing keeps such a sum from going beyond the largest size, and
numbering stops if one does.

`Citation.windows_at_limit` says when: all goes well exactly if the chunks of every passage, with
one character after each, have room behind its start. That rests on the greatest of the sums, the
offset after the last chunk, in which no window has a part; so numbering may stop although all
windows would have been within the sizes. Whenever there are windows, they are as long as their
chunks.

An engine that numbers passages forms the same sums, whatever else it does in between
(`Engine.sums_of_yields_number`), so it stops where numbering by itself does.
-/

namespace CitedAnswers

open Chunking (Chunk Splitter)

/-! ### Starts of passages -/

theorem Position.start_lt_of_reads {depth : Nat} {p : Position} (h : form.read.Reads depth p) :
    p.start < Size.bound := by
  obtain ⟨d, -, hget⟩ := laid.reads_get h
  simp only [members, List.forall_mem_cons] at hget
  have hstart : Json.Form.size.read.Reads d p.start ∨ p.start = 0 := hget.1
  rcases hstart with hreads | hzero
  · exact Json.Form.lt_bound_of_reads_size hreads
  · rw [hzero]
    decide

theorem Node.start_lt_of_reads {depth : Nat} {n : Node} (h : form.read.Reads depth n) {p : Position}
    (hp : n.position = some p) : p.start < Size.bound := by
  obtain ⟨d, -, hget⟩ := laid.reads_get h
  simp only [members, List.forall_mem_cons] at hget
  have hposition : Position.form.option.read.Reads d n.position ∨ n.position = none := hget.2.2.2.1
  rw [hp] at hposition
  rcases hposition with hreads | hnone
  · exact Position.start_lt_of_reads (Json.Form.reads_of_option hreads)
  · cases hnone

namespace Citation

/-- **Passages that are read from JSON start at sizes.** One without a position starts at zero. -/
theorem baseOf_lt_of_run {s : String} {passages : List ScoredNode}
    (h : ScoredNode.listReader.run s = .ok passages) : ∀ p ∈ passages, baseOf p < Size.bound := by
  intro p hp
  obtain ⟨t, ht⟩ := Json.Reader.reads_of_run h
  obtain ⟨d, ts, -, -, hts⟩ := Json.Form.list_eq_ok_iff.1 ht
  obtain ⟨d', -, hget⟩ := ScoredNode.laid.reads_get (Json.Form.reads_of_mem_items hts hp)
  simp only [ScoredNode.members, List.forall_mem_cons] at hget
  have hnode : Node.form.read.Reads d' p.node ∨ p.node = ⟨"", none, none, none⟩ := hget.1
  rw [baseOf]
  rcases hposition : p.node.position with - | w
  · decide
  · rcases hnode with hreads | hblank
    · exact Node.start_lt_of_reads hreads hposition
    · rw [hblank] at hposition
      cases hposition

/-! ### Numbering that stops -/

variable {S : Splitter} {passages nodes : List ScoredNode}

/-- Numbering comes to the nodes if all sums are sizes. -/
theorem build?_eq_some_iff : build? S passages = some nodes ↔
    (∀ p ∈ passages, ∀ n ∈ sums S p, n < Size.bound) ∧ sources S passages = nodes := by
  simp [build?, Size.isSize]

theorem build?_eq_none_iff :
    build? S passages = none ↔ ∃ p ∈ passages, ∃ n ∈ sums S p, Size.bound ≤ n := by
  simp [build?, Size.isSize]

/-- There is room for the chunks of a passage behind its start, with one character after each. -/
def HasRoom (S : Splitter) (passage : ScoredNode) : Prop :=
  baseOf passage + Chunk.room (S.split passage.text) < Size.bound

instance (S : Splitter) (passage : ScoredNode) : Decidable (HasRoom S passage) :=
  inferInstanceAs (Decidable (_ < _))

/-! ### Windows of sources -/

/-- **A window fits its chunk**: it does not end before it starts, it is as long as the chunk, and
its end is a size. -/
structure Fits (c : Chunk) (w : Position) : Prop where
  ordered : w.start ≤ w.stop
  length : w.length = c.length
  isSize : w.stop < Size.bound

/-- What relates the chunks of each passage to their windows relates all chunks to the windows of
their sources. -/
theorem forall₂_position_sourcesFrom {R : ScoredNode × Chunk → Position → Prop}
    (h : ∀ p ∈ passages, List.Forall₂ (fun c w ↦ R (p, c) w) (S.split p.text)
      (windowsFrom (baseOf p) (S.split p.text))) (first : Nat) :
    List.Forall₂ (fun x n ↦ ∃ w, n.node.position = some w ∧ R x w) (chunksOf S passages)
      (sourcesFrom S first passages) := by
  induction passages generalizing first with
  | nil => exact .nil
  | cons p ps ih =>
    obtain ⟨hp, hps⟩ := List.forall_mem_cons.1 h
    have hwindows : List.Forall₂ (fun c o ↦ ∃ w, o = some w ∧ R (p, c) w) (S.split p.text)
        ((windowsFrom (baseOf p) (S.split p.text)).map some) :=
      List.forall₂_map_right_iff.2 (hp.imp fun _ w hw ↦ ⟨w, rfl, hw⟩)
    rw [← map_position_sourcesOf S p first, List.forall₂_map_right_iff] at hwindows
    rw [chunksOf, List.flatMap_cons, sourcesFrom]
    exact List.rel_append (List.forall₂_map_left_iff.2 hwindows) (ih hps _)

/-- The end of a window is among the sums, and a window whose end is a size fits its chunk. -/
theorem forall₂_fits {offset : Nat} {cs : List Chunk}
    (h : ∀ n ∈ sumsFrom offset cs, n < Size.bound) :
    List.Forall₂ Fits cs (windowsFrom offset cs) := by
  induction cs generalizing offset with
  | nil => exact .nil
  | cons c cs ih =>
    simp only [sumsFrom, List.forall_mem_append, List.forall_mem_cons] at h
    obtain ⟨⟨-, -, hstop, -⟩, hmore⟩ := h
    exact .cons ⟨Nat.le_add_right .., Nat.add_sub_cancel_left .., hstop⟩ (ih hmore)

end Citation

/-! ### Engines that stop -/

namespace Engine

variable {e : Engine} {passages nodes : List ScoredNode} {t : List Occurrence}

/-- **What an engine adds up while it numbers passages** are the sums for their sources. -/
theorem sums_of_yields_number (h : (e.number passages).Yields t nodes) :
    Trace.sums t = passages.flatMap (Citation.sums e.citationSplitter) := by
  obtain ⟨rfl, -⟩ := e.yields_number.1 h
  have hsums (p : ScoredNode) : Trace.sums ((e.citationSplitter.notices p.text).map .noted ++
      (Citation.sums e.citationSplitter p).map .summed) = Citation.sums e.citationSplitter p := by
    simp [Trace.sums, List.filterMap_map]
  have hplacing : Trace.sums (e.placing passages) =
      passages.flatMap (Citation.sums e.citationSplitter) := by
    rw [Trace.sums, placing, List.filterMap_flatMap]
    exact congrArg (passages.flatMap ·) (funext hsums)
  rw [Trace.sums, List.filterMap_append, ← Trace.sums, hplacing]
  exact List.append_nil _

/-- So it stops exactly if numbering by itself does. -/
theorem stops_iff_of_yields_number (h : (e.number passages).Yields t nodes) :
    Trace.stops t ↔ Citation.build? e.citationSplitter passages = none := by
  rw [Citation.build?_eq_none_iff, Trace.stops, sums_of_yields_number h]
  simp [Size.isSize]

end Engine

namespace Citation

/-- **Windows at the limit of sizes**, for passages that start at sizes.

No sum of a passage goes beyond the largest size exactly if its chunks, with one character after
each, have room behind its start. Numbering comes to its nodes exactly if this is so for every
passage, and stops otherwise; so does an engine that numbers the passages. If there are nodes, the
window of each fits the chunk. -/
theorem windows_at_limit (S : Splitter) (passages : List ScoredNode)
    (h : ∀ p ∈ passages, baseOf p < Size.bound) :
    (∀ p ∈ passages, (∀ n ∈ sums S p, n < Size.bound) ↔ HasRoom S p) ∧
      (build? S passages = none ↔ ∃ p ∈ passages, ¬HasRoom S p) ∧
      (∀ nodes, build? S passages = some nodes → nodes = sources S passages ∧
        List.Forall₂ (fun x n ↦ ∃ w, n.node.position = some w ∧ Fits x.2 w)
          (chunksOf S passages) nodes) ∧
      ∀ (e : Engine) (path : Path) (w : World), e.citationSplitter = S → w.trace = [] →
        (Trace.stops (e.perform path (e.number passages) w).2.trace ↔
          ∃ p ∈ passages, ¬HasRoom S p) := by
  have hroom : ∀ p ∈ passages, (∀ n ∈ sums S p, n < Size.bound) ↔ HasRoom S p :=
    fun p hp ↦ forall_mem_sumsFrom_lt_iff (h p hp)
  have hnone : build? S passages = none ↔ ∃ p ∈ passages, ¬HasRoom S p := by
    rw [build?_eq_none_iff]
    refine exists_congr fun p ↦ and_congr_right fun hp ↦ ?_
    rw [← hroom p hp]
    simp
  refine ⟨hroom, hnone, fun nodes hnodes ↦ ?_, fun e path w hsplitter hw ↦ ?_⟩
  · obtain ⟨hsums, rfl⟩ := build?_eq_some_iff.1 hnodes
    exact ⟨rfl, forall₂_position_sourcesFrom (fun p hp ↦ forall₂_fits (hsums p hp)) 1⟩
  · subst hsplitter
    rw [← hnone]
    exact Engine.stops_iff_of_yields_number (e.yields_perform path (e.number passages) hw).1

/-- Two starts near the largest size. From the first there is just room, up to the largest size.
From the second the window has room too, but not the offset after it. -/
theorem windows_at_limit_rain :
    let passage (start : Nat) : ScoredNode :=
      ⟨{ text := "rain", position := some ⟨start, 0⟩ }, none⟩
    let near := passage (Size.bound - 6)
    let nearer := passage (Size.bound - 5)
    (∀ p ∈ [near], baseOf p < Size.bound) ∧ (∀ p ∈ [near, nearer], baseOf p < Size.bound) ∧
      (∃ nodes, build? .lines [near] = some nodes ∧
        List.Forall₂ (fun x n ↦ ∃ w, n.node.position = some w ∧ Fits x.2 w)
          (chunksOf .lines [near]) nodes ∧
        nodes.map (fun n ↦ n.node.position) = [some ⟨Size.bound - 6, Size.bound - 2⟩]) ∧
      build? .lines [near, nearer] = none := by
  intro passage near nearer
  have hstart : ∀ p ∈ [near], baseOf p < Size.bound := by decide
  have hstarts : ∀ p ∈ [near, nearer], baseOf p < Size.bound := by decide
  have hroom : ¬HasRoom .lines nearer := by decide +kernel
  have hbuild : build? .lines [near] = some (sources .lines [near]) :=
    build?_eq_some_iff.2 ⟨by decide +kernel, rfl⟩
  refine ⟨hstart, hstarts, ⟨_, hbuild, ?_, by decide +kernel⟩, ?_⟩
  · exact ((windows_at_limit .lines [near] hstart).2.2.1 _ hbuild).2
  · exact (windows_at_limit .lines [near, nearer] hstarts).2.1.2 ⟨nearer, by simp, hroom⟩

/-- **A passage that starts at the largest size**, as it is read from JSON: any chunk at all is too
much behind it, so numbering stops. -/
theorem stops_at_largest_start :
    let usual : Splitter := .sliding ⟨.citation, by decide, .standard⟩
    let text := "[\x7b\"node\": \x7b\"text\": \"rain\", \"position\": " ++
      "\x7b\"start\": 18446744073709551615, \"end\": 18446744073709551615\x7d\x7d\x7d]"
    ∃ passages, ScoredNode.listReader.run text = .ok passages ∧
      (∀ p ∈ passages, baseOf p < Size.bound) ∧ build? usual passages = none ∧
      ¬∀ p ∈ passages, ∀ n ∈ sums usual p, n < Size.bound := by
  intro usual text
  have hread : (ScoredNode.listReader.run text).toOption.map (fun passages ↦
      (build? usual passages).isSome) = some false := by
    decide +kernel
  rcases hs : ScoredNode.listReader.run text with f | passages
  · rw [hs] at hread
    cases hread
  · rw [hs] at hread
    have hnone : build? usual passages = none := by
      rw [← Option.not_isSome_iff_eq_none]
      exact Bool.eq_false_iff.1 (Option.some.inj hread)
    refine ⟨passages, rfl, baseOf_lt_of_run hs, hnone, fun hsums ↦ ?_⟩
    exact absurd (build?_eq_some_iff.2 ⟨hsums, rfl⟩) (by rw [hnone]; exact nofun)

end Citation

end CitedAnswers

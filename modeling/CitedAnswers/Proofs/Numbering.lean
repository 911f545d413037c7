import CitedAnswers.Engine.Basic
import CitedAnswers.Proofs.Labels
import CitedAnswers.Proofs.Polling
import Mathlib.Algebra.GroupWithZero.Nat
import Mathlib.Data.List.Forall2

/-!
# Numbers of sources

Sources are numbered from one upwards across all passages: the `k`-th chunk, counted over all
passages and in their order, becomes the source with the number `k` (`Citation.forall₂_sources`),
and carries what is known of its passage. Passages without chunks and chunks that look like labels
make no difference.

The numbering is a recursion over the passages, each of which begins with the number after the last
one given. As every chunk becomes one node, that is the number of chunks before, so the recursion
goes along with the chunks numbered in one list, `(chunksOf s passages).zipIdx 1`.
-/

namespace CitedAnswers

open Chunking (Chunk Splitter)

namespace Citation

/-- The chunks of passages, each with its passage. -/
def chunksOf (s : Splitter) (passages : List ScoredNode) : List (ScoredNode × Chunk) :=
  passages.flatMap fun p ↦ (s.split p.text).map (p, ·)

/-- **A node is the source with the number `k`** for a chunk of a passage. -/
structure IsSource (k : Nat) (passage : ScoredNode) (c : Chunk) (n : ScoredNode) : Prop where
  text : n.text = "Source " ++ toString k ++ ":\n" ++ c.text ++ "\n"
  /-- The label is read back, if the number is a size. -/
  citationNumber? : n.citationNumber? = if k < Size.bound then some k else none
  score : n.score = passage.score
  metadata : n.node.metadata = some (passage.node.metadata.getD [])
  links : n.node.links = some (passage.node.links.getD [])

theorem isSource_source (passage : ScoredNode) (k : Nat) (c : Chunk) (p : Position) :
    IsSource k passage c (source passage k c p) where
  text := Node.label_eq k c.text
  citationNumber? := Node.citationNumber?_label rfl
  score := rfl
  metadata := rfl
  links := rfl

theorem length_windowsFrom (offset : Nat) (cs : List Chunk) :
    (windowsFrom offset cs).length = cs.length := by
  induction cs generalizing offset with
  | nil => rfl
  | cons c cs ih => exact congrArg (· + 1) (ih _)

theorem forall₂_number (passage : ScoredNode) (first : Nat) (cs : List (Chunk × Position)) :
    List.Forall₂ (fun x n ↦ IsSource x.2 x.1.1 x.1.2 n)
      ((cs.map fun c ↦ (passage, c.1)).zipIdx first) (number passage first cs) := by
  induction cs generalizing first with
  | nil => exact .nil
  | cons c cs ih => exact .cons (isSource_source ..) (ih _)

/-- The nodes of one passage are the sources for its chunks. -/
theorem forall₂_sourcesOf (s : Splitter) (passage : ScoredNode) (first : Nat) :
    List.Forall₂ (fun x n ↦ IsSource x.2 x.1.1 x.1.2 n)
      (((s.split passage.text).map (passage, ·)).zipIdx first) (sourcesOf s passage first) := by
  have h := forall₂_number passage first
    ((s.split passage.text).zip (windowsFrom (baseOf passage) (s.split passage.text)))
  have hmap : ∀ cs : List (Chunk × Position),
      cs.map (fun c ↦ (passage, c.1)) = (cs.map Prod.fst).map (passage, ·) := fun cs ↦
    (List.map_map ..).symm
  rwa [hmap, List.map_fst_zip (Nat.le_of_eq (length_windowsFrom ..).symm)] at h

/-- **The nodes of passages are the sources for their chunks**, numbered without a gap. -/
theorem forall₂_sourcesFrom (s : Splitter) (first : Nat) (passages : List ScoredNode) :
    List.Forall₂ (fun x n ↦ IsSource x.2 x.1.1 x.1.2 n)
      ((chunksOf s passages).zipIdx first) (sourcesFrom s first passages) := by
  induction passages generalizing first with
  | nil => exact .nil
  | cons p ps ih =>
    have h := forall₂_sourcesOf s p first
    have hl : (sourcesOf s p first).length = ((s.split p.text).map (p, ·)).length := by
      rw [← h.length_eq, List.length_zipIdx]
    rw [chunksOf, List.flatMap_cons, List.zipIdx_append, sourcesFrom, hl]
    exact List.rel_append h (ih _)

theorem length_chunksOf (s : Splitter) (passages : List ScoredNode) :
    (chunksOf s passages).length = (passages.map fun p ↦ (s.split p.text).length).sum := by
  simp [chunksOf, List.length_flatMap]

theorem length_sources (s : Splitter) (passages : List ScoredNode) :
    (sources s passages).length = (chunksOf s passages).length := by
  rw [sources, ← (forall₂_sourcesFrom s 1 passages).length_eq, List.length_zipIdx]

/-- The node at place `i` is the source with the number `i + 1`. -/
theorem exists_isSource_of_getElem? {s : Splitter} {passages : List ScoredNode} {i : Nat}
    {n : ScoredNode} (h : (sources s passages)[i]? = some n) :
    ∃ passage c, IsSource (i + 1) passage c n := by
  obtain ⟨hi, rfl⟩ := List.getElem?_eq_some_iff.1 h
  have hc : i < ((chunksOf s passages).zipIdx 1).length := by
    rwa [List.length_zipIdx, ← length_sources]
  have hsource := (List.forall₂_iff_get.1 (forall₂_sourcesFrom s 1 passages)).2 i hc hi
  rw [List.get_eq_getElem, List.getElem_zipIdx, Nat.add_comm 1 i] at hsource
  exact ⟨_, _, hsource⟩

/-- The number read back from a source is the one it was given, as long as that is a size. -/
theorem citationNumber?_of_getElem? {s : Splitter} {passages : List ScoredNode} {i : Nat}
    {n : ScoredNode} (h : (sources s passages)[i]? = some n) :
    n.citationNumber? = if i + 1 < Size.bound then some (i + 1) else none := by
  obtain ⟨_, _, hsource⟩ := exists_isSource_of_getElem? h
  exact hsource.citationNumber?

/-- A source has a text, which begins with its label. -/
theorem text_ne_empty_of_mem_sources {s : Splitter} {passages : List ScoredNode} {n : ScoredNode}
    (h : n ∈ sources s passages) : n.text ≠ "" := by
  obtain ⟨i, hi⟩ := List.getElem?_of_mem h
  obtain ⟨_, _, hsource⟩ := exists_isSource_of_getElem? hi
  rw [hsource.text]
  simp

/-- The numbers read back from sources are those they were given, as long as all of them are
sizes. -/
theorem map_citationNumber? {s : Splitter} {passages : List ScoredNode}
    (h : (sources s passages).length < Size.bound) :
    (sources s passages).map ScoredNode.citationNumber? =
      (List.range' 1 (sources s passages).length).map some := by
  refine List.ext_getElem (by simp) fun i hi hi' ↦ ?_
  rw [List.length_map] at hi
  have hnumber := citationNumber?_of_getElem? (List.getElem?_eq_getElem hi)
  simp only [List.getElem_map, List.getElem_range', Nat.one_mul, Nat.add_comm 1 i]
  exact hnumber.trans (if_pos (show i + 1 < Size.bound by omega))

end Citation

namespace Engine

/-- Numbering passages comes to the same nodes whatever was done before. -/
theorem perform_number (e : Engine) (path : Path) (passages : List ScoredNode) (w : World) :
    (e.perform path (e.number passages) w).1 = Citation.sources e.citationSplitter passages := by
  rw [perform, Work.perform_eq_run]
  show (Work.run _ ((e.place passages).bind _) w).1 = _
  rw [Work.run_bind]
  rfl

/-- **Numbering passages.** Every chunk of the passages becomes one node, in the order of the
passages and of the chunks of each, and the `k`-th of all chunks becomes the source with the number
`k`. The numbers read back are exactly those from one to the number of chunks, if that is a size at
all. As this holds in every world, numbering passages again begins again with one. -/
theorem number_passages (e : Engine) (path : Path) (passages : List ScoredNode) (w : World) :
    let nodes := (e.perform path (e.number passages) w).1
    nodes.length = (passages.map fun p ↦ (e.citationSplitter.split p.text).length).sum ∧
      List.Forall₂ (fun x n ↦ Citation.IsSource x.2 x.1.1 x.1.2 n)
        ((Citation.chunksOf e.citationSplitter passages).zipIdx 1) nodes ∧
      (nodes.length < Size.bound →
        nodes.map ScoredNode.citationNumber? = (List.range' 1 nodes.length).map some) ∧
      ∀ (w' : World) (path' : Path), (e.perform path' (e.number passages) w').1 = nodes := by
  simp only [perform_number]
  refine ⟨?_, ?_, ?_, ?_⟩
  · rw [Citation.length_sources, Citation.length_chunksOf]
  · exact Citation.forall₂_sourcesFrom ..
  · exact Citation.map_citationNumber?
  · exact fun _ _ ↦ trivial

end Engine

end CitedAnswers

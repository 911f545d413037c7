import CitedAnswers.Proofs.Markers
import CitedAnswers.Proofs.Numbering
import CitedAnswers.Synthesis.Postprocessor
import Mathlib.Data.List.Perm.Subperm

/-!
# Citations resolve to their sources

A number in an answer is looked up among the nodes that postprocessors have left, in whatever order
they have left them. Of any nodes, it finds the first that carries it (`Citation.mem_find?_iff`), so
what an answer cites is a matter of its markers and of first nodes (`Citation.citations_found`).

Sources do not carry just any numbers: no two have the same one, and the `n`-th of all sources has
the number `n` (`Citation.citationNumber?_eq_some_iff`). So a number resolves to the `n`-th source
or, if that was dropped, to nothing; it never resolves to another one (`Citation.Resolves`).

Postprocessors may only drop and reorder nodes for this, which all but custom ones do
(`Synthesis.Postprocessor.subperm_applyAll`). The order is of no account, and neither would
repetitions be: all that is needed of the nodes left over is that they are among the sources.
-/

namespace CitedAnswers

namespace Citation

open Chunking (Splitter)

/-! ### Looking up a number -/

/-- A number and the node it resolves to, wherever that stands. -/
def Cited.entry (c : Cited) : Nat × ScoredNode := (c.number, c.node)

theorem of_mem_find? {nodes : List ScoredNode} {n : Nat} {c : Cited} (h : c ∈ find? nodes n) :
    c.number = n ∧ nodes[c.index]? = some c.node ∧ c.node.citationNumber? = some n := by
  obtain ⟨m, hm, rfl⟩ := Option.map_eq_some_iff.1 h
  obtain ⟨hlt, rfl⟩ := List.getElem?_eq_some_iff.1 hm
  have hnumber := List.findIdx_getElem (w := hlt)
  exact ⟨rfl, hm, eq_of_beq hnumber⟩

theorem exists_mem_find? {nodes : List ScoredNode} {n : Nat} {m : ScoredNode} (hm : m ∈ nodes)
    (h : m.citationNumber? = some n) : ∃ c, c ∈ find? nodes n := by
  have hlt : nodes.findIdx (fun m ↦ m.citationNumber? == some n) < nodes.length :=
    List.findIdx_lt_length_of_exists ⟨m, hm, beq_iff_eq.2 h⟩
  refine ⟨_, Option.map_eq_some_iff.2 ⟨_, List.getElem?_eq_getElem hlt, rfl⟩⟩

/-- **The first node with a number**, and its place. -/
structure IsFirst (nodes : List ScoredNode) (n i : Nat) (m : ScoredNode) : Prop where
  getElem? : nodes[i]? = some m
  number : m.citationNumber? = some n
  first : ∀ j < i, ∀ m', nodes[j]? = some m' → m'.citationNumber? ≠ some n

theorem IsFirst.unique {nodes : List ScoredNode} {n i i' : Nat} {m m' : ScoredNode}
    (h : IsFirst nodes n i m) (h' : IsFirst nodes n i' m') : i = i' ∧ m = m' := by
  have hi : i = i' := by
    rcases Nat.lt_trichotomy i i' with hlt | heq | hlt
    · exact absurd h.number (h'.first i hlt m h.getElem?)
    · exact heq
    · exact absurd h'.number (h.first i' hlt m' h'.getElem?)
  subst hi
  exact ⟨rfl, Option.some.inj (h.getElem?.symm.trans h'.getElem?)⟩

theorem isFirst_of_mem_find? {nodes : List ScoredNode} {n : Nat} {c : Cited}
    (h : c ∈ find? nodes n) : IsFirst nodes n c.index c.node := by
  obtain ⟨-, hindex, hnumber⟩ := of_mem_find? h
  obtain ⟨m, -, rfl⟩ := Option.map_eq_some_iff.1 h
  refine ⟨hindex, hnumber, fun j hj m' hm' hnumber' ↦ ?_⟩
  obtain ⟨hlt, rfl⟩ := List.getElem?_eq_some_iff.1 hm'
  have hother : (nodes[j].citationNumber? == some n) = false := List.not_of_lt_findIdx hj
  exact (beq_eq_false_iff_ne.1 hother) hnumber'

/-- **Looking up a number** finds the first node with it. -/
theorem mem_find?_iff {nodes : List ScoredNode} {n : Nat} {c : Cited} :
    c ∈ find? nodes n ↔ c.number = n ∧ IsFirst nodes n c.index c.node := by
  constructor
  · exact fun h ↦ ⟨(of_mem_find? h).1, isFirst_of_mem_find? h⟩
  · rintro ⟨hn, hfirst⟩
    obtain ⟨c', hc'⟩ := exists_mem_find? (List.mem_of_getElem? hfirst.getElem?) hfirst.number
    obtain ⟨hindex, hnode⟩ := (isFirst_of_mem_find? hc').unique hfirst
    have hnumber : c'.number = c.number := (of_mem_find? hc').1.trans hn.symm
    obtain rfl : c' = c := by
      cases c
      cases c'
      simp only at hnumber hindex hnode
      rw [hnumber, hindex, hnode]
    exact hc'

/-- A node is cited if its number is looked up and found there. -/
theorem mem_cited_iff {answer : String} {nodes : List ScoredNode} {c : Cited} :
    c ∈ cited answer nodes ↔
      c.number ∈ Marker.numbers answer ∧ IsFirst nodes c.number c.index c.node := by
  rw [cited, List.mem_filterMap]
  constructor
  · rintro ⟨n, hn, hfind⟩
    obtain ⟨rfl, hfirst⟩ := mem_find?_iff.1 hfind
    exact ⟨hn, hfirst⟩
  · rintro ⟨hn, hfirst⟩
    exact ⟨c.number, hn, mem_find?_iff.2 ⟨rfl, hfirst⟩⟩

theorem pairwise_number_cited (answer : String) (nodes : List ScoredNode) :
    ((cited answer nodes).map Cited.number).Pairwise (· < ·) := by
  rw [cited, List.map_filterMap]
  refine (Ascending.pairwise_ofList _).filterMap _ fun n n' hlt k hk k' hk' ↦ ?_
  obtain ⟨c, hc, rfl⟩ := Option.map_eq_some_iff.1 hk
  obtain ⟨c', hc', rfl⟩ := Option.map_eq_some_iff.1 hk'
  rwa [(of_mem_find? hc).1, (of_mem_find? hc').1]

/-- **Markers are found, and what they cite.** The numbers looked up for an answer are the sizes
that are values of items of markers in it, wherever these stand; they are also found by looking for
one marker behind the other, splitting each at its commas and reading the parts without blanks. The
nodes cited are, for each number looked up, the first node with that number if there is one, and no
others; they come in the order of their numbers, each once. -/
theorem citations_found (answer : String) (nodes : List ScoredNode) :
    (∀ n, n ∈ Marker.numbers answer ↔ Marker.Occurs n answer ∧ n < Size.bound) ∧
      (∃ bodies, Marker.Scans answer.toList bodies ∧
        Marker.numbers answer = Ascending.ofList (bodies.flatMap fun body ↦
          (body.splitOn ',').filterMap fun part ↦ Size.read? (Marker.trim part))) ∧
      (∀ c, c ∈ cited answer nodes ↔
        c.number ∈ Marker.numbers answer ∧ IsFirst nodes c.number c.index c.node) ∧
      ((cited answer nodes).map Cited.number).Pairwise (· < ·) :=
  ⟨fun _ ↦ Marker.mem_numbers_iff, Marker.numbers_eq answer, fun _ ↦ mem_cited_iff,
    pairwise_number_cited answer nodes⟩

/-- Brackets within brackets, blanks and line ends around commas, leading zeros, a trailing comma, a
number behind a blank, a number that is too large, and a bracket that is not closed. -/
example : Marker.numbers "[[2 ,\n1] [3,] [ 4] [007, 99999999999999999999] [5" = [1, 2, 7] := by
  decide +kernel

section

variable {S : Splitter} {passages : List ScoredNode} {n : Nat}

/-- **The `n`-th source is the only one with the number `n`.** -/
theorem citationNumber?_eq_some_iff {m : ScoredNode} (hm : m ∈ sources S passages) :
    m.citationNumber? = some n ↔
      n < Size.bound ∧ 1 ≤ n ∧ (sources S passages)[n - 1]? = some m := by
  constructor
  · intro h
    obtain ⟨i, hi⟩ := List.getElem?_of_mem hm
    rw [citationNumber?_of_getElem? hi] at h
    split at h
    · rename_i hlt
      cases h
      exact ⟨hlt, Nat.succ_pos i, hi⟩
    · cases h
  · rintro ⟨hlt, hpos, hi⟩
    have hn : n - 1 + 1 = n := Nat.sub_add_cancel hpos
    rw [citationNumber?_of_getElem? hi, hn, if_pos hlt]

/-- **What a number resolves to** among some of the sources. -/
theorem map_find?_eq_some_iff {kept : List ScoredNode} (h : kept ⊆ sources S passages)
    {x : Nat × ScoredNode} :
    (find? kept n).map Cited.entry = some x ↔ x.1 = n ∧ n < Size.bound ∧ 1 ≤ n ∧
      (sources S passages)[n - 1]? = some x.2 ∧ x.2 ∈ kept := by
  constructor
  · intro hx
    obtain ⟨c, hc, rfl⟩ := Option.map_eq_some_iff.1 hx
    obtain ⟨rfl, hindex, hnumber⟩ := of_mem_find? hc
    have hmem : c.node ∈ kept := List.mem_of_getElem? hindex
    obtain ⟨hlt, hpos, hi⟩ := (citationNumber?_eq_some_iff (h hmem)).1 hnumber
    exact ⟨rfl, hlt, hpos, hi, hmem⟩
  · obtain ⟨k, m⟩ := x
    rintro ⟨rfl, hlt, hpos, hi, hmem⟩
    obtain ⟨c, hc⟩ :=
      exists_mem_find? hmem ((citationNumber?_eq_some_iff (h hmem)).2 ⟨hlt, hpos, hi⟩)
    obtain ⟨hk, hindex, hnumber⟩ := of_mem_find? hc
    have hc' : c.node ∈ kept := List.mem_of_getElem? hindex
    obtain ⟨-, -, hi'⟩ := (citationNumber?_eq_some_iff (h hc')).1 hnumber
    have hnode : c.node = m := Option.some.inj (hi'.symm.trans hi)
    exact Option.map_eq_some_iff.2 ⟨c, hc, Prod.ext hk hnode⟩

theorem map_entry_cited (answer : String) (nodes : List ScoredNode) :
    (cited answer nodes).map Cited.entry =
      (Marker.numbers answer).filterMap fun n ↦ (find? nodes n).map Cited.entry := by
  rw [cited, List.map_filterMap]

end

/-! ### The nodes an answer cites -/

open Classical in
/-- **An answer's citations resolve** among the nodes that are left of all nodes: each number that
occurs in a marker resolves to the node in its place, if that is left. -/
structure Resolves (answer : String) (nodes kept : List ScoredNode) : Prop where
  /-- The nodes cited, each with the number it is cited by. -/
  mem_iff : ∀ n m, (n, m) ∈ (cited answer kept).map Cited.entry ↔
    Marker.Occurs n answer ∧ n < Size.bound ∧ 1 ≤ n ∧ nodes[n - 1]? = some m ∧ m ∈ kept
  /-- They come in the order of their numbers, without repetition. -/
  ascending : ((cited answer kept).map Cited.number).Pairwise (· < ·)
  /-- The place given of a node is one where it stands. -/
  getElem?_index : ∀ c ∈ cited answer kept, kept[c.index]? = some c.node
  /-- They are those cited of all nodes, but for those that were dropped. -/
  eq_filter : (cited answer kept).map Cited.entry =
    ((cited answer nodes).map Cited.entry).filter fun x ↦ x.2 ∈ kept
  /-- The order of the nodes is of no account. -/
  perm : ∀ kept', kept'.Perm kept →
    (cited answer kept').map Cited.entry = (cited answer kept).map Cited.entry

open Classical in
/-- Citations resolve among any of the sources. -/
theorem resolves_of_subset (S : Splitter) (passages : List ScoredNode) (answer : String)
    {kept : List ScoredNode} (h : kept ⊆ sources S passages) :
    Resolves answer (sources S passages) kept where
  mem_iff n m := by
    rw [map_entry_cited, List.mem_filterMap]
    simp only [map_find?_eq_some_iff h, Marker.mem_numbers_iff]
    constructor
    · rintro ⟨_, ⟨hoccurs, -⟩, rfl, hrest⟩
      exact ⟨hoccurs, hrest⟩
    · rintro ⟨hoccurs, hrest⟩
      exact ⟨n, ⟨hoccurs, hrest.1⟩, rfl, hrest⟩
  ascending := pairwise_number_cited answer kept
  getElem?_index c hc := by
    obtain ⟨n, -, hfind⟩ := List.mem_filterMap.1 hc
    exact (of_mem_find? hfind).2.1
  eq_filter := by
    rw [map_entry_cited, map_entry_cited, List.filter_filterMap]
    congr 1
    funext n
    refine Option.ext fun x ↦ ?_
    rw [map_find?_eq_some_iff h, Option.filter_eq_some_iff,
      map_find?_eq_some_iff (List.Subset.refl _)]
    constructor
    · rintro ⟨hn, hlt, hpos, hi, hmem⟩
      exact ⟨⟨hn, hlt, hpos, hi, h hmem⟩, decide_eq_true hmem⟩
    · rintro ⟨⟨hn, hlt, hpos, hi, -⟩, hmem⟩
      exact ⟨hn, hlt, hpos, hi, of_decide_eq_true hmem⟩
  perm kept' hperm := by
    rw [map_entry_cited, map_entry_cited]
    congr 1
    funext n
    refine Option.ext fun x ↦ ?_
    have h' : kept' ⊆ sources S passages := fun m hm ↦ h (hperm.mem_iff.1 hm)
    rw [map_find?_eq_some_iff h, map_find?_eq_some_iff h', hperm.mem_iff]

end Citation

/-! ### What postprocessors leave -/

namespace Synthesis.Postprocessor

/-- A postprocessor that only drops and reorders nodes. A custom one might do otherwise. -/
def Selects (p : Postprocessor) : Prop :=
  ∀ f, p = .custom f → ∀ q nodes, (f q nodes).Subperm nodes

theorem subperm_apply {p : Postprocessor} (h : p.Selects) (q : Query) (nodes : List ScoredNode) :
    (p.apply q nodes).Subperm nodes := by
  cases p with
  | cutoff minScore => exact List.filter_sublist.subperm
  | reverse => exact (List.reverse_perm nodes).subperm
  | skip count => exact (List.drop_sublist ..).subperm
  | matching => exact List.filter_sublist.subperm
  | custom f => exact h f rfl q nodes

/-- **Postprocessors that only drop and reorder**, one after another, do no more than that. -/
theorem subperm_applyAll {ps : List Postprocessor} (h : ∀ p ∈ ps, p.Selects) (q : Query)
    (nodes : List ScoredNode) : (applyAll q ps nodes).Subperm nodes := by
  induction ps generalizing nodes with
  | nil => exact List.Subperm.refl nodes
  | cons p ps ih =>
    obtain ⟨hp, hps⟩ := List.forall_mem_cons.1 h
    exact (ih hps (p.apply q nodes)).trans (subperm_apply hp q nodes)

end Synthesis.Postprocessor

namespace Citation

open Chunking (Splitter)
open Synthesis (Postprocessor)

/-- **Citations resolve to the right chunk.** Whatever is dropped of the sources of some passages,
and in whatever order the rest stands: an answer cites, in the order of their numbers and each once,
the `n`-th of all sources for exactly those sizes `n` that occur in a marker of the answer and whose
source is left. That is what it cites of all the sources but for those dropped, and the order of the
rest is of no account. So it is for whatever postprocessors leave that only drop and reorder. -/
theorem cited_of_kept (S : Splitter) (passages : List ScoredNode) (answer : String) :
    let nodes := sources S passages
    (∀ kept, kept ⊆ nodes → Resolves answer nodes kept) ∧
      ∀ q ps, (∀ p ∈ ps, Postprocessor.Selects p) →
        (Postprocessor.applyAll q ps nodes).Subperm nodes ∧
          Resolves answer nodes (Postprocessor.applyAll q ps nodes) := by
  refine ⟨fun kept h ↦ resolves_of_subset S passages answer h, fun q ps h ↦ ?_⟩
  have hsubperm := Postprocessor.subperm_applyAll h q (sources S passages)
  exact ⟨hsubperm, resolves_of_subset S passages answer hsubperm.subset⟩

/-- Three sources, of which the last was dropped and the others stand in reverse order. -/
theorem cited_of_reversed :
    let q : Query := { text := "When is water wet?" }
    let nodes := sources .lines
      [⟨{ text := "red in the evening\nwet when red" }, none⟩, ⟨{ text := "rain" }, none⟩]
    let answer := "Wet when red [2], in the evening [1, 3]. Not [9]."
    let ps : List Postprocessor := [.reverse, .skip 1]
    (∀ p ∈ ps, p.Selects) ∧
      ((Postprocessor.applyAll q ps nodes).Subperm nodes ∧
        Resolves answer nodes (Postprocessor.applyAll q ps nodes)) ∧
      (cited answer (Postprocessor.applyAll q ps nodes)).map (fun c ↦ (c.number, c.index)) =
        [(1, 1), (2, 0)] := by
  intro q nodes answer ps
  have hps : ∀ p ∈ ps, p.Selects := by
    intro p hp f hf
    simp [ps, hf] at hp
  exact ⟨hps, (cited_of_kept .lines _ answer).2 q ps hps, by decide +kernel⟩

end Citation

end CitedAnswers

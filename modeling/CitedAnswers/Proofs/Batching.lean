import CitedAnswers.Proofs.Answering
import CitedAnswers.Proofs.Numbering
import Mathlib.Data.List.Chain

/-!
# Batches under a budget

In the compact mode the sources of a prompt are a group of consecutive nodes, with the texts of the
group joined by line ends (`Synthesis.context`). The groups are chosen greedily: a group is closed
when the next node does not fit any more. `Synthesis.Packs` says so of a list of groups, without
mention of how they are found, and everything else is read off it.

* `batches_partition` says that the batches are the contexts of such groups. The packing goes from
  one text to the next with a batch that has begun (`pack`), so the induction is on the nodes still
  to come, with a group that has begun (`exists_packs_append`).
* `batches_fewest` says that no other partition into groups that fit has fewer of them, and what
  that means for the number of prompts. Greedy groups stay ahead: where another partition has come
  as far as its first group goes, they have come at least as far (`Packs.length_le`).
-/

namespace CitedAnswers.Synthesis

/-! ### Groups of nodes -/

/-- The context of a group of nodes: their texts, one line end between two. -/
def context (g : List ScoredNode) : String := "\n".intercalate (g.map ScoredNode.text)

@[simp]
theorem context_singleton (n : ScoredNode) : context [n] = n.text := String.intercalate_singleton

theorem context_append {g g' : List ScoredNode} (h : g ≠ []) (h' : g' ≠ []) :
    context (g ++ g') = context g ++ "\n" ++ context g' := by
  rw [context, List.map_append]
  exact String.intercalate_append_of_ne_nil (by simpa using h) (by simpa using h')

theorem length_context_append {g g' : List ScoredNode} (h : g ≠ []) (h' : g' ≠ []) :
    (context (g ++ g')).length = (context g).length + 1 + (context g').length := by
  rw [context_append h h', String.length_append, String.length_append]
  rfl

/-- A context is at least as long as that of the nodes at its end. -/
theorem length_context_le_append (g g' : List ScoredNode) :
    (context g').length ≤ (context (g ++ g')).length := by
  rcases g with - | ⟨n, g⟩
  · exact Nat.le_refl _
  rcases g' with - | ⟨n', g'⟩
  · exact Nat.zero_le _
  · have h := length_context_append (List.cons_ne_nil n g) (List.cons_ne_nil n' g')
    omega

/-- A context is at least as long as its first text. -/
theorem length_text_le_length_context (n : ScoredNode) (g : List ScoredNode) :
    n.text.length ≤ (context (n :: g)).length := by
  rcases g with - | ⟨n', g⟩
  · exact Nat.le_of_eq (congrArg String.length (context_singleton n).symm)
  · have h := length_context_append (List.cons_ne_nil n []) (List.cons_ne_nil n' g)
    rw [context_singleton] at h
    rw [← List.singleton_append, h]
    omega

/-- A group fits the budget. A single node always does. -/
def Fits (budget : Nat) (g : List ScoredNode) : Prop :=
  g.length = 1 ∨ (context g).length ≤ budget

/-- A group with no room for a node does not fit together with it, nor with more around them. -/
theorem not_fits_append {budget : Nat} {g : List ScoredNode} {n : ScoredNode} (hg : g ≠ [])
    (hfull : budget < (context g).length + 1 + n.text.length) (before after : List ScoredNode) :
    ¬Fits budget (before ++ (g ++ n :: after)) := by
  rintro (hone | hle)
  · have hpos := List.length_pos_iff.2 hg
    simp only [List.length_append, List.length_cons] at hone
    omega
  · have hsuffix := length_context_le_append before (g ++ n :: after)
    have happend := length_context_append hg (List.cons_ne_nil n after)
    have htext := length_text_le_length_context n after
    omega

/-- **Nodes are packed into groups**: these are consecutive, none of them is empty, all of them fit,
and no group but the last has room for the first node of the next. -/
structure Packs (budget : Nat) (nodes : List ScoredNode) (groups : List (List ScoredNode)) :
    Prop where
  flatten : groups.flatten = nodes
  ne_nil : ∀ g ∈ groups, g ≠ []
  fits : ∀ g ∈ groups, Fits budget g
  greedy : groups.IsChain fun g g' ↦
    ∀ n ∈ g'.head?, budget < (context g).length + 1 + n.text.length

theorem packs_nil (budget : Nat) : Packs budget [] [] :=
  ⟨rfl, List.forall_mem_nil _, List.forall_mem_nil _, .nil⟩

theorem packs_singleton {budget : Nat} {g : List ScoredNode} (hg : g ≠ []) (hfits : Fits budget g) :
    Packs budget g [g] :=
  ⟨by simp, List.forall_mem_singleton.2 hg, List.forall_mem_singleton.2 hfits, .singleton g⟩

/-- A group that has no room for the first node of the next. -/
theorem Packs.cons {budget : Nat} {g nodes more : List ScoredNode} {n : ScoredNode}
    {groups : List (List ScoredNode)} (h : Packs budget nodes ((n :: more) :: groups)) (hg : g ≠ [])
    (hfits : Fits budget g) (hfull : budget < (context g).length + 1 + n.text.length) :
    Packs budget (g ++ nodes) (g :: (n :: more) :: groups) where
  flatten := by rw [List.flatten_cons, h.flatten]
  ne_nil := List.forall_mem_cons.2 ⟨hg, h.ne_nil⟩
  fits := List.forall_mem_cons.2 ⟨hfits, h.fits⟩
  greedy := by
    refine List.isChain_cons_cons.2 ⟨?_, h.greedy⟩
    rintro _ ⟨⟩
    exact hfull

theorem Packs.tail {budget : Nat} {g nodes : List ScoredNode} {groups : List (List ScoredNode)}
    (h : Packs budget nodes (g :: groups)) : Packs budget groups.flatten groups where
  flatten := rfl
  ne_nil := (List.forall_mem_cons.1 h.ne_nil).2
  fits := (List.forall_mem_cons.1 h.fits).2
  greedy := (List.isChain_cons.1 h.greedy).2

/-- The first node after a group has no room in it. -/
theorem Packs.full {budget : Nat} {g nodes after : List ScoredNode} {n : ScoredNode}
    {groups : List (List ScoredNode)} (h : Packs budget nodes (g :: groups))
    (hn : groups.flatten = n :: after) : budget < (context g).length + 1 + n.text.length := by
  rcases groups with - | ⟨g', groups⟩
  · cases hn
  obtain ⟨n', more, rfl⟩ := List.exists_cons_of_ne_nil (h.tail.ne_nil g' (List.mem_cons_self ..))
  cases hn
  exact (List.isChain_cons_cons.1 h.greedy).1 n rfl

/-- **Greedy groups are fewest.** Another partition may begin with further nodes, as it does when it
has fallen behind. -/
theorem Packs.length_le_of_append {budget : Nat} {nodes before : List ScoredNode}
    {groups others : List (List ScoredNode)} (h : Packs budget nodes groups)
    (hothers : others.flatten = before ++ nodes) (hfits : ∀ g ∈ others, Fits budget g) :
    groups.length ≤ others.length := by
  induction others generalizing before nodes groups with
  | nil =>
    rcases groups with - | ⟨g, groups⟩
    · exact Nat.le_refl _
    · rw [← h.flatten] at hothers
      have hnil : g ++ groups.flatten = [] := (List.append_eq_nil_iff.1 hothers.symm).2
      exact absurd (List.append_eq_nil_iff.1 hnil).1 (h.ne_nil g (List.mem_cons_self ..))
  | cons o others ih =>
    obtain ⟨ho, hmore⟩ := List.forall_mem_cons.1 hfits
    rw [List.flatten_cons, List.append_eq_append_iff] at hothers
    rcases hothers with ⟨before', rfl, hflat⟩ | ⟨taken, rfl, hnodes⟩
    · -- The first of the other groups ends before the nodes to pack.
      exact Nat.le_succ_of_le (ih h hflat hmore)
    rcases groups with - | ⟨g, groups⟩
    · exact Nat.zero_le _
    refine Nat.succ_le_succ ?_
    rw [← h.flatten, List.flatten_cons, List.append_eq_append_iff] at hnodes
    rcases hnodes with ⟨_ | ⟨n, more⟩, rfl, hgroups⟩ | ⟨left, rfl, hflat⟩
    · -- It ends together with the first group, …
      have hflat : others.flatten = [] ++ groups.flatten := hgroups.symm
      exact ih h.tail hflat hmore
    · -- … or beyond it, for which there is no room, …
      exact absurd ho (not_fits_append (h.ne_nil g (List.mem_cons_self ..)) (h.full hgroups) _ _)
    · -- … or within it.
      exact ih h.tail hflat hmore

/-- **Greedy groups are fewest** among all groups that fit. -/
theorem Packs.length_le {budget : Nat} {nodes : List ScoredNode}
    {groups others : List (List ScoredNode)} (h : Packs budget nodes groups)
    (hothers : others.flatten = nodes) (hfits : ∀ g ∈ others, Fits budget g) :
    groups.length ≤ others.length := by
  have hflat : others.flatten = [] ++ nodes := hothers
  exact h.length_le_of_append hflat hfits

/-! ### Packing -/

/-- **Packing nodes** when a group has begun: the first of the groups takes it further. -/
theorem exists_packs_append {budget : Nat} {g ns : List ScoredNode} (hg : g ≠ [])
    (hcontext : context g ≠ "") (hfits : Fits budget g) (hns : ∀ n ∈ ns, n.text ≠ "") :
    ∃ more groups, Packs budget (g ++ ns) ((g ++ more) :: groups) ∧
      pack budget (context g).toList (ns.map fun n ↦ n.text.toList) =
        ((g ++ more) :: groups).map fun g ↦ (context g).toList := by
  induction ns generalizing g with
  | nil =>
    refine ⟨[], [], ?_, ?_⟩
    · rw [List.append_nil]
      exact packs_singleton hg hfits
    · simp [pack, hcontext]
  | cons n ns ih =>
    obtain ⟨hn, hmore⟩ := List.forall_mem_cons.1 hns
    have hone : [n] ≠ [] := List.cons_ne_nil n []
    have hbegun : ¬(context g).toList.isEmpty := by simpa using hcontext
    rw [List.map_cons, pack, if_neg hbegun, String.length_toList, String.length_toList]
    split
    case isTrue hfull =>
      -- The group is closed, and the node begins the next one.
      obtain ⟨more, groups, hpacks, hpack⟩ := ih hone (by simpa using hn) (.inl rfl) hmore
      rw [context_singleton] at hpack
      refine ⟨[], (n :: more) :: groups, ?_, ?_⟩
      · rw [List.append_nil]
        exact hpacks.cons hg hfits hfull
      · rw [List.append_nil, hpack]
        rfl
    case isFalse hroom =>
      -- The node has room in the group.
      have hlength : (context (g ++ [n])).length = (context g).length + 1 + n.text.length := by
        rw [length_context_append hg hone, context_singleton]
      have htext : (context g).toList ++ '\n' :: n.text.toList = (context (g ++ [n])).toList := by
        rw [context_append hg hone, context_singleton]
        simp
      have hnonempty : context (g ++ [n]) ≠ "" := by
        intro h
        rw [h, String.length_empty] at hlength
        omega
      obtain ⟨more, groups, hpacks, hpack⟩ :=
        ih (List.append_ne_nil_of_left_ne_nil hg _) hnonempty (.inr (by omega)) hmore
      rw [List.append_assoc, List.append_assoc] at hpacks
      rw [List.append_assoc] at hpack
      exact ⟨[n] ++ more, groups, hpacks, by rw [htext, hpack]⟩

/-- **Nodes with texts are packed into groups**, whose contexts are the batches. -/
theorem exists_packs (budget : Nat) {nodes : List ScoredNode} (h : ∀ n ∈ nodes, n.text ≠ "") :
    ∃ groups, Packs budget nodes groups ∧
      pack budget [] (nodes.map fun n ↦ n.text.toList) =
        groups.map fun g ↦ (context g).toList := by
  rcases nodes with - | ⟨n, ns⟩
  · exact ⟨[], packs_nil budget, rfl⟩
  · obtain ⟨hn, hns⟩ := List.forall_mem_cons.1 h
    have hfits : Fits budget [n] := .inl rfl
    obtain ⟨more, groups, hpacks, hpack⟩ :=
      exists_packs_append (List.cons_ne_nil n []) (by simpa using hn) hfits hns
    rw [context_singleton] at hpack
    exact ⟨_, hpacks, hpack⟩

/-! ### The length of a batch, counted along -/

/-- Packing text after text, with the length of the batch that has begun counted along. -/
structure Packing where
  /-- The batches that are closed. -/
  closed : List (List Char) := []
  /-- The batch that has begun, if it has any text. -/
  current : List Char := []
  /-- The number of its characters, as it was counted. -/
  length : Nat := 0

namespace Packing

/-- Adds a text to the batch that has begun, or closes that one and begins a batch with the text. -/
def add (budget : Nat) (p : Packing) (t : List Char) : Packing :=
  if p.current.isEmpty then ⟨p.closed, t, p.length + t.length⟩
  else if budget < p.length + 1 + t.length then ⟨p.closed ++ [p.current], t, t.length⟩
  else ⟨p.closed, p.current ++ '\n' :: t, p.length + 1 + t.length⟩

/-- The packing of some nodes. -/
def ofNodes (budget : Nat) (nodes : List ScoredNode) : Packing :=
  (nodes.map fun n ↦ n.text.toList).foldl (add budget) {}

/-- All batches, when no more text comes. -/
def batches (p : Packing) : List (List Char) :=
  p.closed ++ if p.current.isEmpty then [] else [p.current]

variable {budget : Nat} {p : Packing}

/-- **One text** keeps the length in step. -/
theorem length_add (h : p.length = p.current.length) (t : List Char) :
    (p.add budget t).length = (p.add budget t).current.length := by
  rw [add]
  split
  case isTrue hempty =>
    have hzero : p.current.length = 0 := List.length_eq_zero_iff.2 (List.isEmpty_iff.1 hempty)
    show p.length + t.length = t.length
    omega
  · split
    · rfl
    · show p.length + 1 + t.length = (p.current ++ '\n' :: t).length
      rw [List.length_append, List.length_cons]
      omega

/-- **Any texts** keep the length in step. -/
theorem length_foldl_add (h : p.length = p.current.length) (ts : List (List Char)) :
    (ts.foldl (add budget) p).length = (ts.foldl (add budget) p).current.length := by
  induction ts generalizing p with
  | nil => exact h
  | cons t ts ih => exact ih (length_add h t)

/-- **With the length in step**, the batches are those of packing that looks at the batch itself. -/
theorem batches_foldl_add (h : p.length = p.current.length) (ts : List (List Char)) :
    (ts.foldl (add budget) p).batches = p.closed ++ pack budget p.current ts := by
  induction ts generalizing p with
  | nil => rfl
  | cons t ts ih =>
    rw [List.foldl_cons, ih (length_add h t), pack, add, h]
    split
    · rfl
    · split
      · exact List.append_assoc ..
      · rfl

end Packing

/-! ### The batches of a chain -/

/-- **The batches of the compact mode** are contexts of groups that the nodes are packed into. -/
theorem exists_packs_batches (c : Chain) (budget : Nat) {nodes : List ScoredNode}
    (h : ∀ n ∈ nodes, n.text ≠ "") :
    ∃ groups, Packs (max budget 1) nodes groups ∧
      batches (c.withOptions ⟨.compact, budget⟩).options nodes = groups.map context := by
  obtain ⟨groups, hpacks, hpack⟩ := exists_packs (max budget 1) h
  refine ⟨groups, hpacks, ?_⟩
  show (pack (max budget 1) [] _).map String.ofList = _
  rw [hpack, List.map_map]
  exact List.map_congr_left fun g _ ↦ String.ofList_toList

/-- **Batches under a budget**, which is at least one character. If all nodes have texts, the
batches are the contexts of groups that the nodes are packed into: nothing is lost, repeated or
reordered, a batch of more than one node keeps to the budget, and no batch but the last has room for
the next node.

After any of the nodes, the length counted along is the number of characters of the batch that has
begun, and with that length the same batches are found. The sources cut from passages have texts. -/
theorem batches_partition (c : Chain) (budget : Nat) (nodes : List ScoredNode)
    (h : ∀ n ∈ nodes, n.text ≠ "") :
    let bs := batches (c.withOptions ⟨.compact, budget⟩).options nodes
    (∃ groups, Packs (max budget 1) nodes groups ∧ bs = groups.map context) ∧
      (∀ k, let p := Packing.ofNodes (max budget 1) (nodes.take k)
        p.length = p.current.length) ∧
      bs = (Packing.ofNodes (max budget 1) nodes).batches.map String.ofList ∧
      ∀ splitter passages, ∀ n ∈ Citation.sources splitter passages, n.text ≠ "" := by
  intro bs
  refine ⟨exists_packs_batches c budget h, fun k ↦ Packing.length_foldl_add rfl _, ?_,
    fun _ _ _ ↦ Citation.text_ne_empty_of_mem_sources⟩
  rw [Packing.ofNodes, Packing.batches_foldl_add rfl]
  rfl

/-- A batch that is filled up to the budget, with characters of two bytes, and a node that is larger
than the budget. -/
theorem batches_partition_full_and_oversized :
    let nodes : List ScoredNode :=
      ["äö", "xyz", "a", "larger than six", "b"].map (⟨{ text := · }, none⟩)
    (∀ n ∈ nodes, n.text ≠ "") ∧ ∃ groups, Packs 6 nodes groups ∧
      groups.map context = ["äö\nxyz", "a", "larger than six", "b"] := by
  intro nodes
  have h : ∀ n ∈ nodes, n.text ≠ "" := by decide
  obtain ⟨⟨groups, hpacks, hbatches⟩, -⟩ := batches_partition (.ofModel (.echo "" 0)) 6 nodes h
  refine ⟨h, groups, hpacks, ?_⟩
  rw [← hbatches]
  decide +kernel

/-- A larger budget takes no more batches. -/
theorem length_batches_le_of_le (c : Chain) {budget budget' : Nat} {nodes : List ScoredNode}
    (h : ∀ n ∈ nodes, n.text ≠ "") (hle : budget ≤ budget') :
    (batches (c.withOptions ⟨.compact, budget'⟩).options nodes).length ≤
      (batches (c.withOptions ⟨.compact, budget⟩).options nodes).length := by
  obtain ⟨groups, hpacks, hbatches⟩ := exists_packs_batches c budget h
  obtain ⟨groups', hpacks', hbatches'⟩ := exists_packs_batches c budget' h
  -- Groups that keep to a budget keep to a larger one.
  have hfits : ∀ g ∈ groups, Fits (max budget' 1) g := fun g hg ↦
    (hpacks.fits g hg).imp_right fun hfit ↦ by omega
  rw [hbatches, hbatches', List.length_map, List.length_map]
  exact hpacks'.length_le hpacks.flatten hfits

/-- There is at most one batch for each node. -/
theorem length_batches_le_length (c : Chain) (budget : Nat) {nodes : List ScoredNode}
    (h : ∀ n ∈ nodes, n.text ≠ "") :
    (batches (c.withOptions ⟨.compact, budget⟩).options nodes).length ≤ nodes.length := by
  obtain ⟨groups, hpacks, hbatches⟩ := exists_packs_batches c budget h
  have hflat : (nodes.map fun n ↦ [n]).flatten = nodes := List.flatMap_singleton' nodes
  have hfits : ∀ g ∈ nodes.map fun n ↦ [n], Fits (max budget 1) g :=
    List.forall_mem_map.2 fun _ _ ↦ .inl rfl
  have hsingle := hpacks.length_le hflat hfits
  rwa [List.length_map, ← List.length_map context, ← hbatches] at hsingle

/-- **No grouping takes fewer prompts than the compact mode.** Whatever groups the nodes left by the
postprocessors are put into, if every group is a single node or keeps to the budget, there are at
least as many groups as batches. So there are no more batches with a larger budget, and no more than
one for each node, which is what there is one source at a time.

An answer takes one prompt for each batch, and a chain that breaks off sends no more. So the same
goes for the prompts that an answer takes. -/
theorem batches_fewest (c : Chain) (q : Query) (nodes : List ScoredNode)
    (h : ∀ n ∈ Postprocessor.applyAll q c.postprocessors nodes, n.text ≠ "") :
    let kept := Postprocessor.applyAll q c.postprocessors nodes
    let batchesIn (o : Options) : List String := batches (c.withOptions o).options kept
    let takes (o : Options) (t : List Occurrence) (out : Except Failure Response) : Prop :=
      ∃ additional, ((c.withOptions o).synthesize q nodes additional).Yields t out
    (∀ (budget : Nat) (groups : List (List ScoredNode)), groups.flatten = kept →
        (∀ g ∈ groups, Fits (max budget 1) g) →
        (batchesIn ⟨.compact, budget⟩).length ≤ groups.length) ∧
      (∀ o t out, takes o t out → (Trace.prompts t).length ≤ (batchesIn o).length ∧
        (out.toBool → (Trace.prompts t).length = (batchesIn o).length)) ∧
      (∀ budget budget', budget ≤ budget' →
        (batchesIn ⟨.compact, budget'⟩).length ≤ (batchesIn ⟨.compact, budget⟩).length ∧
        ∀ t t' r out, takes ⟨.compact, budget⟩ t (.ok r) → takes ⟨.compact, budget'⟩ t' out →
          (Trace.prompts t').length ≤ (Trace.prompts t).length) ∧
      ∀ budget budget', (batchesIn ⟨.refine, budget⟩).length = kept.length ∧
        (batchesIn ⟨.compact, budget'⟩).length ≤ kept.length ∧
        ∀ t t' r out, takes ⟨.refine, budget⟩ t (.ok r) → takes ⟨.compact, budget'⟩ t' out →
          (Trace.prompts t').length ≤ (Trace.prompts t).length := by
  intro kept batchesIn takes
  have hprompts : ∀ o t out, takes o t out → (Trace.prompts t).length ≤ (batchesIn o).length ∧
      (out.toBool → (Trace.prompts t).length = (batchesIn o).length) := by
    rintro o t out ⟨additional, hyields⟩
    exact Chain.length_prompts_of_yields hyields
  -- Fewer batches are fewer prompts, if the prompts for the more were all answered.
  have hfewer : ∀ o o', (batchesIn o').length ≤ (batchesIn o).length → ∀ t t' r out,
      takes o t (.ok r) → takes o' t' out →
        (Trace.prompts t').length ≤ (Trace.prompts t).length := by
    intro o o' hle t t' r out ht ht'
    rw [(hprompts o t (.ok r) ht).2 rfl]
    exact (hprompts o' t' out ht').1.trans hle
  refine ⟨?_, hprompts, ?_, ?_⟩
  · intro budget groups hflat hfits
    obtain ⟨packed, hpacks, hbatches⟩ := exists_packs_batches c budget h
    show (batches _ kept).length ≤ _
    rw [hbatches, List.length_map]
    exact hpacks.length_le hflat hfits
  · intro budget budget' hle
    have hlarger := length_batches_le_of_le c h hle
    exact ⟨hlarger, hfewer _ _ hlarger⟩
  · intro budget budget'
    have hsingle : (batchesIn ⟨.refine, budget⟩).length = kept.length := List.length_map ..
    have hcompact := length_batches_le_length c budget' h
    exact ⟨hsingle, hcompact, hfewer _ _ (hsingle ▸ hcompact)⟩

/-- The same nodes take four prompts with the same budget, in whatever groups. -/
theorem batches_fewest_four :
    let nodes : List ScoredNode :=
      ["äö", "xyz", "a", "larger than six", "b"].map (⟨{ text := · }, none⟩)
    (∀ n ∈ nodes, n.text ≠ "") ∧ ∀ groups : List (List ScoredNode), groups.flatten = nodes →
      (∀ g ∈ groups, Fits 6 g) → 4 ≤ groups.length := by
  intro nodes
  have h : ∀ n ∈ nodes, n.text ≠ "" := by decide
  let c : Chain := .ofModel (.echo "" 0)
  have hfour : (batches (c.withOptions ⟨.compact, 6⟩).options nodes).length = 4 := by decide +kernel
  refine ⟨h, fun groups hflat hfits ↦ ?_⟩
  rw [← hfour]
  exact (batches_fewest c { text := "" } nodes h).1 6 groups hflat hfits

end CitedAnswers.Synthesis

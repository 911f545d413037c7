import CitedAnswers.Proofs.Answering
import CitedAnswers.Proofs.Citing
import CitedAnswers.Proofs.Polling

/-!
# Additional nodes

Nodes may be given to a synthesis in addition to its passages. They are no sources of the answer:
the model is shown nothing of them, and they come back behind the sources as they were given. Two
syntheses that differ in nothing but their additional nodes send the same prompts, fail alike or
come to the same answer, and leave the same world behind (`Engine.additional_uninvolved`). All this
is one equation, in which the additional nodes occur in the result only
(`Synthesis.Chain.run_synthesize`).

Afterwards, however, sources and additional nodes are one list, and a number of the answer is looked
up in all of it (`Citation.find?_append`). The sources come first, so an additional node never takes
the place of one. But a number that none of them carries any more, or none ever did, resolves to an
additional node whose text begins with that label. `Engine.cited_additional_iff` says exactly when
additional nodes are without influence on what an answer cites, and
`Engine.additional_node_cited` shows an answer that cites one.
-/

namespace CitedAnswers

open Synthesis (Chain Postprocessor)

/-! ### What postprocessors are given -/

namespace Synthesis.Postprocessor

/-- **Postprocessors that do the same to some nodes**, one after another. What they would do to
other nodes is left open. -/
inductive Alike (q : Query) : List ScoredNode → List Postprocessor → List Postprocessor → Prop where
  | nil (nodes : List ScoredNode) : Alike q nodes [] []
  | cons {nodes : List ScoredNode} {p p' : Postprocessor} {ps ps' : List Postprocessor}
    (happly : p.apply q nodes = p'.apply q nodes)
    (hnotices : p.notices q nodes = p'.notices q nodes) (h : Alike q (p.apply q nodes) ps ps') :
    Alike q nodes (p :: ps) (p' :: ps')

variable {q : Query} {nodes : List ScoredNode} {ps ps' : List Postprocessor}

theorem Alike.applyAll_eq (h : Alike q nodes ps ps') :
    applyAll q ps nodes = applyAll q ps' nodes := by
  induction h with
  | nil nodes => rfl
  | @cons nodes p p' ps ps' happly _ _ ih =>
    show applyAll q ps (p.apply q nodes) = applyAll q ps' (p'.apply q nodes)
    rw [ih, happly]

theorem Alike.noticesOfAll_eq (h : Alike q nodes ps ps') :
    noticesOfAll q ps nodes = noticesOfAll q ps' nodes := by
  induction h with
  | nil nodes => rfl
  | @cons nodes p p' ps ps' happly hnotices _ ih =>
    show p.notices q nodes ++ noticesOfAll q ps (p.apply q nodes) =
      p'.notices q nodes ++ noticesOfAll q ps' (p'.apply q nodes)
    rw [ih, hnotices, happly]

end Synthesis.Postprocessor

/-! ### Additional nodes and the answer -/

namespace Synthesis.Chain

variable {c : Chain} {q : Query} {nodes : List ScoredNode}

/-- **Where additional nodes go**: behind the sources, once the answer is made. -/
theorem run_synthesize (c : Chain) (q : Query) (nodes : List ScoredNode)
    (additional : Option (List ScoredNode)) (cs : Collaborators) (w : World) :
    (c.synthesize q nodes additional).run cs w =
      let answered := (c.answer q none (c.batchesOf q nodes)).run cs
        ((Work.noteAll (c.notices q nodes)).run cs w).2
      (answered.1.map fun a ↦
        ⟨a, Postprocessor.applyAll q c.postprocessors nodes ++ additional.getD [], none⟩,
        answered.2) := by
  show ((Work.noteAll _).bind fun _ ↦ (c.answer q none (c.batchesOf q nodes)).bind _).run cs w = _
  rw [Work.run_bind, Work.run_bind]
  rfl

/-- Postprocessors that do the same to the sources make no difference. -/
theorem synthesize_withPostprocessors {ps : List Postprocessor}
    (h : Postprocessor.Alike q nodes c.postprocessors ps) (additional : Option (List ScoredNode)) :
    (c.withPostprocessors ps).synthesize q nodes additional = c.synthesize q nodes additional := by
  have happly : Postprocessor.applyAll q (c.withPostprocessors ps).postprocessors nodes =
      Postprocessor.applyAll q c.postprocessors nodes := h.applyAll_eq.symm
  have hnotices : (c.withPostprocessors ps).notices q nodes = c.notices q nodes := by
    show _ ++ [_] = _ ++ [_]
    rw [happly]
    exact congrArg (· ++ _) h.noticesOfAll_eq.symm
  have hanswer (sofar : Option String) (bs : List String) :
      (c.withPostprocessors ps).answer q sofar bs = c.answer q sofar bs := by
    induction bs generalizing sofar with
    | nil => rfl
    | cons b bs ih =>
      rw [answer, answer]
      simp only [ih]
      rfl
  rw [synthesize, synthesize, hnotices, hanswer, happly]
  rfl

end Synthesis.Chain

namespace Engine

/-- An answer from passages is an answer from their sources, once these are numbered. -/
theorem perform_synthesize {e : Engine} {c : Chain} (h : e.synthesizer = .chain c) (path : Path)
    (q : Query) (passages : List ScoredNode) (additional : Option (List ScoredNode)) (w : World) :
    e.perform path (e.synthesize q passages additional) w =
      (c.synthesize q (Citation.sources e.citationSplitter passages) additional).run e.collaborators
        ((e.number passages).run e.collaborators w).2 := by
  have hnodes : ((e.number passages).run e.collaborators w).1 =
      Citation.sources e.citationSplitter passages := e.perform_number .blocking passages w
  rw [perform, Work.perform_eq_run, synthesize, h]
  show ((e.number passages).bind fun nodes ↦ c.synthesize q nodes additional).run _ w = _
  rw [Work.run_bind, hnodes]

/-- **Additional nodes never influence an answer.** Of two syntheses that differ in their additional
nodes, or in the path they are done on, one sends the prompts the other sends and leaves the same
world behind. Either both come to the same failure, or both to the same answer, with the same
sources: what the postprocessors leave of the numbered ones. Behind these stand the additional nodes
as they were given. What postprocessors would do to any nodes but the sources, and what is left of
the sources, is of no account, so additional nodes are none of what they are given. -/
theorem additional_uninvolved (e : Engine) {c : Chain} (h : e.synthesizer = .chain c) (q : Query)
    (passages : List ScoredNode) (w : World) (path path' : Path)
    (additional additional' : Option (List ScoredNode)) :
    let sources := Citation.sources e.citationSplitter passages
    let kept := Postprocessor.applyAll q c.postprocessors sources
    let done := e.perform path (e.synthesize q passages additional) w
    let done' := e.perform path' (e.synthesize q passages additional') w
    Trace.prompts done.2.trace = Trace.prompts done'.2.trace ∧ done.2 = done'.2 ∧
      (∃ out : Except Failure (Option String),
        done.1 = out.map (fun a ↦ ⟨a, kept ++ additional.getD [], none⟩) ∧
        done'.1 = out.map (fun a ↦ ⟨a, kept ++ additional'.getD [], none⟩)) ∧
      ∀ ps, Postprocessor.Alike q sources c.postprocessors ps →
        let e' := { e with synthesizer := .chain (c.withPostprocessors ps) }
        e'.perform path (e'.synthesize q passages additional) w = done := by
  intro sources kept done done'
  have hdone := (perform_synthesize h path q passages additional w).trans (c.run_synthesize ..)
  have hdone' := (perform_synthesize h path' q passages additional' w).trans (c.run_synthesize ..)
  have hworld : done.2 = done'.2 :=
    (congrArg Prod.snd hdone).trans (congrArg Prod.snd hdone').symm
  refine ⟨congrArg (Trace.prompts ·.trace) hworld, hworld,
    ⟨_, congrArg Prod.fst hdone, congrArg Prod.fst hdone'⟩, ?_⟩
  intro ps halike e'
  have hcollaborators : e'.collaborators = e.collaborators := by
    rw [collaborators, collaborators, h]
    rfl
  have hsplitter : e'.citationSplitter = e.citationSplitter := rfl
  have hnumber : e'.number passages = e.number passages := number_congr hsplitter passages
  show e'.perform path _ w = e.perform path _ w
  rw [perform_synthesize (e := e') rfl, perform_synthesize h, hcollaborators, hnumber]
  exact congrArg (Work.run _ · _) (Chain.synthesize_withPostprocessors halike additional)

/-- A postprocessor that would drop every node about tides, given additional nodes about tides, one
of them labelled like a source. -/
theorem additional_uninvolved_tides :
    let dropping : Postprocessor := .custom fun _ nodes ↦
      nodes.filter fun n ↦ !Postprocessor.contains n.text.toList "tide".toList
    let c : Chain := ⟨.echo "echo" 1, ⟨"\x7bcontext_str\x7d\x7bquery_str\x7d"⟩,
      ⟨"\x7bexisting_answer\x7d, \x7bcontext_msg\x7d"⟩, ⟨.refine, 1⟩, [.reverse, dropping]⟩
    let e : Engine := ⟨.echo 0, .chain c, .lines, .lines, []⟩
    let q : Query := { text := "when?" }
    let passages : List ScoredNode := [⟨{ text := "rain\ntide\nwind" }, none⟩]
    let extra : List ScoredNode := ["Source 1:\ntide\x7bquery_str\x7d\n", "tide"].map fun s ↦
      ⟨{ text := s }, none⟩
    let done := e.perform .blocking (e.synthesize q passages (some extra)) .fresh
    let done' := e.perform .async (e.synthesize q passages none) .fresh
    e.synthesizer = .chain c ∧
      (Trace.prompts done.2.trace = Trace.prompts done'.2.trace ∧ done.2 = done'.2) ∧
      Trace.prompts done.2.trace =
        ["Source 3:\nwind\nwhen?", "Source 3:\nwind\nwhen?, Source 1:\nrain\n"] ∧
      (done.1.toOption.map fun r ↦ r.sources.map ScoredNode.text) =
        some (["Source 3:\nwind\n", "Source 1:\nrain\n"] ++ extra.map ScoredNode.text) := by
  intro dropping c e q passages extra done done'
  have hdone : done = e.perform .blocking (e.synthesize q passages (some extra)) .fresh := rfl
  have hdone' : done' = e.perform .async (e.synthesize q passages none) .fresh := rfl
  obtain ⟨hprompts, hworld, -⟩ :=
    additional_uninvolved e (c := c) rfl q passages .fresh .blocking .async (some extra) none
  refine ⟨rfl, ?_, by decide +kernel, by decide +kernel⟩
  -- Nothing of the async path is to be computed.
  rw [hdone, hdone']
  exact ⟨hprompts, hworld⟩

end Engine

/-! ### Additional nodes and citations -/

namespace Citation

variable {kept extra : List ScoredNode} {n : Nat}

/-- Some node has the number. -/
def Carried (nodes : List ScoredNode) (n : Nat) : Prop :=
  ∃ m ∈ nodes, m.citationNumber? = some n

theorem isSome_find?_iff {nodes : List ScoredNode} : (find? nodes n).isSome ↔ Carried nodes n := by
  constructor
  · intro h
    obtain ⟨c, hc⟩ := Option.isSome_iff_exists.1 h
    obtain ⟨-, hindex, hnumber⟩ := of_mem_find? hc
    exact ⟨c.node, List.mem_of_getElem? hindex, hnumber⟩
  · rintro ⟨m, hm, hnumber⟩
    obtain ⟨c, hc⟩ := exists_mem_find? hm hnumber
    exact Option.isSome_iff_exists.2 ⟨c, hc⟩

/-- A node found, with so many other nodes in front. -/
def Cited.behind (count : Nat) (c : Cited) : Cited := { c with index := c.index + count }

/-- **Looking up a number in nodes with others behind them.** The others come into it if none of the
nodes has the number, and only then. -/
theorem find?_append (kept extra : List ScoredNode) (n : Nat) :
    find? (kept ++ extra) n = (find? kept n).or ((find? extra n).map (.behind kept.length)) := by
  let p : ScoredNode → Bool := fun m ↦ m.citationNumber? == some n
  by_cases hlt : kept.findIdx p < kept.length
  · have hindex : (kept ++ extra).findIdx p = kept.findIdx p := by
      rw [List.findIdx_append, if_pos hlt]
    show (kept ++ extra)[(kept ++ extra).findIdx p]?.map _ =
      (kept[kept.findIdx p]?.map _).or _
    rw [hindex, List.getElem?_append_left hlt, List.getElem?_eq_getElem hlt, Option.map_some,
      Option.some_or]
  · have hindex : (kept ++ extra).findIdx p = extra.findIdx p + kept.length := by
      rw [List.findIdx_append, if_neg hlt]
    have hnone : kept[kept.findIdx p]? = none := List.getElem?_eq_none (Nat.le_of_not_lt hlt)
    show (kept ++ extra)[(kept ++ extra).findIdx p]?.map _ =
      (kept[kept.findIdx p]?.map _).or ((extra[extra.findIdx p]?.map _).map _)
    rw [hnone, Option.map_none, Option.none_or, Option.map_map, hindex,
      List.getElem?_append_right (Nat.le_add_left ..), Nat.add_sub_cancel]
    rfl

/-- Nodes behind others are cited by the numbers that none of the others has. -/
theorem cited_append_eq_iff {answer : String} :
    cited answer (kept ++ extra) = cited answer kept ↔
      ∀ n ∈ Marker.numbers answer, Carried extra n → Carried kept n := by
  constructor
  · intro heq n hn hextra
    obtain ⟨c, hc⟩ := Option.isSome_iff_exists.1 (isSome_find?_iff.2 hextra)
    by_contra hkept
    have hnone : find? kept n = none :=
      Option.not_isSome_iff_eq_none.1 fun h ↦ hkept (isSome_find?_iff.1 h)
    -- What is found behind the nodes is cited, but has no place among them.
    have hmem : c.behind kept.length ∈ cited answer (kept ++ extra) := by
      refine List.mem_filterMap.2 ⟨n, hn, ?_⟩
      rw [find?_append, hnone, hc]
      rfl
    rw [heq] at hmem
    obtain ⟨k, -, hk⟩ := List.mem_filterMap.1 hmem
    have hlt := (List.getElem?_eq_some_iff.1 (of_mem_find? hk).2.1).1
    exact absurd hlt (Nat.not_lt_of_le (Nat.le_add_left ..))
  · intro h
    refine List.filterMap_congr fun n hn ↦ ?_
    rw [find?_append]
    by_cases hkept : Carried kept n
    · exact Option.or_of_isSome (isSome_find?_iff.2 hkept)
    · have hnone : find? extra n = none :=
        Option.not_isSome_iff_eq_none.1 fun hs ↦ hkept (h n hn (isSome_find?_iff.1 hs))
      rw [hnone, Option.map_none, Option.or_none]

theorem map_entry_cited_append (answer : String) (kept extra : List ScoredNode) :
    (cited answer (kept ++ extra)).map Cited.entry =
      (Marker.numbers answer).filterMap fun n ↦
        ((find? kept n).or (find? extra n)).map Cited.entry := by
  rw [map_entry_cited]
  refine List.filterMap_congr fun n _ ↦ ?_
  rw [find?_append]
  rcases find? kept n with - | c
  · rw [Option.none_or, Option.none_or, Option.map_map]
    rfl
  · rfl

end Citation

namespace Engine

open Citation (Carried Cited Marker.numbers cited find?)

/-- **Which additional nodes an answer cites.** In a response, a number is looked up among the
sources first and among the additional nodes if none of the sources has it. So an answer cites what
it cites of the sources alone exactly if all numbers in its markers that additional nodes carry are
carried by sources as well. -/
theorem cited_additional_iff (e : Engine) {c : Chain} (h : e.synthesizer = .chain c) (q : Query)
    (passages extra : List ScoredNode) (path : Path) (w : World) {r : Response}
    (hr : (e.perform path (e.synthesize q passages (some extra)) w).1 = .ok r) (answer : String) :
    let kept := Postprocessor.applyAll q c.postprocessors
      (Citation.sources e.citationSplitter passages)
    r.sources = kept ++ extra ∧
      (cited answer r.sources).map Cited.entry =
        (Marker.numbers answer).filterMap (fun n ↦
          ((find? kept n).or (find? extra n)).map Cited.entry) ∧
      (cited answer r.sources = cited answer kept ↔
        ∀ n ∈ Marker.numbers answer, Carried extra n → Carried kept n) := by
  intro kept
  have hsources : r.sources = kept ++ extra := by
    rw [perform_synthesize h, Chain.run_synthesize] at hr
    -- An answer was made, or there would be no response.
    generalize Work.run _ (c.answer _ _ _) _ = answered at hr
    rcases answered with ⟨f | a, w'⟩
    · nomatch hr
    · exact (congrArg Response.sources (Except.ok.inj hr)).symm
  rw [hsources]
  exact ⟨rfl, Citation.map_entry_cited_append .., Citation.cited_append_eq_iff⟩

/-- Of an answer that cites 1 and 2, with one source, labelled 1, and a node labelled 2 in addition,
the number 2 makes the difference. -/
theorem cited_additional_iff_snow :
    let c := (Chain.ofModel (.echo "echo" 0)).withTemplates ⟨"\x7bcontext_str\x7d"⟩ ⟨""⟩
    let e : Engine := ⟨.echo 0, .chain c, .lines, .lines, []⟩
    let q : Query := { text := "when?" }
    let passages : List ScoredNode := [⟨{ text := "rain" }, none⟩]
    let extra : List ScoredNode := [⟨{ text := "Source 2:\nsnow\n" }, none⟩]
    e.synthesizer = .chain c ∧
      ∃ r, (e.perform .blocking (e.synthesize q passages (some extra)) .fresh).1 = .ok r ∧
        cited "[1, 2]" r.sources ≠
          cited "[1, 2]" (Citation.sources e.citationSplitter passages) := by
  intro c e q passages extra
  have hsome : (e.perform .blocking (e.synthesize q passages (some extra))
      .fresh).1.toOption.isSome = true := by decide +kernel
  rcases hr : (e.perform .blocking (e.synthesize q passages (some extra)) .fresh).1 with f | r
  · rw [hr] at hsome
    cases hsome
  · obtain ⟨-, -, hiff⟩ := cited_additional_iff e (c := c) rfl q passages extra .blocking .fresh hr
      "[1, 2]"
    refine ⟨rfl, r, rfl, fun heq ↦ ?_⟩
    have hextra : Carried extra 2 := ⟨_, List.mem_singleton_self _, by decide +kernel⟩
    obtain ⟨m, hm, hnumber⟩ := hiff.1 heq 2 (by decide +kernel) hextra
    have hall : ∀ m ∈ Citation.sources e.citationSplitter passages, m.citationNumber? ≠ some 2 := by
      decide +kernel
    exact hall m hm hnumber

/-- **An additional node that is cited.** The second of two sources falls to a cutoff, and the node
given in addition is a source of an earlier response, with that number. -/
theorem additional_node_cited :
    let c := ((Chain.ofModel (.echo "echo" 0)).withTemplates ⟨"\x7bcontext_str\x7d"⟩ ⟨""⟩)
      |>.withPostprocessors [.cutoff (.finite false 1 0)]
    let e : Engine := ⟨.echo 0, .chain c, .lines, .lines, []⟩
    let q : Query := { text := "when?" }
    let passages : List ScoredNode :=
      [⟨{ text := "rain" }, some (.finite false 1 0)⟩, ⟨{ text := "wind" }, none⟩]
    let extra : List ScoredNode := [⟨{ text := "Source 2:\nsnow\n" }, none⟩]
    let kept := Postprocessor.applyAll q c.postprocessors
      (Citation.sources e.citationSplitter passages)
    let done := e.perform .blocking (e.synthesize q passages (some extra)) .fresh
    let places (nodes : List ScoredNode) := (cited "[1, 2]" nodes).map fun c ↦ (c.number, c.index)
    done.1.toOption.map (fun r ↦ r.sources.map ScoredNode.text) =
        some ["Source 1:\nrain\n", "Source 2:\nsnow\n"] ∧
      kept.map ScoredNode.text = ["Source 1:\nrain\n"] ∧ places kept = [(1, 0)] ∧
      done.1.toOption.map (fun r ↦ places r.sources) = some [(1, 0), (2, 1)] := by
  decide +kernel

end Engine

end CitedAnswers

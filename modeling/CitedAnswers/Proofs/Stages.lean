import CitedAnswers.Proofs.Accounts

/-!
# Queries in stages

Retrieving passages and then making an answer from them, one step after the other, comes to what a
query comes to, with the same prompts (`Session.query_in_stages`). A query does more in between: it
moves its run along, tells observers, and counts what it does. But none of that is seen by the
retriever or the model.

So all is said of **calls**. A query makes the call of a retrieval and then those of an answer
(`Engine.calls_of_yields_query`), and so do the two steps. A world in turn answers calls by how many
came before and by nothing else: whether it admits an execution is settled by the calls of it, as
far as no event numbers are drawn (`World.Admits.of_calls`).
-/

namespace CitedAnswers

/-! ### Calls -/

instance (o : Occurrence) : Decidable o.IsCall :=
  match o with
  | .asked _ _ | .prompted _ _ => .isTrue trivial
  | .noted _ | .counted _ _ | .summed _ | .told _ => .isFalse id

namespace Trace

/-- The calls of collaborators, with their answers. -/
def calls (t : List Occurrence) : List Occurrence := t.filter fun o ↦ o.IsCall

variable {t : List Occurrence}

@[simp]
theorem calls_append (t t' : List Occurrence) : calls (t ++ t') = calls t ++ calls t' :=
  List.filter_append ..

theorem calls_of_not_isCall (h : ∀ o ∈ t, ¬o.IsCall) : calls t = [] :=
  List.filter_eq_nil_iff.2 fun o ho ↦ by simpa using h o ho

theorem calls_cons_of_isCall {o : Occurrence} (h : o.IsCall) : calls (o :: t) = o :: calls t :=
  List.filter_cons_of_pos (by simpa using h)

theorem calls_cons_of_not_isCall {o : Occurrence} (h : ¬o.IsCall) : calls (o :: t) = calls t :=
  List.filter_cons_of_neg (by simpa using h)

theorem calls_asked (q : Query) (r : Except Failure (List ScoredNode)) (t : List Occurrence) :
    calls (.asked q r :: t) = .asked q r :: calls t :=
  rfl

/-- A view of a trace that only sees calls. -/
theorem filterMap_calls {β : Type} {f : Occurrence → Option β} (hf : ∀ o, ¬o.IsCall → f o = none)
    (t : List Occurrence) : (calls t).filterMap f = t.filterMap f := by
  rw [calls, List.filterMap_filter]
  congr 1
  funext o
  by_cases ho : o.IsCall
  · simp [ho]
  · simp [ho, hf o ho]

theorem prompts_calls (t : List Occurrence) : prompts (calls t) = prompts t :=
  filterMap_calls (fun o ho ↦ by cases o <;> simp_all [Occurrence.IsCall]) t

theorem prompts_congr {t' : List Occurrence} (h : calls t = calls t') : prompts t = prompts t' := by
  rw [← prompts_calls t, h, prompts_calls]

theorem retrievals_calls (t : List Occurrence) : retrievals (calls t) = retrievals t :=
  filterMap_calls (fun o ho ↦ by cases o <;> simp_all [Occurrence.IsCall]) t

theorem completions_calls (t : List Occurrence) : completions (calls t) = completions t :=
  filterMap_calls (fun o ho ↦ by cases o <;> simp_all [Occurrence.IsCall]) t

end Trace

namespace World

variable {c : Collaborators} {w w' : World} {t : List Occurrence}

/-- The same calls are due in two worlds. -/
structure SameCalls (w w' : World) : Prop where
  asked : w.asked = w'.asked
  prompted : w.prompted = w'.prompted

theorem SameCalls.refl (w : World) : w.SameCalls w := ⟨rfl, rfl⟩

theorem SameCalls.symm (h : w.SameCalls w') : w'.SameCalls w := ⟨h.asked.symm, h.prompted.symm⟩

theorem SameCalls.trans {w'' : World} (h : w.SameCalls w') (h' : w'.SameCalls w'') :
    w.SameCalls w'' :=
  ⟨h.asked.trans h'.asked, h.prompted.trans h'.prompted⟩

/-- The same calls are due after the same calls. -/
theorem SameCalls.afterAll {t' : List Occurrence} (h : w.SameCalls w')
    (ht : Trace.calls t = Trace.calls t') : (w.afterAll t).SameCalls (w'.afterAll t') where
  asked := by
    rw [asked_afterAll, asked_afterAll, ← Trace.retrievals_calls t, ht, Trace.retrievals_calls,
      h.asked]
  prompted := by
    rw [prompted_afterAll, prompted_afterAll, ← Trace.completions_calls t, ht,
      Trace.completions_calls, h.prompted]

theorem SameCalls.after (h : w.SameCalls w') (o : Occurrence) :
    (w.after o).SameCalls (w'.after o) :=
  h.afterAll (t := [o]) rfl

theorem SameCalls.after_of_not_isCall {o : Occurrence} (h : w.SameCalls w') (ho : ¬o.IsCall) :
    (w.after o).SameCalls w' := by
  have hcalls : Trace.calls [o] = Trace.calls [] := Trace.calls_cons_of_not_isCall ho
  exact h.afterAll hcalls

/-- A call is answered by how many came before. -/
theorem allows_iff_of_isCall {o : Occurrence} (h : w.SameCalls w') (ho : o.IsCall) :
    w.Allows c o ↔ w'.Allows c o := by
  cases o with
  | asked q r =>
    show r = c.retriever.answer w.asked q ↔ r = c.retriever.answer w'.asked q
    rw [h.asked]
  | prompted p r =>
    show r = c.model.answer w.prompted p ↔ r = c.model.answer w'.prompted p
    rw [h.prompted]
  | _ => exact ho.elim

/-- The calls of an execution can happen wherever it can. -/
theorem Admits.calls (h : w.Admits c t) (hw : w.SameCalls w') : w'.Admits c (Trace.calls t) := by
  induction t generalizing w w' with
  | nil => trivial
  | cons o t ih =>
    obtain ⟨ho, hmore⟩ := h
    by_cases hcall : o.IsCall
    · rw [Trace.calls_cons_of_isCall hcall]
      exact ⟨(allows_iff_of_isCall hw hcall).1 ho, ih hmore (hw.after o)⟩
    · rw [Trace.calls_cons_of_not_isCall hcall]
      exact ih hmore (hw.after_of_not_isCall hcall)

/-- An execution that draws no event numbers can happen wherever its calls can. -/
theorem Admits.of_calls (h : w'.Admits c (Trace.calls t)) (hw : w.SameCalls w')
    (ht : Trace.events t = []) : w.Admits c t := by
  induction t generalizing w w' with
  | nil => trivial
  | cons o t ih =>
    have hevents : Trace.events [o] ++ Trace.events t = [] :=
      (Trace.events_append [o] t).symm.trans ht
    obtain ⟨ho, hmore⟩ := List.append_eq_nil_iff.1 hevents
    by_cases hcall : o.IsCall
    · rw [Trace.calls_cons_of_isCall hcall] at h
      exact ⟨(allows_iff_of_isCall hw hcall).2 h.1, ih h.2 (hw.after o) hmore⟩
    · rw [Trace.calls_cons_of_not_isCall hcall] at h
      refine ⟨?_, ih h (hw.after_of_not_isCall hcall) hmore⟩
      cases o with
      | told v => cases ho
      | asked | prompted => exact absurd trivial hcall
      | _ => trivial

end World

/-! ### The calls of a query, of a retrieval and of an answer -/

namespace Engine

variable {e : Engine} {q : Query} {path : Path} {t : List Occurrence}
  {out : Except Failure Response} {run : Run}

/-- **The calls of a query** that has a run of its own: that of the retrieval, and then those of an
answer from the sources, if passages are found. -/
theorem calls_of_yields_query (h : (e.query path q .fresh).Yields t (out, run)) :
    (∃ f, out = .error f ∧ Trace.calls t = [.asked q (.error f)]) ∨
      ∃ passages u,
        (e.synthesizer.synthesize q (Citation.sources e.citationSplitter passages) none).Yields u
          out ∧
        Trace.calls t = .asked q (.ok passages) :: Trace.calls u := by
  obtain ⟨t, run, hpursuit, rfl, -⟩ := e.yields_query h
  have hopening (begun : Begun) : Trace.calls (opening q .fresh begun) = [] :=
    Trace.calls_of_not_isCall (not_isCall_opening begun)
  have hnumbering (r : Run) (begun : Begun) (passages : List ScoredNode) :
      Trace.calls (e.numbering r begun passages) = [] :=
    Trace.calls_of_not_isCall (not_isCall_numbering begun passages)
  rw [Trace.calls_append, Trace.calls_of_not_isCall not_isCall_closing, List.append_nil]
  cases hpursuit with
  | refused hrun => exact absurd rfl hrun
  | unretrieved _ begun f =>
    rw [Trace.calls_append, hopening]
    exact .inl ⟨f, rfl, rfl⟩
  -- Whether the answer succeeds or fails, its calls are all that follow the retrieval.
  | @unsynthesized _ begun passages u f hu =>
    refine .inr ⟨passages, u, hu, ?_⟩
    rw [Trace.calls_append, hopening, List.nil_append, Trace.calls_asked,
      Trace.calls_append, hnumbering, List.nil_append]
  | @answered _ begun passages u r hu =>
    refine .inr ⟨passages, u, hu, ?_⟩
    rw [Trace.calls_append, hopening, List.nil_append, Trace.calls_asked,
      Trace.calls_append, Trace.calls_append, hnumbering, List.nil_append,
      Trace.calls_of_not_isCall (not_isCall_conclusion begun r), List.append_nil]

/-- The calls of an answer from passages are those of an answer from the sources cut from them. -/
theorem exists_yields_synthesize {passages : List ScoredNode} {u : List Occurrence}
    (h : (e.synthesizer.synthesize q (Citation.sources e.citationSplitter passages) none).Yields u
      out) :
    ∃ t, (e.synthesize q passages none).Yields t out ∧ Trace.calls t = Trace.calls u ∧
      Trace.events t = [] := by
  refine ⟨_, Work.yields_bind_iff.2 ⟨_, _, u, rfl, e.yields_number.2 ⟨rfl, rfl⟩, h⟩, ?_, ?_⟩
  · rw [Trace.calls_append, Trace.calls_of_not_isCall, List.nil_append]
    exact List.forall_mem_append.2
      ⟨e.forall_mem_placing passages (fun _ ↦ id) fun _ ↦ id, by simp [Occurrence.IsCall]⟩
  · rw [Trace.events_append, Trace.events_append, Engine.events_placing,
      Trace.events_of_answering (Synthesis.Synthesizer.answering_of_yields h)]
    rfl

end Engine

/-! ### One step or two -/

/-- Two reports of answers agree: they come to the same, and the same prompts were sent, in the same
order. -/
structure Report.Agrees (r r' : Report) : Prop where
  outcome : r.outcome = r'.outcome
  prompts : Trace.prompts r.trace = Trace.prompts r'.trace

namespace Session

variable {e : Engine} {q : Query}

theorem step_retrieve (e : Engine) (s : Session) (path : Path) (q : Query) :
    let r := e.retriever.answer s.world.asked q
    (s.step e (.retrieve path q)).1.outcome = .passages r ∧
      (s.step e (.retrieve path q)).1.trace = [.asked q r] ∧
      (s.step e (.retrieve path q)).2.world = s.outset.after (.asked q r) := by
  intro r
  have hwork : (s.work e (.retrieve path q)).Yields [.asked q r] (.passages r, none) :=
    Work.yields_bind_iff.2 ⟨_, r, [], rfl, Work.yields_ask.2 rfl, Work.yields_done.2 ⟨rfl, rfl⟩⟩
  exact step_of_yields (x := .retrieve path q) nofun hwork ⟨rfl, trivial⟩

/-- An answer from passages, in a session in which the same call of the model is due as in a world
in which the calls of the answer can happen. -/
theorem step_synthesize (s : Session) (path : Path) {passages : List ScoredNode}
    {u : List Occurrence} {out : Except Failure Response} {w : World}
    (hu : (e.synthesizer.synthesize q (Citation.sources e.citationSplitter passages) none).Yields u
      out) (hw : w.Admits e.collaborators (Trace.calls u)) (hs : s.world.SameCalls w) :
    let synthesized := s.step e (.synthesize path q passages none)
    synthesized.1.outcome = .response out ∧ Trace.calls synthesized.1.trace = Trace.calls u ∧
      synthesized.2.world.SameCalls (w.afterAll u) := by
  intro synthesized
  obtain ⟨t, hyields, hcalls, hevents⟩ := Engine.exists_yields_synthesize hu
  have hadmits : s.outset.Admits e.collaborators t := by
    rw [← hcalls] at hw
    exact hw.of_calls ⟨hs.asked, hs.prompted⟩ hevents
  have hwork : (s.work e (.synthesize path q passages none)).Yields t (.response out, none) :=
    Work.yields_bind_iff.2 ⟨t, out, [], (List.append_nil t).symm, hyields,
      Work.yields_done.2 ⟨rfl, rfl⟩⟩
  obtain ⟨houtcome, htrace, hworld⟩ :=
    step_of_yields (x := .synthesize path q passages none) nofun hwork hadmits
  refine ⟨houtcome, htrace ▸ hcalls, ?_⟩
  rw [hworld]
  exact World.SameCalls.afterAll ⟨hs.asked, hs.prompted⟩ hcalls

/-- **A query is a retrieval and then an answer.** If the retrieval fails, the query fails alike and
sends no prompt. If it finds passages, the query comes to what an answer from them comes to, made
either after the retrieval or in its place, and sends the same prompts in the same order. In any
case the same calls of the collaborators are due afterwards. -/
theorem query_in_stages (e : Engine) (s : Session) (path : Path) (q : Query) :
    let queried := s.step e (.query path q none)
    let retrieved := s.step e (.retrieve path q)
    (∃ f, retrieved.1.outcome = .passages (.error f) ∧ queried.1.outcome = .response (.error f) ∧
        Trace.prompts queried.1.trace = [] ∧ queried.2.world.SameCalls retrieved.2.world) ∨
      ∃ passages, retrieved.1.outcome = .passages (.ok passages) ∧
        (let synthesized := retrieved.2.step e (.synthesize path q passages none)
        queried.1.Agrees synthesized.1 ∧ queried.2.world.SameCalls synthesized.2.world) ∧
        queried.1.Agrees (s.step e (.synthesize path q passages none)).1 := by
  intro queried retrieved
  obtain ⟨t, hquery, hadmits, -⟩ :=
    (e.query path q .fresh).leads_run (c := e.collaborators) s.outset
  generalize (e.query path q .fresh).run e.collaborators s.outset = result at hquery
  obtain ⟨⟨out, run⟩, w⟩ := result
  have hwork : (s.work e (.query path q none)).Yields t (.response out, some run) :=
    Work.yields_bind_iff.2 ⟨t, (out, run), [], (List.append_nil t).symm, hquery,
      Work.yields_done.2 ⟨rfl, rfl⟩⟩
  obtain ⟨houtcome, htrace, hworld⟩ :=
    step_of_yields (x := .query path q none) nofun hwork hadmits
  obtain ⟨hretrieved, -, hfound⟩ := step_retrieve e s path q
  have hcalls := hadmits.calls (.refl s.outset)
  rcases Engine.calls_of_yields_query hquery with ⟨f, rfl, ht⟩ | ⟨passages, u, hu, ht⟩
  · rw [ht] at hcalls
    have hr : .error f = e.retriever.answer s.world.asked q := hcalls.1
    rw [← hr] at hretrieved hfound
    have hsame : (s.outset.afterAll t).SameCalls (s.outset.afterAll [.asked q (.error f)]) :=
      (World.SameCalls.refl s.outset).afterAll ht
    refine .inl ⟨f, hretrieved, houtcome, ?_, ?_⟩
    · rw [htrace, ← Trace.prompts_calls, ht]
      rfl
    · rw [hworld, hfound]
      exact hsame
  · rw [ht] at hcalls
    have hr : .ok passages = e.retriever.answer s.world.asked q := hcalls.1
    rw [← hr] at hretrieved hfound
    have hprompts : Trace.prompts t = Trace.prompts u := by
      rw [← Trace.prompts_calls, ht, ← Trace.prompts_calls u]
      rfl
    have hsame :
        (s.outset.afterAll t).SameCalls (s.outset.afterAll (.asked q (.ok passages) :: u)) :=
      (World.SameCalls.refl s.outset).afterAll ht
    -- The model does not see whether passages have been retrieved before.
    have hanswering : ∀ o ∈ Trace.calls u, o.Answering := fun o ho ↦
      Synthesis.Synthesizer.answering_of_yields hu o (List.mem_of_mem_filter ho)
    have hplace : s.world.Admits e.collaborators (Trace.calls u) :=
      hcalls.2.of_answering rfl hanswering
    have hdue : retrieved.2.world.SameCalls (s.outset.after (.asked q (.ok passages))) := by
      rw [hfound]
      exact .refl _
    obtain ⟨hafter, hafterCalls, hafterWorld⟩ := retrieved.2.step_synthesize path hu hcalls.2 hdue
    obtain ⟨hinstead, hinsteadCalls, -⟩ := s.step_synthesize path hu hplace (.refl s.world)
    refine .inr ⟨passages, hretrieved, ⟨⟨houtcome.trans hafter.symm, ?_⟩, ?_⟩,
      houtcome.trans hinstead.symm, ?_⟩
    · rw [htrace, hprompts, Trace.prompts_congr hafterCalls]
    · rw [hworld]
      exact hsame.trans hafterWorld.symm
    · rw [htrace, hprompts, Trace.prompts_congr hinsteadCalls]

end Session

end CitedAnswers

import CitedAnswers.Proofs.Execution
import CitedAnswers.Synthesis.Chain

/-!
# Going through a chain of prompts

A chain asks the model once for every batch of sources, until it breaks off. It breaks off in one of
two ways only: the model fails on a prompt, or a prompt cannot be rendered. Either failure is what
the chain comes to (`Chain.error_iff_of_yields`). So a chain that comes to an answer has sent
exactly as many prompts as there are batches, and no chain sends more
(`Chain.length_prompts_of_yields`).

Apart from prompts, making an answer leaves nothing behind but entries in the log
(`Synthesizer.answering_of_yields`), and of the world it sees nothing but the number of prompts sent
before (`World.Admits.of_answering`). So what is found out about it in one world holds in any other
in which the same call of the model is due.
-/

namespace CitedAnswers

/-- What making an answer may leave behind: entries in the log and prompts. -/
def Occurrence.Answering : Occurrence → Prop
  | noted _ | prompted _ _ => True
  | counted _ _ | summed _ | told _ | asked _ _ => False

theorem Trace.counts_of_answering {t : List Occurrence} (h : ∀ o ∈ t, o.Answering) :
    counts t = [] := by
  refine List.filterMap_eq_nil_iff.2 fun o ho ↦ ?_
  cases o with
  | counted f n => exact (h _ ho).elim
  | _ => rfl

theorem Trace.events_of_answering {t : List Occurrence} (h : ∀ o ∈ t, o.Answering) :
    events t = [] := by
  refine List.filterMap_eq_nil_iff.2 fun o ho ↦ ?_
  cases o with
  | told v => exact (h _ ho).elim
  | _ => rfl

theorem Trace.retrievals_of_answering {t : List Occurrence} (h : ∀ o ∈ t, o.Answering) :
    retrievals t = [] := by
  refine List.filterMap_eq_nil_iff.2 fun o ho ↦ ?_
  cases o with
  | asked q r => exact (h _ ho).elim
  | _ => rfl

/-- Making an answer sees nothing of the world but the number of prompts sent before. -/
theorem World.Admits.of_answering {c : Collaborators} {w w' : World} {t : List Occurrence}
    (h : w.Admits c t) (hw : w.prompted = w'.prompted) (ht : ∀ o ∈ t, o.Answering) :
    w'.Admits c t := by
  induction t generalizing w w' with
  | nil => trivial
  | cons o t ih =>
    obtain ⟨ho, hrest⟩ := List.forall_mem_cons.1 ht
    obtain ⟨hallows, hmore⟩ := h
    cases o with
    | noted e => exact ⟨trivial, ih hmore hw hrest⟩
    | prompted p r =>
      have hr : r = c.model.answer w.prompted p := hallows
      refine ⟨?_, ih hmore (congrArg (· + 1) hw) hrest⟩
      show r = c.model.answer w'.prompted p
      rw [hr, hw]
    | _ => exact ho.elim

namespace Synthesis

/-- Of several answers the last one counts, and without any the one before. -/
theorem getLast?_cons_or {a : String} {answers : List String} {sofar : Option String} :
    (a :: answers).getLast?.or sofar = answers.getLast?.or (some a) := by
  rw [List.getLast?_cons]
  rcases answers.getLast? with - | a' <;> rfl

namespace Chain

variable {c : Chain} {q : Query} {sofar : Option String} {b : String} {bs : List String}
  {t : List Occurrence} {out : Except Failure (Option String)}

/-- **At a batch** the prompt cannot be rendered, or the model fails, or the chain goes on with what
the model answered. -/
theorem yields_answer_cons : (c.answer q sofar (b :: bs)).Yields t out ↔
    (∃ f, c.prompt q b sofar = .error f ∧ t = [] ∧ out = .error f) ∨
    (∃ p f, c.prompt q b sofar = .ok p ∧ t = [.prompted p (.error f)] ∧ out = .error f) ∨
    ∃ p a t', c.prompt q b sofar = .ok p ∧ t = .prompted p (.ok a) :: t' ∧
      (c.answer q (some a) bs).Yields t' out := by
  rw [answer]
  rcases hp : c.prompt q b sofar with f | p
  · simp [eq_comm]
  · simp only [Work.yields_predict]
    constructor
    · rintro ⟨f | a, t', rfl, h⟩
      · obtain ⟨rfl, rfl⟩ := Work.yields_done.1 h
        exact .inr (.inl ⟨p, f, rfl, rfl, rfl⟩)
      · exact .inr (.inr ⟨p, a, t', rfl, rfl, h⟩)
    · rintro (⟨f, hf, -⟩ | ⟨_, f, hp, rfl, rfl⟩ | ⟨_, a, t', hp, rfl, h⟩)
      · cases hf
      · cases hp
        exact ⟨.error f, [], rfl, Work.yields_done.2 ⟨rfl, rfl⟩⟩
      · cases hp
        exact ⟨.ok a, t', rfl, h⟩

/-- **A chain breaks off** with a failure: the model fails, or all prompts so far were answered and
the prompt for the next batch cannot be rendered. -/
def BreaksOff (c : Chain) (q : Query) (sofar : Option String) (bs : List String)
    (t : List Occurrence) (f : Failure) : Prop :=
  .error f ∈ Trace.completions t ∨
    ∃ (answers : List String) (b : String), Trace.completions t = answers.map .ok ∧
      bs[answers.length]? = some b ∧ c.prompt q b (answers.getLast?.or sofar) = .error f

/-- Only the completions come into it. -/
theorem breaksOff_congr {t' : List Occurrence} (h : Trace.completions t = Trace.completions t')
    {f : Failure} : c.BreaksOff q sofar bs t f ↔ c.BreaksOff q sofar bs t' f := by
  rw [BreaksOff, BreaksOff, h]

/-- A batch whose prompt was answered does not come into it. -/
theorem breaksOff_cons {p a : String} {f : Failure} :
    c.BreaksOff q sofar (b :: bs) (.prompted p (.ok a) :: t) f ↔
      c.BreaksOff q (some a) bs t f := by
  have hcompletions : Trace.completions (.prompted p (.ok a) :: t) = .ok a :: Trace.completions t :=
    rfl
  rw [BreaksOff, BreaksOff, hcompletions]
  refine or_congr (by simp) ⟨?_, ?_⟩
  · rintro ⟨_ | ⟨a', answers⟩, b', hanswers, hb, hf⟩
    · cases hanswers
    · obtain ⟨ha, hrest⟩ := List.cons_eq_cons.1 hanswers
      cases ha
      exact ⟨answers, b', hrest, hb, getLast?_cons_or ▸ hf⟩
  · rintro ⟨answers, b', hanswers, hb, hf⟩
    exact ⟨a :: answers, b', congrArg (.ok a :: ·) hanswers, hb, getLast?_cons_or.symm ▸ hf⟩

/-- **The failures of a chain** are those it breaks off with. -/
theorem answer_error_iff (h : (c.answer q sofar bs).Yields t out) (f : Failure) :
    out = .error f ↔ c.BreaksOff q sofar bs t f := by
  induction bs generalizing sofar t with
  | nil =>
    obtain ⟨rfl, rfl⟩ := Work.yields_done.1 h
    simp [BreaksOff, Trace.completions]
  | cons b bs ih =>
    rcases yields_answer_cons.1 h with ⟨f', hp, rfl, rfl⟩ | ⟨p, f', hp, rfl, rfl⟩ |
      ⟨p, a, t', hp, rfl, hmore⟩
    · -- No prompt was sent, so the batch that cannot be rendered is this one.
      simp [BreaksOff, Trace.completions, hp]
    · -- The one prompt sent was not answered.
      simp [BreaksOff, Trace.completions, eq_comm]
    · rw [breaksOff_cons]
      exact ih hmore

/-- **A chain sends at most one prompt for each batch**, and no fewer if it comes to an answer. -/
theorem length_prompts_of_yields_answer (h : (c.answer q sofar bs).Yields t out) :
    (Trace.prompts t).length ≤ bs.length ∧
      (out.toBool → (Trace.prompts t).length = bs.length) := by
  induction bs generalizing sofar t with
  | nil =>
    obtain ⟨rfl, rfl⟩ := Work.yields_done.1 h
    exact ⟨Nat.le_refl _, fun _ ↦ rfl⟩
  | cons b bs ih =>
    rcases yields_answer_cons.1 h with ⟨f, -, rfl, rfl⟩ | ⟨p, f, -, rfl, rfl⟩ |
      ⟨p, a, t', -, rfl, hmore⟩
    · exact ⟨Nat.zero_le _, fun hout ↦ nomatch hout⟩
    · exact ⟨Nat.succ_le_succ (Nat.zero_le _), fun hout ↦ nomatch hout⟩
    · obtain ⟨hle, heq⟩ := ih hmore
      exact ⟨Nat.succ_le_succ hle, fun hout ↦ congrArg (· + 1) (heq hout)⟩

theorem answering_of_yields (h : (c.answer q sofar bs).Yields t out) : ∀ o ∈ t, o.Answering := by
  induction bs generalizing sofar t with
  | nil =>
    obtain ⟨rfl, -⟩ := Work.yields_done.1 h
    exact List.forall_mem_nil _
  | cons b bs ih =>
    rcases yields_answer_cons.1 h with ⟨f, -, rfl, -⟩ | ⟨p, f, -, rfl, -⟩ |
      ⟨p, a, t', -, rfl, hmore⟩
    · exact List.forall_mem_nil _
    · exact List.forall_mem_singleton.2 trivial
    · exact List.forall_mem_cons.2 ⟨trivial, ih hmore⟩

variable {nodes : List ScoredNode} {additional : Option (List ScoredNode)}
  {res : Except Failure Response}

/-- The batches that a chain goes through. -/
def batchesOf (c : Chain) (q : Query) (nodes : List ScoredNode) : List String :=
  batches c.options (Postprocessor.applyAll q c.postprocessors nodes)

/-- **Making an answer** is going through the batches. -/
theorem yields_synthesize (h : (c.synthesize q nodes additional).Yields t res) :
    ∃ t' out, (c.answer q none (c.batchesOf q nodes)).Yields t' out ∧
      t = (c.notices q nodes).map .noted ++ t' ∧
      res = out.map fun a ↦
        ⟨a, Postprocessor.applyAll q c.postprocessors nodes ++ additional.getD [], none⟩ := by
  obtain ⟨t₁, _, t₂, rfl, hnotes, h₁⟩ := Work.yields_bind_iff.1 h
  obtain ⟨t₃, out, t₄, rfl, hanswer, h₂⟩ := Work.yields_bind_iff.1 h₁
  obtain rfl := Work.yields_noteAll.1 hnotes
  obtain ⟨rfl, rfl⟩ := Work.yields_done.1 h₂
  exact ⟨t₃, out, hanswer, by rw [List.append_nil], rfl⟩

/-- **The failures of making an answer** are those its chain breaks off with. -/
theorem error_iff_of_yields (h : (c.synthesize q nodes additional).Yields t res) (f : Failure) :
    res = .error f ↔ c.BreaksOff q none (c.batchesOf q nodes) t f := by
  obtain ⟨t', out, hanswer, rfl, rfl⟩ := yields_synthesize h
  have hcompletions : Trace.completions ((c.notices q nodes).map .noted ++ t') =
      Trace.completions t' := by
    rw [Trace.completions_append, Trace.completions_noted, List.nil_append]
  rw [breaksOff_congr hcompletions, ← answer_error_iff hanswer]
  rcases out with f' | a <;> simp [Except.map]

/-- **An answer takes one prompt for each batch.** A chain that breaks off sends no more. -/
theorem length_prompts_of_yields (h : (c.synthesize q nodes additional).Yields t res) :
    (Trace.prompts t).length ≤ (c.batchesOf q nodes).length ∧
      (res.toBool → (Trace.prompts t).length = (c.batchesOf q nodes).length) := by
  obtain ⟨t', out, hanswer, rfl, rfl⟩ := yields_synthesize h
  rw [Trace.prompts_append, Trace.prompts_noted, List.nil_append]
  rcases out with f | a
  · exact ⟨(length_prompts_of_yields_answer hanswer).1, fun hout ↦ nomatch hout⟩
  · exact length_prompts_of_yields_answer hanswer

end Chain

/-- **Making an answer leaves nothing behind** but entries in the log and prompts. -/
theorem Synthesizer.answering_of_yields {s : Synthesizer} {q : Query} {nodes : List ScoredNode}
    {additional : Option (List ScoredNode)} {t : List Occurrence} {out : Except Failure Response}
    (h : (s.synthesize q nodes additional).Yields t out) : ∀ o ∈ t, o.Answering := by
  rcases s with c | f
  · obtain ⟨t', out, hanswer, rfl, -⟩ := Chain.yields_synthesize h
    refine List.forall_mem_append.2 ⟨?_, Chain.answering_of_yields hanswer⟩
    rw [List.forall_mem_map]
    exact fun _ _ ↦ trivial
  · obtain ⟨rfl, -⟩ := Work.yields_done.1 h
    exact List.forall_mem_nil _

/-- **An answer does not depend on what happened before it is made**, but for the number of prompts
sent. So if it is made after occurrences in which none was sent, it could as well be made at the
beginning. -/
theorem Synthesizer.run_of_yields {s : Synthesizer} {q : Query} {nodes : List ScoredNode}
    {additional : Option (List ScoredNode)} {c : Collaborators} {w : World}
    {before t : List Occurrence} {out : Except Failure Response}
    (h : (s.synthesize q nodes additional).Yields t out) (hw : (w.afterAll before).Admits c t)
    (hbefore : Trace.completions before = []) :
    ((s.synthesize q nodes additional).run c w).1 = out := by
  have hprompted : (w.afterAll before).prompted = w.prompted := by
    rw [World.prompted_afterAll, hbefore]
    rfl
  rw [Work.run_eq_of_yields h (hw.of_answering hprompted (answering_of_yields h))]

end Synthesis

end CitedAnswers

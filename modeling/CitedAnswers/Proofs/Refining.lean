import CitedAnswers.Proofs.Answering
import CitedAnswers.Proofs.Polling
import CitedAnswers.Proofs.Substitution

/-!
# Answers are refined

A chain sends its prompts one after another, and each but the first hands the model its own answer
to the prompt before. `Synthesis.Refines` says this of the prompts, the completions and the outcome
as lists, place by place, with no mention of how the chain goes through its batches: which prompt is
sent at a place, which call of the model completes it, and where and with what the chain ends.

The chain takes batch after batch, and what it has to show for it is an answer so far. So the
induction is on the batches, with any answer to start from: behind an answer, the chain is one that
starts from that answer (`Synthesis.Refines.cons`). A whole chain starts from none, so only its
first prompt comes from the template that asks for an answer (`Synthesis.Chain.synthesize_refines`).
-/

namespace CitedAnswers

/-! ### The built-in templates -/

namespace Template

/-- A template can be rendered once all its placeholders have values, whatever the values are. -/
theorem exists_render_eq_ok {t : Template} {values : List (String × String)}
    (h : ∀ v ∈ t.placeholders, v ∈ values.map Prod.fst) : ∃ p, t.render values = .ok p := by
  rcases hrender : t.render values with f | p
  · obtain ⟨v, hv, -⟩ := render_eq_error_iff.1 hrender
    have hwithout : v ∉ values.map Prod.fst := by simpa using List.find?_some hv
    exact absurd (h v (List.mem_of_find?_eq_some hv)) hwithout
  · exact ⟨p, rfl⟩

-- The characters of a text are read faster piece by piece.

theorem placeholders_answering : answering.placeholders = ["context_str", "query_str"] := by
  unfold answering worked
  simp only [placeholders, names, parts, String.toList_append]
  decide +kernel

theorem placeholders_refining :
    refining.placeholders = ["existing_answer", "context_msg", "query_str"] := by
  unfold refining worked
  simp only [placeholders, names, parts, String.toList_append]
  decide +kernel

end Template

namespace Synthesis

variable {first : String → Except Failure String} {next : String → String → Except Failure String}
  {b p a : String} {bs : List String} {rs : List (Except Failure String)} {k : Nat}
  {r : Except Failure String}

/-! ### Prompts that can be rendered -/

/-- **Rendering the prompt at a place**, given the completions so far: the first prompt is made from
the first batch, and every other one from its batch and the answer to the prompt before. There is no
other prompt at a place beyond the batches, or behind a prompt without an answer. -/
def Renders (first : String → Except Failure String)
    (next : String → String → Except Failure String) (bs : List String)
    (rs : List (Except Failure String)) : Nat → Except Failure String → Prop
  | 0, r => ∃ b, bs[0]? = some b ∧ r = first b
  | k + 1, r => ∃ b a, bs[k + 1]? = some b ∧ rs[k]? = some (.ok a) ∧ r = next a b

theorem Renders.lt_length (h : Renders first next bs rs k r) : k < bs.length := by
  cases k with
  | zero =>
    obtain ⟨b, hb, -⟩ := h
    exact (List.getElem?_eq_some_iff.1 hb).1
  | succ k =>
    obtain ⟨b, a, hb, -⟩ := h
    exact (List.getElem?_eq_some_iff.1 hb).1

theorem renders_zero : Renders first next (b :: bs) rs 0 r ↔ r = first b := by
  simp [Renders]

/-- Behind an answer, prompts are rendered as if one had started from that answer. -/
theorem renders_succ :
    Renders first next (b :: bs) (.ok a :: rs) (k + 1) r ↔ Renders (next a) next bs rs k r := by
  cases k <;> simp [Renders]

theorem not_renders_succ (h : ∀ a, .ok a ∉ rs) : ¬Renders first next bs rs (k + 1) r := by
  rintro ⟨b, a, -, ha, -⟩
  exact h a (List.mem_of_getElem? ha)

/-! ### Going through the batches -/

/-- **Answers are refined**: the prompts that are sent to a model, their completions and the
outcome. A number of calls of the model came before, and perhaps an answer. -/
structure Refines (m : Model) (calls : Nat) (first : String → Except Failure String)
    (next : String → String → Except Failure String) (sofar : Option String) (bs ps : List String)
    (rs : List (Except Failure String)) (out : Except Failure (Option String)) : Prop where
  /-- The prompts sent are those that can be rendered. -/
  prompts_iff : ∀ k p, ps[k]? = some p ↔ Renders first next bs rs k (.ok p)
  /-- Each is completed by the call that is due. -/
  completions_eq : ∀ k : Nat, rs[k]? = ps[k]?.map (m.answer (calls + k))
  /-- If a prompt cannot be rendered, just those before it are sent, and that is the failure. -/
  unrendered : ∀ k f, Renders first next bs rs k (.error f) → ps.length = k ∧ out = .error f
  /-- If the model fails on a prompt, it is the last one sent, and that is the failure. -/
  unanswered : ∀ (k : Nat) (f : Failure), rs[k]? = some (.error f) →
    ps.length = k + 1 ∧ out = .error f
  /-- There is no other failure. -/
  failed : ∀ f, out = .error f →
    ∃ k : Nat, Renders first next bs rs k (.error f) ∨ rs[k]? = some (.error f)
  /-- If there is an answer for every batch, the last one is the outcome. -/
  answered : ∀ a, out = .ok a ↔ ∃ answers : List String, rs = answers.map .ok ∧
    answers.length = bs.length ∧ a = answers.getLast?.or sofar

namespace Refines

variable {m : Model} {calls : Nat} {sofar : Option String} {ps : List String} {f : Failure}
  {out : Except Failure (Option String)}

/-- With no batch left, the answer so far is the answer. -/
theorem nil : Refines m calls first next sofar [] [] [] (.ok sofar) where
  prompts_iff k p := ⟨fun h ↦ (nomatch h), fun h ↦ (nomatch h.lt_length)⟩
  completions_eq k := rfl
  unrendered k f h := nomatch h.lt_length
  unanswered k f h := nomatch h
  failed f h := nomatch h
  answered a := by simp [eq_comm]

/-- A prompt that cannot be rendered is the end. -/
theorem of_unrendered (hp : first b = .error f) :
    Refines m calls first next sofar (b :: bs) [] [] (.error f) := by
  have hrenders {k : Nat} {r : Except Failure String} :
      Renders first next (b :: bs) [] k r ↔ k = 0 ∧ r = .error f := by
    cases k with
    | zero => simp [renders_zero, hp]
    | succ k => simp [not_renders_succ]
  constructor
  case prompts_iff => simp [hrenders]
  case completions_eq => simp
  case unrendered => simp +contextual [hrenders]
  case unanswered => simp
  case failed => simp +contextual [hrenders]
  case answered => simp [eq_comm]

/-- A prompt that the model fails on is the end. -/
theorem of_unanswered (hp : first b = .ok p) (hr : m.answer calls p = .error f) :
    Refines m calls first next sofar (b :: bs) [p] [.error f] (.error f) := by
  have hrenders {k : Nat} {r : Except Failure String} :
      Renders first next (b :: bs) [.error f] k r ↔ k = 0 ∧ r = .ok p := by
    cases k with
    | zero => simp [renders_zero, hp]
    | succ k => simp [not_renders_succ]
  constructor
  case prompts_iff => intro k p'; cases k <;> simp [hrenders, eq_comm]
  case completions_eq => intro k; cases k <;> simp [hr]
  case unrendered => simp [hrenders]
  case unanswered => intro k f'; cases k <;> simp +contextual
  case failed => intro f' h; exact ⟨0, .inr (by simpa using h)⟩
  case answered =>
    intro a
    simp only [reduceCtorEq, false_iff]
    rintro ⟨_ | ⟨_, _⟩, h, -⟩ <;> simp at h

/-- **Behind an answer** it goes on as if one had started from that answer. -/
theorem cons (h : Refines m (calls + 1) (next a) next (some a) bs ps rs out)
    (hp : first b = .ok p) (hr : m.answer calls p = .ok a) :
    Refines m calls first next sofar (b :: bs) (p :: ps) (.ok a :: rs) out := by
  constructor
  case prompts_iff =>
    intro k p'
    cases k with
    | zero => simp [renders_zero, hp, eq_comm]
    | succ k => exact (h.prompts_iff k p').trans renders_succ.symm
  case completions_eq =>
    intro k
    cases k with
    | zero => simp [hr]
    | succ k =>
      have hcall : calls + 1 + k = calls + (k + 1) := by omega
      exact hcall ▸ h.completions_eq k
  case unrendered =>
    intro k f' hf
    cases k with
    | zero => exact nomatch (renders_zero.1 hf).trans hp
    | succ k =>
      obtain ⟨hlength, hout⟩ := h.unrendered k f' (renders_succ.1 hf)
      exact ⟨congrArg (· + 1) hlength, hout⟩
  case unanswered =>
    intro k f' hf
    cases k with
    | zero => cases hf
    | succ k =>
      obtain ⟨hlength, hout⟩ := h.unanswered k f' hf
      exact ⟨congrArg (· + 1) hlength, hout⟩
  case failed =>
    intro f' hf
    obtain ⟨k, hk⟩ := h.failed f' hf
    exact ⟨k + 1, hk.imp_left renders_succ.2⟩
  case answered =>
    intro a'
    rw [h.answered]
    constructor
    · rintro ⟨answers, rfl, hlength, rfl⟩
      exact ⟨a :: answers, rfl, congrArg (· + 1) hlength, getLast?_cons_or.symm⟩
    · rintro ⟨_ | ⟨a'', answers⟩, hanswers, hlength, rfl⟩
      · cases hanswers
      · obtain ⟨ha, rfl⟩ := List.cons_eq_cons.1 hanswers
        cases ha
        exact ⟨answers, rfl, Nat.succ.inj hlength, getLast?_cons_or⟩

theorem length_le (h : Refines m calls first next sofar bs ps rs out) : ps.length ≤ bs.length := by
  -- There is no batch for a prompt at the place behind the last batch.
  by_contra hlt
  obtain ⟨p, hp⟩ : ∃ p, ps[bs.length]? = some p := ⟨_, List.getElem?_eq_getElem (by omega)⟩
  exact Nat.lt_irrefl _ ((h.prompts_iff _ p).1 hp).lt_length

/-- **A chain comes to no answer, and does not fail, just if there is no batch.** -/
theorem eq_ok_none_iff (h : Refines m calls first next none bs ps rs out) :
    out = .ok none ↔ bs = [] := by
  rw [h.answered]
  constructor
  · rintro ⟨answers, -, hlength, hnone⟩
    obtain rfl : answers = [] := by simpa using hnone.symm
    exact List.eq_nil_of_length_eq_zero hlength.symm
  · rintro rfl
    obtain rfl : ps = [] := List.eq_nil_of_length_eq_zero (Nat.le_zero.1 h.length_le)
    obtain rfl : rs = [] := List.eq_nil_iff_forall_not_mem.2 fun r hr ↦ by
      obtain ⟨k, hk⟩ := List.getElem?_of_mem hr
      exact nomatch (h.completions_eq k).symm.trans hk
    exact ⟨[], rfl, rfl, rfl⟩

end Refines

namespace Chain

/-- **Going through the batches refines answers**, whatever there is to start from. -/
theorem refines_of_yields {c : Chain} {q : Query} {sofar : Option String} {bs : List String}
    {t : List Occurrence} {out : Except Failure (Option String)} {cs : Collaborators} {w : World}
    (h : (c.answer q sofar bs).Yields t out) (hw : w.Admits cs t) :
    Refines cs.model w.prompted (fun b ↦ c.prompt q b sofar) (fun a b ↦ c.prompt q b (some a)) sofar
      bs (Trace.prompts t) (Trace.completions t) out := by
  induction bs generalizing sofar t w with
  | nil =>
    obtain ⟨rfl, rfl⟩ := Work.yields_done.1 h
    exact .nil
  | cons b bs ih =>
    rcases yields_answer_cons.1 h with ⟨f, hp, rfl, rfl⟩ | ⟨p, f, hp, rfl, rfl⟩ |
      ⟨p, a, t', hp, rfl, hmore⟩
    · exact .of_unrendered hp
    · have hr : .error f = cs.model.answer w.prompted p := hw.1
      exact .of_unanswered hp hr.symm
    · have hr : .ok a = cs.model.answer w.prompted p := hw.1
      exact (ih hmore hw.2).cons hp hr.symm

/-- **A chain refines its answers**, whatever its parts are and however its calls are waited for.

The postprocessors are applied from left to right, and what they leave is put together to batches.
The model gets the prompt for an answer from the first batch, and then, batch by batch, the prompt
for a better answer than its last one, which is put into the prompt as it is; it gets nothing else.
The last answer becomes the answer, and with no batch there is none; what the postprocessors left
is the sources, with the additional nodes behind. If a prompt cannot be rendered, or the model fails
on it, that failure is what comes of it, and no more is sent. The built-in templates can always be
rendered, whatever stands in the sources, the question or the answers. -/
theorem synthesize_refines (c : Chain) (retriever : Retriever) (path : Path) (w : World) (q : Query)
    (nodes : List ScoredNode) (additional : Option (List ScoredNode)) :
    let kept := c.postprocessors.foldl (fun ns p ↦ p.apply q ns) nodes
    let bs := batches c.options kept
    let first b := c.answering.render [("context_str", b), ("query_str", q.text)]
    let next a b := c.refining.render
      [("existing_answer", a), ("context_msg", b), ("query_str", q.text)]
    let done := (c.synthesize q nodes additional).perform ⟨retriever, c.model⟩ path w
    (∃ t out, done.2.trace = w.trace ++ t ∧ (∀ o ∈ t, o.Answering) ∧
      Refines c.model w.prompted first next none bs (Trace.prompts t) (Trace.completions t) out ∧
      (Trace.prompts t).length ≤ bs.length ∧ (out = .ok none ↔ bs = []) ∧
      done.1 = out.map fun a ↦ ⟨a, kept ++ additional.getD [], none⟩) ∧
    (∀ b question, ∃ p,
      Template.answering.render [("context_str", b), ("query_str", question)] = .ok p) ∧
    ∀ a b question, ∃ p, Template.refining.render
      [("existing_answer", a), ("context_msg", b), ("query_str", question)] = .ok p := by
  intro kept bs first next done
  refine ⟨?_, fun b question ↦ ?_, fun a b question ↦ ?_⟩
  · have hdone : done = (c.synthesize q nodes additional).run ⟨retriever, c.model⟩ w :=
      Work.perform_eq_run ..
    obtain ⟨t, hyields, hadmits, hafter⟩ :=
      (c.synthesize q nodes additional).leads_run w (c := ⟨retriever, c.model⟩)
    obtain ⟨t', out, hanswer, rfl, hout⟩ := yields_synthesize hyields
    have hadmits' : w.Admits ⟨retriever, c.model⟩ t' := by
      refine (World.admits_append.1 hadmits).2.of_answering ?_ (answering_of_yields hanswer)
      rw [World.prompted_afterAll, Trace.completions_noted, List.length_nil, Nat.add_zero]
    have hrefines : Refines c.model w.prompted first next none bs (Trace.prompts t')
        (Trace.completions t') out := refines_of_yields hanswer hadmits'
    refine ⟨_, out, ?_, Synthesizer.answering_of_yields (s := .chain c) hyields, ?_, ?_,
      hrefines.eq_ok_none_iff, ?_⟩
    · rw [hdone, hafter, World.trace_afterAll]
    · simpa using hrefines
    · simpa using hrefines.length_le
    · rw [hdone]
      exact hout
  · exact Template.exists_render_eq_ok fun v hv ↦ by
      simpa [Template.placeholders_answering] using hv
  · exact Template.exists_render_eq_ok fun v hv ↦ by
      simpa [Template.placeholders_refining] using hv

/-- An answer that looks like a placeholder is handed on as it is. -/
example :
    let c : Chain := ⟨.scripted "" [.ok "\x7bquery_str\x7d"] 0, ⟨"\x7bcontext_str\x7d?"⟩,
      ⟨"\x7bexisting_answer\x7d, \x7bcontext_msg\x7d?"⟩, ⟨.refine, 1⟩, []⟩
    let nodes := ["one", "two"].map fun s ↦ (⟨{ text := s }, none⟩ : ScoredNode)
    let done := (c.synthesize { text := "why" } nodes none).run ⟨.echo 0, c.model⟩ .fresh
    Trace.prompts done.2.trace = ["one?", "\x7bquery_str\x7d, two?"] := by
  decide +kernel

end Chain

end Synthesis

end CitedAnswers

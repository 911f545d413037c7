import CitedAnswers.Engine.Future
import Mathlib.Tactic.Simproc.ExistsAndEq

/-!
# Executions of work

What work does depends on what it is told from outside: the numbers drawn for its events and the
answers of its collaborators. An **execution** is what work leaves behind when these are arbitrary:
`Work.Executes k t k'` says that `k` can leave the occurrences `t` behind, with `k'` still to be
done. A world then picks out the executions that can really happen in it, those it **admits**:
numbers are drawn one after another, and answers are those of the call that is due
(`World.Admits`).

The split keeps the two halves of every later argument apart:

* what a query does is read off its work, by `Work.yields_bind_iff` and the like, with no
  collaborator, no world and no other work in sight;
* that running and polling do nothing else is said once, in `Work.leads_run` and
  `Future.leads_poll`, and holds for any work.
-/

namespace CitedAnswers

/-! ### Views of a trace -/

namespace Trace

/-- The answers that the retriever gave. -/
def retrievals (t : List Occurrence) : List (Except Failure (List ScoredNode)) :=
  t.filterMap fun o ↦ match o with
    | .asked _ r => some r
    | _ => none

/-- The completions that the model gave. -/
def completions (t : List Occurrence) : List (Except Failure String) :=
  t.filterMap fun o ↦ match o with
    | .prompted _ r => some r
    | _ => none

@[simp]
theorem events_append (t t' : List Occurrence) : events (t ++ t') = events t ++ events t' :=
  List.filterMap_append

@[simp]
theorem retrievals_append (t t' : List Occurrence) :
    retrievals (t ++ t') = retrievals t ++ retrievals t' :=
  List.filterMap_append

@[simp]
theorem prompts_append (t t' : List Occurrence) : prompts (t ++ t') = prompts t ++ prompts t' :=
  List.filterMap_append

@[simp]
theorem counts_append (t t' : List Occurrence) : counts (t ++ t') = counts t ++ counts t' :=
  List.filterMap_append

@[simp]
theorem completions_append (t t' : List Occurrence) :
    completions (t ++ t') = completions t ++ completions t' :=
  List.filterMap_append

@[simp]
theorem events_asked (q : Query) (r : Except Failure (List ScoredNode)) (t : List Occurrence) :
    events (.asked q r :: t) = events t :=
  rfl

@[simp]
theorem retrievals_asked (q : Query) (r : Except Failure (List ScoredNode)) (t : List Occurrence) :
    retrievals (.asked q r :: t) = r :: retrievals t :=
  rfl

@[simp]
theorem completions_asked (q : Query) (r : Except Failure (List ScoredNode))
    (t : List Occurrence) : completions (.asked q r :: t) = completions t :=
  rfl

@[simp]
theorem prompts_noted (es : List Log.Entry) : prompts (es.map .noted) = [] := by
  simp [prompts]

@[simp]
theorem completions_noted (es : List Log.Entry) : completions (es.map .noted) = [] := by
  simp [completions]

theorem mem_events {v : Event} {t : List Occurrence} : v ∈ events t ↔ .told v ∈ t := by
  simp only [events, List.mem_filterMap]
  constructor
  · rintro ⟨o, ho, h⟩
    cases o <;> simp_all
  · intro h
    exact ⟨_, h, rfl⟩

end Trace

/-! ### Executions -/

namespace Work

variable {α β : Type}

/-- One step of work: what it leaves behind, and the work that remains. Numbers of events and
answers of collaborators are arbitrary here. -/
inductive Step : Work α → Occurrence → Work α → Prop where
  | note (e : Log.Entry) (more : Work α) : Step (.note e more) (.noted e) more
  | count (f : Figure) (n : Nat) (more : Work α) : Step (.count f n more) (.counted f n) more
  | sum (n : Nat) (more : Work α) : Step (.sum n more) (.summed n) more
  | start (p : Phase) (x : Payload) (more : Nat → Work α) (id : Nat) :
    Step (.start p x more) (.told ⟨.start, p, x, id⟩) (more id)
  | stop (p : Phase) (x : Payload) (id : Nat) (more : Work α) :
    Step (.stop p x id more) (.told ⟨.stop, p, x, id⟩) more
  | retrieve (q : Query) (more : Except Failure (List ScoredNode) → Work α)
    (r : Except Failure (List ScoredNode)) : Step (.retrieve q more) (.asked q r) (more r)
  | predict (p : String) (more : Except Failure String → Work α) (r : Except Failure String) :
    Step (.predict p more) (.prompted p r) (more r)

/-- Several steps of work, one after another. -/
inductive Executes : Work α → List Occurrence → Work α → Prop where
  | nil (k : Work α) : Executes k [] k
  | cons {k k' k'' : Work α} {o : Occurrence} {t : List Occurrence} (h : Step k o k')
    (h' : Executes k' t k'') : Executes k (o :: t) k''

/-- Work can come to a result with the given occurrences. -/
def Yields (k : Work α) (t : List Occurrence) (a : α) : Prop := k.Executes t (.done a)

theorem Executes.trans {k k' k'' : Work α} {t t' : List Occurrence} (h : k.Executes t k')
    (h' : k'.Executes t' k'') : k.Executes (t ++ t') k'' := by
  induction h with
  | nil _ => exact h'
  | cons hs _ ih => exact .cons hs (ih h')

/-- Whatever work has done, it can go on to a result. -/
theorem exists_yields (k : Work α) : ∃ t a, k.Yields t a := by
  induction k with
  | done a => exact ⟨[], a, .nil _⟩
  | note e more ih =>
    obtain ⟨t, a, h⟩ := ih
    exact ⟨_, a, .cons (.note e more) h⟩
  | count f n more ih =>
    obtain ⟨t, a, h⟩ := ih
    exact ⟨_, a, .cons (.count f n more) h⟩
  | sum n more ih =>
    obtain ⟨t, a, h⟩ := ih
    exact ⟨_, a, .cons (.sum n more) h⟩
  | start p x more ih =>
    obtain ⟨t, a, h⟩ := ih 0
    exact ⟨_, a, .cons (.start p x more 0) h⟩
  | stop p x id more ih =>
    obtain ⟨t, a, h⟩ := ih
    exact ⟨_, a, .cons (.stop p x id more) h⟩
  | retrieve q more ih =>
    obtain ⟨t, a, h⟩ := ih (.ok [])
    exact ⟨_, a, .cons (.retrieve q more _) h⟩
  | predict p more ih =>
    obtain ⟨t, a, h⟩ := ih (.ok "")
    exact ⟨_, a, .cons (.predict p more _) h⟩

/-! ### Results, constructor by constructor -/

@[simp]
theorem yields_done {a b : α} {t : List Occurrence} : (done b).Yields t a ↔ t = [] ∧ b = a := by
  constructor
  · intro h
    cases h with
    | nil _ => exact ⟨rfl, rfl⟩
    | cons hs _ => cases hs
  · rintro ⟨rfl, rfl⟩
    exact .nil _

@[simp]
theorem yields_pure {a b : α} {t : List Occurrence} :
    (pure a : Work α).Yields t b ↔ t = [] ∧ a = b :=
  yields_done

@[simp]
theorem yields_note {e : Log.Entry} {more : Work α} {t : List Occurrence} {a : α} :
    (note e more).Yields t a ↔ ∃ t', t = .noted e :: t' ∧ more.Yields t' a := by
  constructor
  · rintro (- | ⟨⟨⟩, h⟩)
    exact ⟨_, rfl, h⟩
  · rintro ⟨t', rfl, h⟩
    exact .cons (.note e more) h

@[simp]
theorem yields_count {f : Figure} {n : Nat} {more : Work α} {t : List Occurrence} {a : α} :
    (count f n more).Yields t a ↔ ∃ t', t = .counted f n :: t' ∧ more.Yields t' a := by
  constructor
  · rintro (- | ⟨⟨⟩, h⟩)
    exact ⟨_, rfl, h⟩
  · rintro ⟨t', rfl, h⟩
    exact .cons (.count f n more) h

@[simp]
theorem yields_sum {n : Nat} {more : Work α} {t : List Occurrence} {a : α} :
    (sum n more).Yields t a ↔ ∃ t', t = .summed n :: t' ∧ more.Yields t' a := by
  constructor
  · rintro (- | ⟨⟨⟩, h⟩)
    exact ⟨_, rfl, h⟩
  · rintro ⟨t', rfl, h⟩
    exact .cons (.sum n more) h

@[simp]
theorem yields_start {p : Phase} {x : Payload} {more : Nat → Work α} {t : List Occurrence}
    {a : α} : (start p x more).Yields t a ↔
      ∃ id t', t = .told ⟨.start, p, x, id⟩ :: t' ∧ (more id).Yields t' a := by
  constructor
  · rintro (- | ⟨⟨⟩, h⟩)
    exact ⟨_, _, rfl, h⟩
  · rintro ⟨id, t', rfl, h⟩
    exact .cons (.start p x more id) h

@[simp]
theorem yields_stop {p : Phase} {x : Payload} {id : Nat} {more : Work α} {t : List Occurrence}
    {a : α} : (stop p x id more).Yields t a ↔
      ∃ t', t = .told ⟨.stop, p, x, id⟩ :: t' ∧ more.Yields t' a := by
  constructor
  · rintro (- | ⟨⟨⟩, h⟩)
    exact ⟨_, rfl, h⟩
  · rintro ⟨t', rfl, h⟩
    exact .cons (.stop p x id more) h

@[simp]
theorem yields_retrieve {q : Query} {more : Except Failure (List ScoredNode) → Work α}
    {t : List Occurrence} {a : α} : (retrieve q more).Yields t a ↔
      ∃ r t', t = .asked q r :: t' ∧ (more r).Yields t' a := by
  constructor
  · rintro (- | ⟨⟨⟩, h⟩)
    exact ⟨_, _, rfl, h⟩
  · rintro ⟨r, t', rfl, h⟩
    exact .cons (.retrieve q more r) h

@[simp]
theorem yields_predict {p : String} {more : Except Failure String → Work α}
    {t : List Occurrence} {a : α} : (predict p more).Yields t a ↔
      ∃ r t', t = .prompted p r :: t' ∧ (more r).Yields t' a := by
  constructor
  · rintro (- | ⟨⟨⟩, h⟩)
    exact ⟨_, _, rfl, h⟩
  · rintro ⟨r, t', rfl, h⟩
    exact .cons (.predict p more r) h

@[simp]
theorem yields_noteAll {es : List Log.Entry} {t : List Occurrence} {a : Unit} :
    (noteAll es).Yields t a ↔ t = es.map .noted := by
  induction es generalizing t with
  | nil => simp [noteAll]
  | cons e es ih => simp [noteAll, ih]

@[simp]
theorem yields_sumAll {ns : List Nat} {t : List Occurrence} {a : Unit} :
    (sumAll ns).Yields t a ↔ t = ns.map .summed := by
  induction ns generalizing t with
  | nil => simp [sumAll]
  | cons n ns ih => simp [sumAll, ih]

@[simp]
theorem yields_ask {q : Query} {t : List Occurrence} {r : Except Failure (List ScoredNode)} :
    (ask q).Yields t r ↔ t = [.asked q r] := by
  simp [ask]

/-- **Work one after another.** Its executions are those of the first work followed by those of the
second, which may depend on the result of the first. -/
theorem yields_bind_iff {k : Work α} {f : α → Work β} {t : List Occurrence} {b : β} :
    (k.bind f).Yields t b ↔
      ∃ t₁ a t₂, t = t₁ ++ t₂ ∧ k.Yields t₁ a ∧ (f a).Yields t₂ b := by
  -- What a constructor leaves behind comes first on both sides, as the head of `t` and of `t₁`.
  induction k generalizing t with
  | done a => simp only [Work.bind, yields_done]; grind
  | note e more ih => simp only [Work.bind, yields_note, ih]; grind
  | count g n more ih => simp only [Work.bind, yields_count, ih]; grind
  | sum n more ih => simp only [Work.bind, yields_sum, ih]; grind
  | start p x more ih => simp only [Work.bind, yields_start, ih]; grind
  | stop p x id more ih => simp only [Work.bind, yields_stop, ih]; grind
  | retrieve q more ih => simp only [Work.bind, yields_retrieve, ih]; grind
  | predict p more ih => simp only [Work.bind, yields_predict, ih]; grind

end Work

/-! ### Worlds that admit an execution -/

namespace World

variable (c : Collaborators)

/-- The world after an occurrence. -/
def after (w : World) (o : Occurrence) : World :=
  match o with
  | .told ⟨.start, _, _, _⟩ => { w.record o with drawn := w.drawn + 1 }
  | .asked _ _ => { w.record o with asked := w.asked + 1 }
  | .prompted _ _ => { w.record o with prompted := w.prompted + 1 }
  | _ => w.record o

/-- The world after several occurrences. -/
def afterAll (w : World) (t : List Occurrence) : World := t.foldl after w

/-- What can occur next: a start takes the number that is due, and collaborators answer the call
that is due. -/
def Allows (w : World) : Occurrence → Prop
  | .told ⟨.start, _, _, id⟩ => id = w.drawn
  | .asked q r => r = c.retriever.answer w.asked q
  | .prompted p r => r = c.model.answer w.prompted p
  | _ => True

/-- What can occur from now on, one thing after another. -/
def Admits (w : World) : List Occurrence → Prop
  | [] => True
  | o :: t => w.Allows c o ∧ (w.after o).Admits t

@[simp]
theorem trace_after (w : World) (o : Occurrence) : (w.after o).trace = w.trace ++ [o] := by
  unfold after
  split <;> rfl

theorem afterAll_append (w : World) (t t' : List Occurrence) :
    w.afterAll (t ++ t') = (w.afterAll t).afterAll t' :=
  List.foldl_append

theorem trace_afterAll (w : World) (t : List Occurrence) :
    (w.afterAll t).trace = w.trace ++ t := by
  induction t generalizing w with
  | nil => exact (List.append_nil _).symm
  | cons o t ih =>
    show ((w.after o).afterAll t).trace = _
    rw [ih, trace_after, List.append_assoc, List.singleton_append]

/-- Every answer of the retriever was a call of it. -/
theorem asked_afterAll (w : World) (t : List Occurrence) :
    (w.afterAll t).asked = w.asked + (Trace.retrievals t).length := by
  induction t generalizing w with
  | nil => rfl
  | cons o t ih =>
    have ho : (w.after o).asked = w.asked + (Trace.retrievals [o]).length := by
      rcases o with _ | _ | _ | ⟨_ | _, _⟩ | _ | _ <;> rfl
    have ht : Trace.retrievals (o :: t) = Trace.retrievals [o] ++ Trace.retrievals t :=
      Trace.retrievals_append [o] t
    show ((w.after o).afterAll t).asked = _
    rw [ih, ho, ht, List.length_append, Nat.add_assoc]

/-- Every completion was a call of the model. -/
theorem prompted_afterAll (w : World) (t : List Occurrence) :
    (w.afterAll t).prompted = w.prompted + (Trace.completions t).length := by
  induction t generalizing w with
  | nil => rfl
  | cons o t ih =>
    have ho : (w.after o).prompted = w.prompted + (Trace.completions [o]).length := by
      rcases o with _ | _ | _ | ⟨_ | _, _⟩ | _ | _ <;> rfl
    have ht : Trace.completions (o :: t) = Trace.completions [o] ++ Trace.completions t :=
      Trace.completions_append [o] t
    show ((w.after o).afterAll t).prompted = _
    rw [ih, ho, ht, List.length_append, Nat.add_assoc]

variable {c}

theorem admits_append {w : World} {t t' : List Occurrence} :
    w.Admits c (t ++ t') ↔ w.Admits c t ∧ (w.afterAll t).Admits c t' := by
  induction t generalizing w with
  | nil => exact ⟨fun h ↦ ⟨trivial, h⟩, And.right⟩
  | cons o t ih =>
    show _ ∧ _ ↔ (_ ∧ _) ∧ _
    rw [and_assoc]
    exact and_congr_right fun _ ↦ ih

theorem Admits.append {w : World} {t t' : List Occurrence} (h : w.Admits c t)
    (h' : (w.afterAll t).Admits c t') : w.Admits c (t ++ t') :=
  admits_append.2 ⟨h, h'⟩

/-- If the retriever is asked once, it answers the call that is due at the beginning. -/
theorem Admits.eq_of_asked {w : World} {t : List Occurrence} {q : Query}
    {r : Except Failure (List ScoredNode)} (h : w.Admits c t) (hasked : .asked q r ∈ t)
    (hone : Trace.retrievals t = [r]) : r = c.retriever.answer w.asked q := by
  obtain ⟨before, after, rfl⟩ := List.append_of_mem hasked
  have hbefore : (Trace.retrievals before).length = 0 := by
    have hlength := congrArg List.length hone
    simp only [Trace.retrievals_append, Trace.retrievals_asked, List.length_append,
      List.length_cons, List.length_nil] at hlength
    omega
  have hr : r = c.retriever.answer (w.afterAll before).asked q := (admits_append.1 h).2.1
  rwa [asked_afterAll, hbefore] at hr

end World

/-! ### Running and polling -/

namespace Work

variable {α : Type} {c : Collaborators}

/-- Work leads from one world to another, with other work still to be done: some execution of it is
admitted by the first world and leaves the second. -/
def Leads (c : Collaborators) (k : Work α) (w : World) (k' : Work α) (w' : World) : Prop :=
  ∃ t, k.Executes t k' ∧ w.Admits c t ∧ w' = w.afterAll t

theorem Leads.refl (k : Work α) (w : World) : k.Leads c w k w := ⟨[], .nil k, trivial, rfl⟩

/-- One step that the world allows, and then more. -/
theorem Leads.step {k k₁ k' : Work α} {w w' : World} {o : Occurrence}
    (h : k₁.Leads c (w.after o) k' w') (hs : Step k o k₁) (hw : w.Allows c o) :
    k.Leads c w k' w' := by
  obtain ⟨t, hk, ht, hw'⟩ := h
  exact ⟨o :: t, .cons hs hk, ⟨hw, ht⟩, hw'⟩

/-- **Running work at one go** leads to its result. -/
theorem leads_run (k : Work α) (w : World) :
    k.Leads c w (.done (k.run c w).1) (k.run c w).2 := by
  induction k generalizing w with
  | done a => exact .refl _ w
  | note e more ih => exact (ih _).step (.note e more) trivial
  | count f n more ih => exact (ih _).step (.count f n more) trivial
  | sum n more ih => exact (ih _).step (.sum n more) trivial
  | start p x more ih => exact (ih w.drawn _).step (.start p x more _) rfl
  | stop p x id more ih => exact (ih _).step (.stop p x id more) trivial
  | retrieve q more ih => exact (ih _ _).step (.retrieve q more _) rfl
  | predict p more ih => exact (ih _ _).step (.predict p more _) rfl

/-- **Running work does what the world admits**: an execution to a result is the one that running
leaves behind. -/
theorem run_eq_of_yields {k : Work α} {w : World} {t : List Occurrence} {a : α} (h : k.Yields t a)
    (hw : w.Admits c t) : k.run c w = (a, w.afterAll t) := by
  induction k generalizing w t with
  | done b =>
    obtain ⟨rfl, rfl⟩ := yields_done.1 h
    rfl
  | note e more ih =>
    obtain ⟨t, rfl, hmore⟩ := yields_note.1 h
    exact ih hmore hw.2
  | count f n more ih =>
    obtain ⟨t, rfl, hmore⟩ := yields_count.1 h
    exact ih hmore hw.2
  | sum n more ih =>
    obtain ⟨t, rfl, hmore⟩ := yields_sum.1 h
    exact ih hmore hw.2
  | start p x more ih =>
    obtain ⟨id, t, rfl, hmore⟩ := yields_start.1 h
    obtain rfl : id = w.drawn := hw.1
    exact ih _ hmore hw.2
  | stop p x id more ih =>
    obtain ⟨t, rfl, hmore⟩ := yields_stop.1 h
    exact ih hmore hw.2
  | retrieve q more ih =>
    obtain ⟨r, t, rfl, hmore⟩ := yields_retrieve.1 h
    obtain rfl : r = c.retriever.answer w.asked q := hw.1
    exact ih _ hmore hw.2
  | predict p more ih =>
    obtain ⟨r, t, rfl, hmore⟩ := yields_predict.1 h
    obtain rfl : r = c.model.answer w.prompted p := hw.1
    exact ih _ hmore hw.2

end Work

namespace Future

variable {α : Type} {c : Collaborators}

/-- The work that a future has still to do. -/
def remaining : Future α → Work α
  | finished a => .done a
  | unstarted k => k
  | retrieving _ q more => .retrieve q more
  | predicting _ p more => .predict p more

/-- Doing work up to the next call that has to be waited for leads to what remains then. -/
theorem leads_advance (k : Work α) (w : World) :
    k.Leads c w (k.advance c w).1.remaining (k.advance c w).2 := by
  induction k generalizing w with
  | done a => exact .refl _ w
  | note e more ih => exact (ih _).step (.note e more) trivial
  | count f n more ih => exact (ih _).step (.count f n more) trivial
  | sum n more ih => exact (ih _).step (.sum n more) trivial
  | start p x more ih => exact (ih w.drawn _).step (.start p x more _) rfl
  | stop p x id more ih => exact (ih _).step (.stop p x id more) trivial
  | retrieve q more ih =>
    simp only [Work.advance]
    split
    · exact (ih _ _).step (.retrieve q more _) rfl
    · exact .refl _ w
  | predict p more ih =>
    simp only [Work.advance]
    split
    · exact (ih _ _).step (.predict p more _) rfl
    · exact .refl _ w

/-- **Polling a future** leads from what remained before to what remains after it. A poll in vain
leads nowhere. -/
theorem leads_poll (f : Future α) (w : World) :
    f.remaining.Leads c w (f.poll c w).1.remaining (f.poll c w).2 := by
  cases f with
  | finished a => exact .refl _ w
  | unstarted k => exact leads_advance k w
  | retrieving polls q more =>
    cases polls with
    | zero => exact (leads_advance _ _).step (.retrieve q more _) rfl
    | succ polls => exact .refl _ w
  | predicting polls p more =>
    cases polls with
    | zero => exact (leads_advance _ _).step (.predict p more _) rfl
    | succ polls => exact .refl _ w

end Future

end CitedAnswers

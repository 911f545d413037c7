import CitedAnswers.Proofs.Answering
import CitedAnswers.Proofs.Course
import Mathlib.Algebra.BigOperators.Group.List.Basic
import Mathlib.Algebra.GroupWithZero.Nat
import Mathlib.Data.List.Induction

/-!
# Bookkeeping

What a query enters in the ledger: for all passages it has retrieved, how many they are and how many
sources are cut from them, and once it has come to its end, the query itself with its outcome and
its duration. `Engine.balances_of_yields` says so of a query on its own. Other work enters the same
whenever it is done (`Work.Writes`).

A query that is polled is known only at its calls: between one poll and the next it waits for a
collaborator. At each of its calls the books are balanced too, that is, nothing is owed for passages
that were retrieved before. So what one poll enters can be told from what happened in it
(`Engine.orderly_poll`), and from that what several queries enter that are polled to their ends
(`Engine.enters_performAll`).

Totals of figures, as the ledger gives them, do not depend on the order of what was entered
(`Ledger.total_eq_of_perm`).
-/

namespace CitedAnswers

/-! ### Totals -/

namespace Ledger

variable (f : Figure)

/-- The total of a figure. One that was never touched has none. -/
def total (records : List (Figure × Nat)) : Nat := ((totals records).lookup f).getD 0

theorem getD_lookup_cons (r : Figure × Nat) (es : List (Figure × Nat)) :
    ((r :: es).lookup f).getD 0 = if f = r.1 then r.2 else (es.lookup f).getD 0 := by
  rw [List.lookup_cons]
  split
  · rename_i h
    rw [if_pos (eq_of_beq h)]
    rfl
  · rename_i h
    rw [if_neg (ne_of_beq_false h)]

theorem getD_lookup_add (g : Figure) (n : Nat) (es : List (Figure × Nat)) :
    ((add g n es).lookup f).getD 0 = (es.lookup f).getD 0 + if f = g then n else 0 := by
  induction es with
  | nil => simp [add, getD_lookup_cons]
  | cons r es ih =>
    rw [add]
    split
    · rename_i h
      rw [getD_lookup_cons, getD_lookup_cons, h]
      split <;> rfl
    · rename_i h
      rw [getD_lookup_cons, getD_lookup_cons, ih]
      split
      · rename_i hf
        rw [if_neg fun hg ↦ h (hg.symm.trans hf)]
        rfl
      · rfl

theorem total_eq_sum (rs : List (Figure × Nat)) :
    total f rs = (rs.map fun r ↦ if f = r.1 then r.2 else 0).sum := by
  induction rs using List.reverseRecOn with
  | nil => rfl
  | append_singleton rs r ih =>
    have htotals : totals (rs ++ [r]) = add r.1 r.2 (totals rs) := List.foldl_append
    rw [total, htotals, getD_lookup_add, ← total, ih]
    simp

@[simp]
theorem total_nil : total f [] = 0 := rfl

@[simp]
theorem total_cons (r : Figure × Nat) (rs : List (Figure × Nat)) :
    total f (r :: rs) = (if f = r.1 then r.2 else 0) + total f rs := by
  rw [total_eq_sum, total_eq_sum, List.map_cons, List.sum_cons]

@[simp]
theorem total_append (rs rs' : List (Figure × Nat)) :
    total f (rs ++ rs') = total f rs + total f rs' := by
  rw [total_eq_sum, total_eq_sum, total_eq_sum, List.map_append, List.sum_append]

theorem total_flatMap {α : Type} (F : α → List (Figure × Nat)) (xs : List α) :
    total f (xs.flatMap F) = (xs.map fun x ↦ total f (F x)).sum := by
  induction xs with
  | nil => rfl
  | cons x xs ih => rw [List.flatMap_cons, total_append, ih, List.map_cons, List.sum_cons]

theorem total_map {α : Type} (F : α → Figure × Nat) (xs : List α) :
    total f (xs.map F) = (xs.map fun x ↦ if f = (F x).1 then (F x).2 else 0).sum := by
  rw [total_eq_sum, List.map_map]
  rfl

/-- Totals do not depend on the order of the records. -/
theorem total_eq_of_perm {rs rs' : List (Figure × Nat)} (h : rs.Perm rs') :
    total f rs = total f rs' := by
  rw [total_eq_sum, total_eq_sum, (h.map _).sum_eq]

end Ledger

/-! ### Balanced books -/

/-- Whether an occurrence is the call of a collaborator. -/
def Occurrence.IsCall : Occurrence → Prop
  | asked _ _ | prompted _ _ => True
  | noted _ | counted _ _ | summed _ | told _ => False

namespace Trace

/-- The passages that were retrieved, call by call. -/
def retrieved (t : List Occurrence) : List (List ScoredNode) :=
  (retrievals t).filterMap Except.toOption

@[simp]
theorem retrieved_append (t t' : List Occurrence) :
    retrieved (t ++ t') = retrieved t ++ retrieved t' := by
  rw [retrieved, retrievals_append, List.filterMap_append]
  rfl

theorem retrievals_of_not_isCall {t : List Occurrence} (h : ∀ o ∈ t, ¬o.IsCall) :
    retrievals t = [] := by
  refine List.filterMap_eq_nil_iff.2 fun o ho ↦ ?_
  cases o with
  | asked q r => exact (h _ ho trivial).elim
  | _ => rfl

theorem retrieved_of_not_isCall {t : List Occurrence} (h : ∀ o ∈ t, ¬o.IsCall) :
    retrieved t = [] := by
  rw [retrieved, retrievals_of_not_isCall h]
  rfl

theorem retrieved_of_answering {t : List Occurrence} (h : ∀ o ∈ t, o.Answering) :
    retrieved t = [] := by
  rw [retrieved, retrievals_of_answering h]
  rfl

end Trace

namespace Engine

variable (e : Engine)

/-- What is entered for passages that a query has retrieved. -/
def dues (passages : List ScoredNode) : List (Figure × Nat) :=
  [(.passages, passages.length), (.sources, (Citation.sources e.citationSplitter passages).length)]

/-- What is entered for a query that has come to its end. -/
def entered (path : Path) (out : Except Failure Response) : List (Figure × Nat) :=
  [(.queries path out.toBool, 1), (.durations path, 1)]

/-- **The books of a trace are balanced** at its calls and, but for some entries, at its end: all
dues are entered for the passages retrieved so far, and nothing else. -/
structure Balances (t : List Occurrence) (extra : List (Figure × Nat)) : Prop where
  atCalls : ∀ u o v, t = u ++ o :: v → o.IsCall →
    Trace.counts u = (Trace.retrieved u).flatMap e.dues
  atEnd : Trace.counts t = (Trace.retrieved t).flatMap e.dues ++ extra

variable {e} {t t' : List Occurrence} {extra : List (Figure × Nat)}

theorem Balances.of_not_isCall (h : ∀ o ∈ t, ¬o.IsCall) : e.Balances t (Trace.counts t) where
  atCalls := by
    rintro u o v rfl ho
    exact absurd ho (h o (by simp))
  atEnd := by
    rw [Trace.retrieved_of_not_isCall h]
    rfl

/-- Making an answer enters nothing and owes nothing. -/
theorem Balances.of_answering (h : ∀ o ∈ t, o.Answering) : e.Balances t [] where
  atCalls := by
    rintro u o v rfl -
    have hu : ∀ o ∈ u, o.Answering := fun o ho ↦ h o (List.mem_append_left _ ho)
    rw [Trace.counts_of_answering hu, Trace.retrieved_of_answering hu]
    rfl
  atEnd := by
    rw [Trace.counts_of_answering h, Trace.retrieved_of_answering h]
    rfl

/-- A retrieval, if its dues are entered before the next call. -/
theorem Balances.asked {q : Query} {r : Except Failure (List ScoredNode)}
    (h : ∀ o ∈ t, ¬o.IsCall) (ht : Trace.counts t = r.toOption.toList.flatMap e.dues) :
    e.Balances (.asked q r :: t) [] where
  atCalls := by
    intro u o v hu ho
    cases u with
    | nil => rfl
    | cons o' u =>
      obtain ⟨-, rfl⟩ := List.cons_eq_cons.1 hu
      exact absurd ho (h o (by simp))
  atEnd := by
    have hretrieved : Trace.retrieved (.asked q r :: t) = r.toOption.toList := by
      rw [Trace.retrieved, Trace.retrievals_asked, Trace.retrievals_of_not_isCall h]
      cases r <;> rfl
    rw [hretrieved, ← ht, List.append_nil]
    rfl

theorem Balances.append (h : e.Balances t []) (h' : e.Balances t' extra) :
    e.Balances (t ++ t') extra where
  atCalls := by
    intro u o v hu ho
    rcases List.append_eq_append_iff.1 hu with ⟨u', rfl, hu'⟩ | ⟨v', rfl, hv'⟩
    · rw [Trace.counts_append, Trace.retrieved_append, List.flatMap_append, h.atEnd,
        h'.atCalls u' o v hu' ho, List.append_nil]
    · cases v' with
      | nil =>
        rw [List.append_nil] at h
        rw [h.atEnd, List.append_nil]
      | cons o' v' =>
        obtain ⟨rfl, -⟩ := List.cons_eq_cons.1 hv'
        exact h.atCalls u _ v' rfl ho
  atEnd := by
    rw [Trace.counts_append, Trace.retrieved_append, List.flatMap_append, h.atEnd, h'.atEnd,
      List.append_nil, List.append_assoc]

/-- What comes before a call. -/
theorem Balances.at_call {o : Occurrence} (h : e.Balances (t ++ o :: t') extra) (ho : o.IsCall) :
    e.Balances t [] where
  atCalls := by
    rintro u o' v rfl ho'
    exact h.atCalls u o' (v ++ o :: t') (by simp) ho'
  atEnd := (h.atCalls t o t' rfl ho).trans (List.append_nil _).symm

/-- What is left of a trace from a call on. -/
theorem Balances.of_append {o : Occurrence} (h : e.Balances (t ++ o :: t') extra)
    (ho : o.IsCall) : e.Balances (o :: t') extra := by
  have ht : Trace.counts t = (Trace.retrieved t).flatMap e.dues := h.atCalls t o t' rfl ho
  constructor
  · intro u o' v hu ho'
    have hcounts := h.atCalls (t ++ u) o' v (by rw [hu, List.append_assoc]) ho'
    rw [Trace.counts_append, Trace.retrieved_append, List.flatMap_append, ht] at hcounts
    exact List.append_cancel_left hcounts
  · have hcounts := h.atEnd
    rw [Trace.counts_append, Trace.retrieved_append, List.flatMap_append, ht,
      List.append_assoc] at hcounts
    exact List.append_cancel_left hcounts

/-- **What is entered when work goes on**, in whatever order: what had been entered for the queries
themselves before, and what has been entered for them now, differ by what is in the trace but for
the dues. -/
def Enters (e : Engine) (before : List (Figure × Nat)) (t : List Occurrence)
    (after : List (Figure × Nat)) : Prop :=
  (Trace.counts t ++ before).Perm ((Trace.retrieved t).flatMap e.dues ++ after)

namespace Enters

variable {before before' after after' : List (Figure × Nat)}

theorem refl (before : List (Figure × Nat)) : e.Enters before [] before := List.Perm.refl _

theorem of_balances (h : e.Balances t extra) : e.Enters [] t extra := by
  rw [Enters, List.append_nil, h.atEnd]

/-- One after the other. -/
theorem trans (h : e.Enters before t after) (h' : e.Enters after t' after') :
    e.Enters before (t ++ t') after' := by
  refine List.perm_iff_count.2 fun r ↦ ?_
  have hcount := h.count_eq r
  have hcount' := h'.count_eq r
  simp only [Trace.counts_append, Trace.retrieved_append, List.flatMap_append,
    List.count_append] at hcount hcount' ⊢
  omega

/-- One beside the other. -/
theorem append (h : e.Enters before t after) (h' : e.Enters before' t' after') :
    e.Enters (before ++ before') (t ++ t') (after ++ after') := by
  refine List.perm_iff_count.2 fun r ↦ ?_
  have hcount := h.count_eq r
  have hcount' := h'.count_eq r
  simp only [Trace.counts_append, Trace.retrieved_append, List.flatMap_append,
    List.count_append] at hcount hcount' ⊢
  omega

end Enters

end Engine

/-! ### Work without queries -/

/-- Work that always enters the same in the ledger and asks for no passages. -/
def Work.Writes {α : Type} (k : Work α) (es : List (Figure × Nat)) : Prop :=
  ∀ t a, k.Yields t a → Trace.counts t = es ∧ Trace.retrieved t = []

namespace Work.Writes

variable {α β : Type} {k : Work α} {es es' : List (Figure × Nat)}

theorem done (a : α) : (Work.done a).Writes [] := by
  intro t b h
  obtain ⟨rfl, -⟩ := yields_done.1 h
  exact ⟨rfl, rfl⟩

theorem note {e : Log.Entry} (h : k.Writes es) : (Work.note e k).Writes es := by
  intro t b ht
  obtain ⟨t', rfl, hmore⟩ := yields_note.1 ht
  exact h t' b hmore

theorem count {f : Figure} {n : Nat} (h : k.Writes es) :
    (Work.count f n k).Writes ((f, n) :: es) := by
  intro t b ht
  obtain ⟨t', rfl, hmore⟩ := yields_count.1 ht
  obtain ⟨hcounts, hretrieved⟩ := h t' b hmore
  exact ⟨congrArg ((f, n) :: ·) hcounts, hretrieved⟩

theorem sum {n : Nat} (h : k.Writes es) : (Work.sum n k).Writes es := by
  intro t b ht
  obtain ⟨t', rfl, hmore⟩ := yields_sum.1 ht
  exact h t' b hmore

theorem noteAll (xs : List Log.Entry) : (Work.noteAll xs).Writes [] := by
  induction xs with
  | nil => exact done ()
  | cons x xs ih => exact ih.note

theorem sumAll (ns : List Nat) : (Work.sumAll ns).Writes [] := by
  induction ns with
  | nil => exact done ()
  | cons n ns ih => exact ih.sum

theorem bind {f : α → Work β} (hk : k.Writes es) (hf : ∀ a, (f a).Writes es') :
    (k.bind f).Writes (es ++ es') := by
  intro t b h
  obtain ⟨t₁, a, t₂, rfl, h₁, h₂⟩ := yields_bind_iff.1 h
  obtain ⟨hcounts, hretrieved⟩ := hk t₁ a h₁
  obtain ⟨hcounts', hretrieved'⟩ := hf a t₂ b h₂
  rw [Trace.counts_append, Trace.retrieved_append, hcounts, hretrieved, hcounts', hretrieved']
  exact ⟨rfl, rfl⟩

end Work.Writes

theorem Synthesis.Synthesizer.writes_synthesize (s : Synthesizer) (q : Query)
    (nodes : List ScoredNode) (additional : Option (List ScoredNode)) :
    (s.synthesize q nodes additional).Writes [] := by
  intro t out h
  have hanswering := answering_of_yields h
  exact ⟨Trace.counts_of_answering hanswering, Trace.retrieved_of_answering hanswering⟩

theorem Run.writes_move (r : Run) (s : State) (outcome : Except Failure Run) :
    (r.move s outcome).Writes [] := by
  cases outcome with
  | ok next => exact (Work.Writes.done _).note
  | error f => exact .done _

/-- What is entered for passages that are numbered without a query. -/
def Engine.charge (e : Engine) (passages : List ScoredNode) : Figure × Nat :=
  (.sources, (Citation.sources e.citationSplitter passages).length)

theorem Engine.writes_place (e : Engine) (passages : List ScoredNode) :
    (e.place passages).Writes [] := by
  induction passages with
  | nil => exact .done ()
  | cons p ps ih =>
    exact (Work.Writes.noteAll _).bind fun _ ↦ (Work.Writes.sumAll _).bind fun _ ↦ ih

theorem Engine.writes_number (e : Engine) (passages : List ScoredNode) :
    (e.number passages).Writes [e.charge passages] :=
  (e.writes_place passages).bind fun _ ↦ (Work.Writes.done _).count.note

/-! ### A query on its own -/

namespace Engine

variable {e : Engine} {t : List Occurrence} {q : Query} {run run' : Run} {path : Path}
  {out : Except Failure Response}

theorem not_isCall_opening (begun : Begun) : ∀ o ∈ opening q run begun, ¬o.IsCall := by
  simp [opening, Occurrence.IsCall]

theorem not_isCall_numbering (begun : Begun) (passages : List ScoredNode) :
    ∀ o ∈ e.numbering run begun passages, ¬o.IsCall := by
  have hplacing : ∀ o ∈ e.placing passages, ¬o.IsCall :=
    e.forall_mem_placing passages (fun _ ↦ id) fun _ ↦ id
  simp only [numbering, List.forall_mem_append]
  exact ⟨⟨by simp [Occurrence.IsCall], hplacing⟩, by simp [Occurrence.IsCall]⟩

theorem not_isCall_conclusion (begun : Begun) (r : Response) :
    ∀ o ∈ conclusion run begun r, ¬o.IsCall := by
  simp [conclusion, Occurrence.IsCall]

theorem not_isCall_closing : ∀ o ∈ closing path run out, ¬o.IsCall := by
  cases out <;> simp [closing, Run.settling, Occurrence.IsCall]

theorem balances_opening (begun : Begun) : e.Balances (opening q run begun) [] :=
  .of_not_isCall (not_isCall_opening begun)

theorem balances_conclusion (begun : Begun) (r : Response) :
    e.Balances (conclusion run begun r) [] :=
  .of_not_isCall (not_isCall_conclusion begun r)

theorem balances_closing : e.Balances (closing path run out) (entered path out) := by
  have hcounts : Trace.counts (closing path run out) = entered path out := by
    cases out <;> rfl
  rw [← hcounts]
  exact .of_not_isCall not_isCall_closing

theorem balances_numbering (begun : Begun) (passages : List ScoredNode) :
    e.Balances (.asked q (.ok passages) :: e.numbering run begun passages) [] := by
  refine .asked (not_isCall_numbering begun passages) ?_
  have hplacing : Trace.counts (e.placing passages) = [] :=
    e.filterMap_placing passages (fun _ ↦ rfl) fun _ ↦ rfl
  rw [numbering, Trace.counts_append, Trace.counts_append, hplacing]
  rfl

/-- **A query keeps its books** up to its end. -/
theorem Pursuit.balances (h : e.Pursuit q run t out run') : e.Balances t [] := by
  cases h with
  | refused _ => exact .of_not_isCall (List.forall_mem_nil _)
  | unretrieved _ begun f =>
    exact (balances_opening begun).append (.asked (List.forall_mem_nil _) rfl)
  | unsynthesized _ begun passages ht =>
    have hanswer : e.Balances _ [] := .of_answering (Synthesis.Synthesizer.answering_of_yields ht)
    exact (balances_opening begun).append ((balances_numbering begun passages).append hanswer)
  | answered _ begun passages ht =>
    have hanswer : e.Balances _ [] := .of_answering (Synthesis.Synthesizer.answering_of_yields ht)
    exact (balances_opening begun).append
      (((balances_numbering begun passages).append hanswer).append (balances_conclusion begun _))

/-- **What a query enters**: the dues for what it retrieves, and itself at its end. -/
theorem balances_of_yields (h : (e.query path q run).Yields t (out, run')) :
    e.Balances t (entered path out) := by
  obtain ⟨t, run', hpursuit, rfl, -⟩ := e.yields_query h
  exact hpursuit.balances.append balances_closing

end Engine

/-! ### Between polls -/

/-- Work that cannot go on without a call. -/
def Work.Awaits {α : Type} (k : Work α) : Prop :=
  ∀ t a, k.Yields t a → ∃ o t', t = o :: t' ∧ o.IsCall

theorem Work.awaits_retrieve {α : Type} (q : Query)
    (more : Except Failure (List ScoredNode) → Work α) : (Work.retrieve q more).Awaits := by
  intro t a h
  obtain ⟨r, t', rfl, -⟩ := yields_retrieve.1 h
  exact ⟨_, t', rfl, trivial⟩

theorem Work.awaits_predict {α : Type} (p : String) (more : Except Failure String → Work α) :
    (Work.predict p more).Awaits := by
  intro t a h
  obtain ⟨r, t', rfl, -⟩ := yields_predict.1 h
  exact ⟨_, t', rfl, trivial⟩

namespace Future

variable {α : Type} (c : Collaborators)

theorem awaits_advance (k : Work α) (w : World) (h : (k.advance c w).1.value? = none) :
    (k.advance c w).1.remaining.Awaits := by
  induction k generalizing w with
  | done a => cases h
  | note e more ih => exact ih _ h
  | count f n more ih => exact ih _ h
  | sum n more ih => exact ih _ h
  | start p x more ih => exact ih _ _ h
  | stop p x id more ih => exact ih _ h
  | retrieve q more ih =>
    simp only [Work.advance] at h ⊢
    split at h
    · exact ih _ _ h
    · exact Work.awaits_retrieve q more
  | predict p more ih =>
    simp only [Work.advance] at h ⊢
    split at h
    · exact ih _ _ h
    · exact Work.awaits_predict p more

/-- **Between polls**, work that has not finished cannot go on without a call. -/
theorem awaits_poll (f : Future α) (w : World) (h : (f.poll c w).1.value? = none) :
    (f.poll c w).1.remaining.Awaits := by
  cases f with
  | finished a => cases h
  | unstarted k => exact awaits_advance c k w h
  | retrieving polls q more =>
    cases polls with
    | zero => exact awaits_advance c _ _ h
    | succ polls => exact Work.awaits_retrieve q more
  | predicting polls p more =>
    cases polls with
    | zero => exact awaits_advance c _ _ h
    | succ polls => exact Work.awaits_predict p more

end Future

namespace Engine

variable (e : Engine)

/-- **A query that is polled is in order**: as long as it has not finished, it owes nothing for what
it has done so far, and keeps its books from then on. -/
def Orderly (f : Future (Except Failure Response × Run)) : Prop :=
  f.value? = none →
    ∀ t out run, f.remaining.Yields t (out, run) → e.Balances t (entered .async out)

/-- What is entered for a polled query itself: nothing before it has finished. -/
def enteredOf (f : Future (Except Failure Response × Run)) : List (Figure × Nat) :=
  f.value?.toList.flatMap fun r ↦ entered .async r.1

theorem enteredOf_of_value?_eq_none {f : Future (Except Failure Response × Run)}
    (h : f.value? = none) : enteredOf f = [] := by
  rw [enteredOf, h]
  rfl

theorem enteredOf_finished (out : Except Failure Response) (run : Run) :
    enteredOf (.finished (out, run)) = entered .async out :=
  List.append_nil _

theorem flatMap_enteredOf (fs : List (Future (Except Failure Response × Run))) :
    fs.flatMap enteredOf = (fs.filterMap Future.value?).flatMap fun r ↦ entered .async r.1 := by
  rw [List.flatMap_def, List.filterMap_eq_flatMap_toList, List.flatMap_assoc]
  rfl

theorem orderly_unstarted (q : Query) (run : Run) :
    e.Orderly (.unstarted (e.query .async q run)) :=
  fun _ _ _ _ h ↦ balances_of_yields h

variable {e} {c : Collaborators} {f : Future (Except Failure Response × Run)}
  {fs : List (Future (Except Failure Response × Run))}

/-- **One poll** keeps a query in order, and enters the dues for what is retrieved in it and the
query if it finishes in it. -/
theorem orderly_poll (h : e.Orderly f) (w : World) :
    ∃ t, (f.poll c w).2 = w.afterAll t ∧ e.Orderly (f.poll c w).1 ∧
      e.Enters (enteredOf f) t (enteredOf (f.poll c w).1) := by
  cases hf : f.value? with
  | some r =>
    cases f <;> cases hf
    exact ⟨[], rfl, h, .refl _⟩
  | none =>
    obtain ⟨t, hexecutes, -, hw⟩ := f.leads_poll (c := c) w
    have hawaits := f.awaits_poll c w
    generalize (f.poll c w).1 = g at hexecutes hawaits
    rw [enteredOf_of_value?_eq_none hf]
    cases hg : g.value? with
    | some r =>
      obtain ⟨out, run⟩ := r
      cases g <;> cases hg
      refine ⟨t, hw, fun hnone ↦ (nomatch hnone), ?_⟩
      rw [enteredOf_finished]
      exact .of_balances (h hf t out run hexecutes)
    | none =>
      rw [enteredOf_of_value?_eq_none hg]
      -- What the query does after the poll, it does after what it has done in it.
      have hafter {u : List Occurrence} {out : Except Failure Response} {run : Run}
          (hu : g.remaining.Yields u (out, run)) : e.Balances (t ++ u) (entered .async out) :=
        h hf _ out run (hexecutes.trans hu)
      refine ⟨t, hw, fun _ u out run hu ↦ ?_, ?_⟩
      · obtain ⟨o, u, rfl, ho⟩ := hawaits hg u _ hu
        exact (hafter hu).of_append ho
      · obtain ⟨u, ⟨out, run⟩, hu⟩ := g.remaining.exists_yields
        obtain ⟨o, u, rfl, ho⟩ := hawaits hg u _ hu
        exact .of_balances ((hafter hu).at_call ho)

/-- **One round of polls.** -/
theorem orderly_round (h : ∀ f ∈ fs, e.Orderly f) (w : World) :
    ∃ t, (Future.round c fs w).2 = w.afterAll t ∧ (∀ g ∈ (Future.round c fs w).1, e.Orderly g) ∧
      e.Enters (fs.flatMap enteredOf) t ((Future.round c fs w).1.flatMap enteredOf) := by
  induction fs generalizing w with
  | nil => exact ⟨[], rfl, h, .refl _⟩
  | cons f fs ih =>
    obtain ⟨hf, hfs⟩ := List.forall_mem_cons.1 h
    obtain ⟨t, hw, hg, ht⟩ := orderly_poll (c := c) hf w
    obtain ⟨t', hw', hgs, ht'⟩ := ih hfs (f.poll c w).2
    refine ⟨t ++ t', ?_, List.forall_mem_cons.2 ⟨hg, hgs⟩, ht.append ht'⟩
    rw [World.afterAll_append, ← hw]
    exact hw'

/-- **Polling queries in turn to their ends** enters the dues for all that is retrieved, and every
query with its outcome. -/
theorem orderly_completeAll (h : ∀ f ∈ fs, e.Orderly f) (w : World) :
    ∃ t, (Future.completeAll c fs w).2 = w.afterAll t ∧
      (Future.completeAll c fs w).1.length = fs.length ∧
      e.Enters (fs.flatMap enteredOf) t
        ((Future.completeAll c fs w).1.flatMap fun r ↦ entered .async r.1) := by
  induction fs using Future.wellFounded_roundAfter.induction generalizing w with
  | _ fs ih =>
    rw [Future.completeAll]
    split
    · rename_i hall
      refine ⟨[], rfl, List.filterMap_length_eq_length.2 (List.all_eq_true.1 hall), ?_⟩
      rw [flatMap_enteredOf]
      exact .refl _
    · rename_i hall
      obtain ⟨t, hw, hgs, ht⟩ := orderly_round (c := c) h w
      obtain ⟨t', hw', hlength, ht'⟩ :=
        ih _ (Future.roundAfter_round c w hall) hgs (Future.round c fs w).2
      refine ⟨t ++ t', ?_, hlength.trans (Future.length_round c fs w), ht.trans ht'⟩
      rw [World.afterAll_append, ← hw]
      exact hw'

/-- **Answering queries at the same time** enters the dues for all that is retrieved, and every
query with its outcome. -/
theorem enters_performAll (e : Engine) (qs : List Query) {w : World} (hw : w.trace = []) :
    let result := e.performAll (qs.map fun q ↦ e.query .async q .fresh) w
    result.1.length = qs.length ∧
      e.Enters [] result.2.trace (result.1.flatMap fun r ↦ entered .async r.1) := by
  let fs : List (Future (Except Failure Response × Run)) :=
    (qs.map fun q ↦ e.query .async q .fresh).map .unstarted
  have hfs : ∀ f ∈ fs, e.Orderly f := by
    intro f hf
    obtain ⟨k, hk, rfl⟩ := List.mem_map.1 hf
    obtain ⟨q, -, rfl⟩ := List.mem_map.1 hk
    exact e.orderly_unstarted q .fresh
  have hbefore : fs.flatMap enteredOf = [] := by simp [fs, enteredOf, Future.value?]
  intro result
  obtain ⟨t, hworld, hlength, ht⟩ := orderly_completeAll (c := e.collaborators) hfs w
  change result.2 = _ at hworld
  change result.1.length = _ at hlength
  have htrace : result.2.trace = t := by rw [hworld, World.trace_afterAll, hw, List.nil_append]
  rw [htrace, hlength, ← hbefore]
  exact ⟨by simp [fs], ht⟩

end Engine

end CitedAnswers

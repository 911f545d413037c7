import CitedAnswers.Proofs.Notification
import Mathlib.Logic.Equiv.Fintype

/-!
# Doing a query again

Collaborators are `Steady` if what they answer does not depend on the calls before, only on what
they are asked. With steady collaborators there is one thing left that work is told from outside and
that may differ from one time to another: the numbers drawn for its events.

* Two executions of the same work that draw the same numbers are the same
  (`Work.Yields.unique`), whatever the work is.
* A query only hands its numbers on: with other numbers in their place, what it leaves behind is
  again an execution of it (`Engine.Pursuit.mapId`).

So if the numbers that a query draws are different from each other, whenever it is done, it is done
in the same way up to a change of numbers (`Engine.query_repeats`). That the numbers are different
is what the world sees to, in which the query may be one of many (`World.Admits.regular`).
-/

namespace CitedAnswers

/-! ### Steady collaborators -/

/-- **Answers that depend on the question alone.** Polls in vain may depend on anything. -/
structure Collaborators.Steady (c : Collaborators) : Prop where
  retriever : ∀ calls q, c.retriever.answer calls q = c.retriever.answer 0 q
  model : ∀ calls p, c.model.answer calls p = c.model.answer 0 p

/-- Whoever is asked answers as if asked for the first time. -/
def Occurrence.Answered (c : Collaborators) : Occurrence → Prop
  | asked q r => r = c.retriever.answer 0 q
  | prompted p r => r = c.model.answer 0 p
  | _ => True

namespace Trace

/-- The numbers drawn. -/
def startIds (t : List Occurrence) : List Nat := t.filterMap Occurrence.startId?

/-- Numbers are drawn for events only. -/
theorem startIds_eq (t : List Occurrence) :
    startIds t = (events t).filterMap fun v ↦ (Occurrence.told v).startId? := by
  rw [startIds, events, List.filterMap_filterMap]
  congr 1
  funext o
  cases o <;> rfl

/-- **What can be left behind among steady collaborators.** -/
structure Regular (c : Collaborators) (t : List Occurrence) : Prop where
  answered : ∀ o ∈ t, o.Answered c
  /-- No number is drawn twice. -/
  nodup : (startIds t).Nodup

theorem Regular.sublist {c : Collaborators} {t t' : List Occurrence} (h : Regular c t)
    (ht : List.Sublist t' t) : Regular c t' where
  answered o ho := h.answered o (ht.subset ho)
  nodup := h.nodup.sublist (ht.filterMap _)

end Trace

theorem World.Admits.answered {c : Collaborators} (hc : c.Steady) {w : World} {t : List Occurrence}
    (h : w.Admits c t) : ∀ o ∈ t, o.Answered c := by
  induction t generalizing w with
  | nil => exact fun _ ho ↦ nomatch ho
  | cons o t ih =>
    refine List.forall_mem_cons.2 ⟨?_, ih h.2⟩
    have ho := h.1
    cases o with
    | asked q r => exact ho.trans (hc.retriever w.asked q)
    | prompted p r => exact ho.trans (hc.model w.prompted p)
    | _ => trivial

theorem World.Admits.regular {c : Collaborators} (hc : c.Steady) {w : World} {t : List Occurrence}
    (h : w.Admits c t) : Trace.Regular c t where
  answered := h.answered hc
  nodup := by
    rw [Trace.startIds, h.filterMap_startId?]
    exact List.nodup_range'

/-- **Work is determined** by what it is told from outside: the answers of its collaborators and the
numbers it draws. -/
theorem Work.Yields.unique {α : Type} {c : Collaborators} {k : Work α} {t t' : List Occurrence}
    {a a' : α} (h : k.Yields t a) (h' : k.Yields t' a') (ht : ∀ o ∈ t, o.Answered c)
    (ht' : ∀ o ∈ t', o.Answered c) (hids : Trace.startIds t = Trace.startIds t') :
    t = t' ∧ a = a' := by
  induction k generalizing t t' with
  | done b =>
    obtain ⟨rfl, rfl⟩ := yields_done.1 h
    obtain ⟨rfl, rfl⟩ := yields_done.1 h'
    exact ⟨rfl, rfl⟩
  | note e more ih =>
    obtain ⟨u, rfl, hu⟩ := yields_note.1 h
    obtain ⟨u', rfl, hu'⟩ := yields_note.1 h'
    obtain ⟨rfl, ha⟩ := ih hu hu' (List.forall_mem_cons.1 ht).2 (List.forall_mem_cons.1 ht').2 hids
    exact ⟨rfl, ha⟩
  | count f n more ih =>
    obtain ⟨u, rfl, hu⟩ := yields_count.1 h
    obtain ⟨u', rfl, hu'⟩ := yields_count.1 h'
    obtain ⟨rfl, ha⟩ := ih hu hu' (List.forall_mem_cons.1 ht).2 (List.forall_mem_cons.1 ht').2 hids
    exact ⟨rfl, ha⟩
  | sum n more ih =>
    obtain ⟨u, rfl, hu⟩ := yields_sum.1 h
    obtain ⟨u', rfl, hu'⟩ := yields_sum.1 h'
    obtain ⟨rfl, ha⟩ := ih hu hu' (List.forall_mem_cons.1 ht).2 (List.forall_mem_cons.1 ht').2 hids
    exact ⟨rfl, ha⟩
  | start p x more ih =>
    obtain ⟨id, u, rfl, hu⟩ := yields_start.1 h
    obtain ⟨id', u', rfl, hu'⟩ := yields_start.1 h'
    obtain ⟨rfl, hmore⟩ : id = id' ∧ Trace.startIds u = Trace.startIds u' :=
      List.cons_eq_cons.1 hids
    obtain ⟨rfl, ha⟩ :=
      ih id hu hu' (List.forall_mem_cons.1 ht).2 (List.forall_mem_cons.1 ht').2 hmore
    exact ⟨rfl, ha⟩
  | stop p x id more ih =>
    obtain ⟨u, rfl, hu⟩ := yields_stop.1 h
    obtain ⟨u', rfl, hu'⟩ := yields_stop.1 h'
    obtain ⟨rfl, ha⟩ := ih hu hu' (List.forall_mem_cons.1 ht).2 (List.forall_mem_cons.1 ht').2 hids
    exact ⟨rfl, ha⟩
  | retrieve q more ih =>
    obtain ⟨r, u, rfl, hu⟩ := yields_retrieve.1 h
    obtain ⟨r', u', rfl, hu'⟩ := yields_retrieve.1 h'
    obtain ⟨hr, hu_answered⟩ := List.forall_mem_cons.1 ht
    obtain ⟨hr', hu'_answered⟩ := List.forall_mem_cons.1 ht'
    obtain rfl : r = r' := Eq.trans hr (Eq.symm hr')
    obtain ⟨rfl, ha⟩ := ih r hu hu' hu_answered hu'_answered hids
    exact ⟨rfl, ha⟩
  | predict p more ih =>
    obtain ⟨r, u, rfl, hu⟩ := yields_predict.1 h
    obtain ⟨r', u', rfl, hu'⟩ := yields_predict.1 h'
    obtain ⟨hr, hu_answered⟩ := List.forall_mem_cons.1 ht
    obtain ⟨hr', hu'_answered⟩ := List.forall_mem_cons.1 ht'
    obtain rfl : r = r' := Eq.trans hr (Eq.symm hr')
    obtain ⟨rfl, ha⟩ := ih r hu hu' hu_answered hu'_answered hids
    exact ⟨rfl, ha⟩

/-! ### Other numbers -/

section

variable (σ : Nat → Nat)

/-- The event with another number. -/
def Event.mapId (v : Event) : Event := { v with id := σ v.id }

/-- The occurrence with another number, if it is an event. -/
def Occurrence.mapId : Occurrence → Occurrence
  | told v => told (v.mapId σ)
  | o => o

/-- Other numbers for the phases of a query. -/
def Engine.Begun.mapId (begun : Begun) : Begun := ⟨σ begun.query, σ begun.retrieve⟩

@[simp]
theorem Occurrence.answered_mapId {c : Collaborators} {o : Occurrence} :
    (o.mapId σ).Answered c ↔ o.Answered c := by
  cases o <;> exact Iff.rfl

namespace Trace

@[simp]
theorem prompts_mapId (t : List Occurrence) : prompts (t.map (.mapId σ)) = prompts t := by
  rw [prompts, prompts, List.filterMap_map]
  congr 1
  funext o
  cases o <;> rfl

theorem events_mapId (t : List Occurrence) :
    events (t.map (.mapId σ)) = (events t).map (.mapId σ) := by
  rw [events, events, List.filterMap_map, List.map_filterMap]
  congr 1
  funext o
  cases o <;> rfl

theorem startIds_mapId (t : List Occurrence) :
    startIds (t.map (.mapId σ)) = (startIds t).map σ := by
  rw [startIds, startIds, List.filterMap_map, List.map_filterMap]
  congr 1
  funext o
  rcases o with _ | _ | _ | ⟨_ | _, _, _, _⟩ | _ | _ <;> rfl

/-- Other numbers make no difference where nobody is told of anything. -/
theorem map_mapId_of_events {t : List Occurrence} (h : events t = []) :
    t.map (.mapId σ) = t := by
  have hfix : ∀ o ∈ t, o.mapId σ = o := by
    intro o ho
    cases o with
    | told v => exact absurd (mem_events.2 ho) (h ▸ List.not_mem_nil)
    | _ => rfl
  exact (List.map_congr_left hfix).trans (List.map_id t)

end Trace

end

/-- Between different numbers and as many others there is a change of numbers. -/
theorem exists_perm_map_eq {xs ys : List Nat} (hxs : xs.Nodup) (hys : ys.Nodup)
    (h : xs.length = ys.length) : ∃ σ : Equiv.Perm Nat, xs.map σ = ys := by
  obtain ⟨σ, hσ⟩ := Equiv.Perm.exists_extending_pair xs.get (fun i ↦ ys.get (i.cast h))
    (List.nodup_iff_injective_get.1 hxs)
    ((List.nodup_iff_injective_get.1 hys).comp (Fin.cast_injective h))
  refine ⟨σ, List.ext_getElem ((List.length_map ..).trans h) fun i hi _ ↦ ?_⟩
  rw [List.getElem_map]
  exact hσ ⟨i, (List.length_map σ) ▸ hi⟩

/-! ### A query with other numbers -/

namespace Engine

variable {e : Engine} {q : Query} {run run' r r' : Run} {path path' : Path}
  {t t' : List Occurrence} {out out' : Except Failure Response}

section

variable (σ : Nat → Nat)

theorem map_mapId_opening {begun : Begun} :
    (opening q run begun).map (.mapId σ) = opening q run (begun.mapId σ) :=
  rfl

theorem map_mapId_numbering {begun : Begun} {passages : List ScoredNode} :
    (e.numbering run begun passages).map (.mapId σ) =
      e.numbering run (begun.mapId σ) passages := by
  rw [numbering, numbering, List.map_append, List.map_append,
    Trace.map_mapId_of_events σ (e.events_placing)]
  rfl

theorem map_mapId_conclusion {begun : Begun} {r : Response} :
    (conclusion run begun r).map (.mapId σ) = conclusion run (begun.mapId σ) r :=
  rfl

/-- **A query only hands its numbers on.** -/
theorem Pursuit.mapId (h : e.Pursuit q run t out r) :
    e.Pursuit q run (t.map (.mapId σ)) out r := by
  cases h with
  | refused h => exact .refused h
  | unretrieved h begun f => exact .unretrieved h (begun.mapId σ) f
  | @unsynthesized h begun passages t f ht =>
    have hquiet := (Synthesis.Synthesizer.quiet_synthesize ht).1
    rw [List.map_append, List.map_cons, List.map_append, map_mapId_opening, map_mapId_numbering,
      Trace.map_mapId_of_events σ hquiet]
    exact .unsynthesized h (begun.mapId σ) passages ht
  | @answered h begun passages t r ht =>
    have hquiet := (Synthesis.Synthesizer.quiet_synthesize ht).1
    rw [List.map_append, List.map_cons, List.map_append, List.map_append, map_mapId_opening,
      map_mapId_numbering, map_mapId_conclusion, Trace.map_mapId_of_events σ hquiet]
    exact .answered h (begun.mapId σ) passages ht

end

theorem Keeps.startIds {begun : Begun} {retrieved : Except Failure (List ScoredNode)}
    (h : e.Keeps q begun retrieved out t) : Trace.startIds t = [begun.query, begun.retrieve] := by
  rw [Trace.startIds_eq, h.events]
  cases retrieved <;> cases out <;> rfl

/-- A query draws a number for each of its phases, or none. -/
theorem Pursuit.length_startIds (h : e.Pursuit q run t out r) :
    (Trace.startIds t).length = if run.state = .idle then 2 else 0 := by
  split
  · rename_i hidle
    obtain ⟨begun, retrieved, hkeeps⟩ := h.keeps hidle
    rw [hkeeps.startIds]
    rfl
  · rename_i hidle
    cases h with
    | refused _ => rfl
    | unretrieved h => exact absurd h hidle
    | unsynthesized h => exact absurd h hidle
    | answered h => exact absurd h hidle

variable {c : Collaborators}

/-- **Up to its numbers, a query is determined.** -/
theorem Pursuit.exists_mapId (h : e.Pursuit q run t out r) (h' : e.Pursuit q run t' out' r')
    (ht : Trace.Regular c t) (ht' : Trace.Regular c t') :
    (∃ σ : Equiv.Perm Nat, t' = t.map (.mapId σ)) ∧ out' = out ∧ r' = r := by
  obtain ⟨σ, hσ⟩ := exists_perm_map_eq ht.nodup ht'.nodup
    (h.length_startIds.trans h'.length_startIds.symm)
  have hanswered : ∀ o ∈ t.map (Occurrence.mapId σ), o.Answered c := by
    rw [List.forall_mem_map]
    exact fun o ho ↦ (Occurrence.answered_mapId σ).2 (ht.answered o ho)
  have hids : Trace.startIds t' = Trace.startIds (t.map (.mapId σ)) := by
    rw [Trace.startIds_mapId, hσ]
  obtain ⟨htrace, hresult⟩ :=
    h'.yields.unique (h.mapId σ).yields ht'.answered hanswered hids
  exact ⟨⟨σ, htrace⟩, Prod.mk.inj hresult⟩

/-- What is left behind another time is the same but for the numbers of events. Of the ledger, which
also tells the path, nothing is said. -/
structure Repeats (t t' : List Occurrence) : Prop where
  prompts : Trace.prompts t' = Trace.prompts t
  events : ∃ σ : Equiv.Perm Nat, Trace.events t' = (Trace.events t).map (.mapId σ)

theorem prompts_closing : Trace.prompts (closing path run out) = [] := by
  cases out <;> rfl

/-- **A query done again**, on any path, comes to the same result and leaves the same run, sends the
same prompts, and tells of the same events with other numbers. -/
theorem query_repeats (h : (e.query path q run).Yields t (out, r))
    (h' : (e.query path' q run).Yields t' (out', r')) (ht : Trace.Regular c t)
    (ht' : Trace.Regular c t') : (out', r') = (out, r) ∧ Repeats t t' := by
  obtain ⟨u, s, hu, rfl, rfl⟩ := e.yields_query h
  obtain ⟨u', s', hu', rfl, rfl⟩ := e.yields_query h'
  obtain ⟨⟨σ, rfl⟩, rfl, rfl⟩ := hu.exists_mapId hu'
    (ht.sublist (List.sublist_append_left ..)) (ht'.sublist (List.sublist_append_left ..))
  refine ⟨rfl, ?_, σ, ?_⟩
  · rw [Trace.prompts_append, Trace.prompts_append, prompts_closing, prompts_closing,
      Trace.prompts_mapId]
  · rw [Trace.events_append, Trace.events_append, (quiet_closing ..).1, (quiet_closing ..).1,
      List.append_nil, List.append_nil, Trace.events_mapId]

end Engine

end CitedAnswers

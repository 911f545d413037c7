import CitedAnswers.Proofs.Answering
import CitedAnswers.Proofs.Course
import CitedAnswers.Proofs.Interleaving
import Mathlib.Data.List.Nodup

/-!
# What observers are told

A query tells observers of four events, or of a beginning of them if it fails: the start of the
query and of the retrieval, the end of the retrieval with the sources cut from the passages, and the
end of the query with its response (`Engine.protocol`). `Engine.notifications` says so of any number
of queries on one engine that are polled in any order: told apart by the numbers of their events,
each has kept to its protocol, and all observers were told the same.

Of a query alone this is read off its course (`Engine.Pursuit`), in which only the phases of the
query tell of events; the synthesizer tells of none. Among others, what is new is that the numbers
tell queries apart. An end has the number of a start of the same query, however far the query has
come (`Engine.exists_start`), and no two starts have the same number. That a query gets to its end
at all has nothing to do with events: it holds of any work that is polled again and again
(`Interleaving.exists_finished`).
-/

namespace CitedAnswers

/-! ### Deliveries -/

/-- An event told to one observer. -/
structure Delivery where
  /-- The place of the observer in the order of registration. -/
  place : Nat
  observer : Observer
  event : Event

namespace Trace

/-- What observers are told, in order: of each event one after another, in the order of their
registration. -/
def deliveries (os : List Observer) (t : List Occurrence) : List Delivery :=
  (events t).flatMap fun v ↦ os.zipIdx.map fun o ↦ ⟨o.2, o.1, v⟩

/-- What the observer at a place is told. -/
def heard (os : List Observer) (place : Nat) (t : List Occurrence) : List Event :=
  ((deliveries os t).filter fun d ↦ d.place == place).map Delivery.event

/-- **All observers are told the same.** -/
theorem heard_eq_events {os : List Observer} {place : Nat} (h : place < os.length)
    (t : List Occurrence) : heard os place t = events t := by
  have hcount : (os.zipIdx.countP fun o ↦ o.2 == place) = 1 := by
    have hmem : place ∈ List.range' 0 os.length := by simpa using h
    have hone := List.count_eq_one_of_mem List.nodup_range' hmem
    rwa [← List.zipIdx_map_snd, List.count, List.countP_map] at hone
  have hone (v : Event) : ((os.zipIdx.map fun o ↦ (⟨o.2, o.1, v⟩ : Delivery)).filter
      fun d ↦ d.place == place).map Delivery.event = [v] := by
    rw [List.filter_map, List.map_map]
    show _ = List.replicate 1 v
    refine List.eq_replicate_iff.2 ⟨?_, ?_⟩
    · rw [List.length_map, ← List.countP_eq_length_filter]
      exact hcount
    · intro u hu
      obtain ⟨o, -, rfl⟩ := List.mem_map.1 hu
      rfl
  rw [heard, deliveries, List.filter_flatMap, List.map_flatMap]
  simp only [hone, List.flatMap_singleton']

theorem filterMap_zipIdx {β : Type} (f : Observer → Option β) (os : List Observer) :
    (os.zipIdx.filterMap fun o ↦ f o.1) = os.filterMap f := by
  rw [← Function.comp_def f, ← List.filterMap_map, List.zipIdx_map_fst]

/-- Observers record what they are told. -/
theorem records_eq (os : List Observer) (t : List Occurrence) :
    records os t = (deliveries os t).filterMap fun d ↦ d.observer.record? d.event := by
  simp only [records, deliveries, List.filterMap_flatMap, List.filterMap_map, Function.comp_def,
    filterMap_zipIdx]
  rfl

/-- What was written to the log, but for what observers wrote. -/
def notes (t : List Occurrence) : List Log.Entry :=
  t.filterMap fun o ↦ match o with
    | .noted e => some e
    | _ => none

/-- Observers write what they are told to the log, when they are told. -/
theorem log_eq (os : List Observer) (t : List Occurrence) :
    log os t = t.flatMap fun o ↦
      notes [o] ++ (deliveries os [o]).filterMap fun d ↦ d.observer.written? d.event := by
  rw [log]
  congr 1
  funext o
  cases o <;> simp [notes, deliveries, events, List.filterMap_map, filterMap_zipIdx,
    Observer.entriesOf]

end Trace

/-! ### A query alone -/

/-- Nobody is told of anything and the retriever is not asked. -/
def Trace.Quiet (t : List Occurrence) : Prop := events t = [] ∧ retrievals t = []

/-- **Making an answer tells nobody of anything.** -/
theorem Synthesis.Synthesizer.quiet_synthesize {s : Synthesizer} {q : Query}
    {nodes : List ScoredNode} {additional : Option (List ScoredNode)} {t : List Occurrence}
    {out : Except Failure Response} (h : (s.synthesize q nodes additional).Yields t out) :
    Trace.Quiet t :=
  have hanswering := answering_of_yields h
  ⟨Trace.events_of_answering hanswering, Trace.retrievals_of_answering hanswering⟩

namespace Engine

variable (e : Engine) {q : Query} {run run' : Run} {path : Path} {t : List Occurrence}
  {out : Except Failure Response}

/-- **The events of a query** on an idle run, given the numbers of its phases, what the retriever
came to, and the result. -/
def protocol (q : Query) (begun : Begun) (retrieved : Except Failure (List ScoredNode))
    (out : Except Failure Response) : List Event :=
  [⟨.start, .query, .question q.text, begun.query⟩, ⟨.start, .retrieve, .empty, begun.retrieve⟩] ++
    match retrieved with
    | .error _ => []
    | .ok passages =>
      ⟨.stop, .retrieve, .nodes (Citation.sources e.citationSplitter passages), begun.retrieve⟩ ::
        match out with
        | .error _ => []
        | .ok r => [⟨.stop, .query, .response r, begun.query⟩]

/-- What a query has left behind keeps to its protocol: the retriever was asked once, and the result
is the failure of the retriever or else what the synthesizer made of all the sources. -/
structure Keeps (q : Query) (begun : Begun) (retrieved : Except Failure (List ScoredNode))
    (out : Except Failure Response) (t : List Occurrence) : Prop where
  events : Trace.events t = e.protocol q begun retrieved out
  retrievals : Trace.retrievals t = [retrieved]
  unretrieved : ∀ f, retrieved = .error f → out = .error f
  synthesized : ∀ passages, retrieved = .ok passages → ∃ t', t' <:+: t ∧
    (e.synthesizer.synthesize q (Citation.sources e.citationSplitter passages) none).Yields t' out

@[simp]
theorem events_opening {begun : Begun} : Trace.events (opening q run begun) =
    [⟨.start, .query, .question q.text, begun.query⟩,
      ⟨.start, .retrieve, .empty, begun.retrieve⟩] :=
  rfl

@[simp]
theorem retrievals_opening {begun : Begun} : Trace.retrievals (opening q run begun) = [] := rfl

theorem events_placing {passages : List ScoredNode} : Trace.events (e.placing passages) = [] :=
  e.filterMap_placing passages (fun _ ↦ rfl) fun _ ↦ rfl

@[simp]
theorem events_numbering {begun : Begun} {passages : List ScoredNode} :
    Trace.events (e.numbering run begun passages) = [⟨.stop, .retrieve,
      .nodes (Citation.sources e.citationSplitter passages), begun.retrieve⟩] := by
  rw [numbering, Trace.events_append, Trace.events_append, events_placing]
  rfl

@[simp]
theorem retrievals_numbering {begun : Begun} {passages : List ScoredNode} :
    Trace.retrievals (e.numbering run begun passages) = [] := by
  have hplacing : Trace.retrievals (e.placing passages) = [] :=
    e.filterMap_placing passages (fun _ ↦ rfl) fun _ ↦ rfl
  rw [numbering, Trace.retrievals_append, Trace.retrievals_append, hplacing]
  rfl

@[simp]
theorem events_conclusion {begun : Begun} {r : Response} :
    Trace.events (conclusion run begun r) = [⟨.stop, .query, .response r, begun.query⟩] :=
  rfl

@[simp]
theorem retrievals_conclusion {begun : Begun} {r : Response} :
    Trace.retrievals (conclusion run begun r) = [] :=
  rfl

theorem quiet_closing (path : Path) (run : Run) (out : Except Failure Response) :
    Trace.Quiet (closing path run out) := by
  cases out <;> exact ⟨rfl, rfl⟩

variable {e}

/-- A query on an idle run keeps to its protocol up to its end. -/
theorem Pursuit.keeps (h : e.Pursuit q run t out run') (hidle : run.state = .idle) :
    ∃ begun retrieved, e.Keeps q begun retrieved out t := by
  cases h with
  | refused h => exact absurd hidle h
  | unretrieved _ begun f =>
    exact ⟨begun, .error f, rfl, rfl, fun _ hf ↦ by cases hf; rfl, fun _ hp ↦ nomatch hp⟩
  | @unsynthesized _ begun passages t f ht =>
    obtain ⟨hevents, hretrievals⟩ := Synthesis.Synthesizer.quiet_synthesize ht
    refine ⟨begun, .ok passages, ?_, ?_, fun _ hf ↦ (nomatch hf), ?_⟩
    · simp [hevents, protocol]
    · simp [hretrievals]
    · rintro _ ⟨⟩
      exact ⟨t, (List.suffix_append ..).isInfix.trans
        ((List.suffix_cons ..).trans (List.suffix_append ..)).isInfix, ht⟩
  | @answered _ begun passages t r ht =>
    obtain ⟨hevents, hretrievals⟩ := Synthesis.Synthesizer.quiet_synthesize ht
    refine ⟨begun, .ok passages, ?_, ?_, fun _ hf ↦ (nomatch hf), ?_⟩
    · simp [hevents, protocol]
    · simp [hretrievals]
    · rintro _ ⟨⟩
      exact ⟨t, (List.infix_append ..).trans
        ((List.suffix_cons ..).trans (List.suffix_append ..)).isInfix, ht⟩

/-- **A query alone** tells observers of nothing if its run is not idle, and keeps to its protocol
if it is. -/
theorem keeps_of_yields (h : (e.query path q run).Yields t (out, run')) :
    (run.state ≠ .idle ∧ Trace.Quiet t) ∨
      run.state = .idle ∧ ∃ begun retrieved, e.Keeps q begun retrieved out t := by
  obtain ⟨t, run', hp, rfl, -⟩ := e.yields_query h
  obtain ⟨hevents, hretrievals⟩ := quiet_closing path run' out
  by_cases hidle : run.state = .idle
  · obtain ⟨begun, retrieved, hk⟩ := hp.keeps hidle
    refine .inr ⟨hidle, begun, retrieved, ?_, ?_, hk.unretrieved, fun passages hr ↦ ?_⟩
    · rw [Trace.events_append, hevents, List.append_nil, hk.events]
    · rw [Trace.retrievals_append, hretrievals, List.append_nil, hk.retrievals]
    · obtain ⟨t', ht', hy⟩ := hk.synthesized passages hr
      exact ⟨t', ht'.trans (List.prefix_append ..).isInfix, hy⟩
  · clear h
    cases hp with
    | refused _ => exact .inl ⟨hidle, hevents, hretrievals⟩
    | unretrieved h => exact absurd h hidle
    | unsynthesized h => exact absurd h hidle
    | answered h => exact absurd h hidle

/-! ### A query among others -/

theorem map_id_protocol (q : Query) (begun : Begun) (retrieved : Except Failure (List ScoredNode))
    (out : Except Failure Response) : (e.protocol q begun retrieved out).map Event.id <+:
      [begun.query, begun.retrieve, begun.retrieve, begun.query] := by
  cases retrieved <;> cases out <;> exact ⟨_, rfl⟩

theorem id_of_mem_protocol {begun : Begun} {retrieved : Except Failure (List ScoredNode)}
    {v : Event} (h : v ∈ e.protocol q begun retrieved out) :
    v.id = begun.query ∨ v.id = begun.retrieve := by
  have hmem := (map_id_protocol q begun retrieved out).subset (List.mem_map_of_mem h)
  simp only [List.mem_cons, List.not_mem_nil] at hmem
  tauto

/-- **An end has the number of a start before it**, however far the query has come. -/
theorem exists_start {begun : Begun} {retrieved : Except Failure (List ScoredNode)}
    {vs : List Event} (h : vs <+: e.protocol q begun retrieved out) {v : Event} (hv : v ∈ vs) :
    ∃ u ∈ vs, u.edge = .start ∧ u.id = v.id := by
  -- With one event only, it is the start of the query; with more, both starts are there.
  rcases vs with _ | ⟨a, _ | ⟨b, vs⟩⟩
  · cases hv
  · obtain ⟨rfl, -⟩ := List.cons_prefix_cons.1 h
    obtain rfl := List.mem_singleton.1 hv
    exact ⟨_, hv, rfl, rfl⟩
  · obtain ⟨ha, htail⟩ := List.cons_prefix_cons.1 h
    obtain ⟨hb, -⟩ := List.cons_prefix_cons.1 htail
    rcases id_of_mem_protocol (h.subset hv) with hid | hid
    · exact ⟨a, List.mem_cons_self .., by rw [ha], by rw [ha, hid]⟩
    · exact ⟨b, List.mem_cons_of_mem _ (List.mem_cons_self ..), by rw [hb], by rw [hb, hid]⟩

theorem Keeps.start_query_mem {begun : Begun} {retrieved : Except Failure (List ScoredNode)}
    (hk : e.Keeps q begun retrieved out t) :
    ⟨.start, .query, .question q.text, begun.query⟩ ∈ Trace.events t :=
  hk.events ▸ List.mem_cons_self ..

theorem Keeps.start_retrieve_mem {begun : Begun} {retrieved : Except Failure (List ScoredNode)}
    (hk : e.Keeps q begun retrieved out t) :
    ⟨.start, .retrieve, .empty, begun.retrieve⟩ ∈ Trace.events t :=
  hk.events ▸ List.mem_cons_of_mem _ (List.mem_cons_self ..)

theorem getElem?_map_query {jobs : List (Query × Run)} {i : Nat} (h : jobs[i]? = some (q, run)) :
    (jobs.map fun x ↦ e.query .async x.1 x.2)[i]? = some (e.query .async q run) := by
  rw [List.getElem?_map, h, Option.map_some]

section

variable {jobs : List (Query × Run)} {w : World} {i j : Nat}
  {s : Interleaving (Except Failure Response × Run)}
  (h : s.Follows e.collaborators (jobs.map fun x ↦ e.query .async x.1 x.2) w)

include h

/-- However far a query has come, it has kept to its protocol. -/
theorem events_own_isPrefix_protocol (hi : jobs[i]? = some (q, run)) :
    ∃ begun retrieved out, Trace.events (s.own i) <+: e.protocol q begun retrieved out := by
  obtain ⟨t, ⟨out, run'⟩, hy⟩ := h.exists_yields (getElem?_map_query hi)
  rcases keeps_of_yields hy with ⟨-, hevents, -⟩ | ⟨-, begun, retrieved, hkeeps⟩
  · rw [Trace.events_append, List.append_eq_nil_iff] at hevents
    exact ⟨⟨0, 0⟩, .ok [], out, hevents.1 ▸ List.nil_prefix⟩
  · refine ⟨begun, retrieved, out, ?_⟩
    rw [← hkeeps.events, Trace.events_append]
    exact List.prefix_append ..

/-- Every event of a query among others has the number of a start of the same query. -/
theorem exists_start_own {v : Event} (hv : v ∈ Trace.events (s.own i)) :
    ∃ u, (i, .told u) ∈ s.log ∧ (Occurrence.told u).startId? = some v.id := by
  have hlt := h.lt_length _ (Interleaving.mem_own.1 (Trace.mem_events.1 hv))
  rw [List.length_map] at hlt
  obtain ⟨begun, retrieved, out, hprefix⟩ :=
    events_own_isPrefix_protocol h (List.getElem?_eq_getElem hlt)
  obtain ⟨⟨_, p, x, id⟩, hu, rfl, hid⟩ := exists_start hprefix hv
  exact ⟨_, Interleaving.mem_own.1 (Trace.mem_events.1 hu), congrArg some hid⟩

/-- **Numbers tell queries apart.** -/
theorem index_eq_of_id_eq {v u : Event} (hv : v ∈ Trace.events (s.own i))
    (hu : u ∈ Trace.events (s.own j)) (hid : v.id = u.id) : i = j := by
  obtain ⟨v', hv', hvid⟩ := exists_start_own h hv
  obtain ⟨u', hu', huid⟩ := exists_start_own h hu
  exact congrArg Prod.fst (h.eq_of_startId? hv' hu' (hvid.trans (congrArg some hid)) huid)

variable {begun : Begun} {retrieved : Except Failure (List ScoredNode)}

/-- The phases of a query have different numbers. -/
theorem query_ne_retrieve (hk : e.Keeps q begun retrieved out (s.own i)) :
    begun.query ≠ begun.retrieve := by
  intro hne
  have hq := Interleaving.mem_own.1 (Trace.mem_events.1 hk.start_query_mem)
  have hr := Interleaving.mem_own.1 (Trace.mem_events.1 hk.start_retrieve_mem)
  cases h.eq_of_startId? hq hr rfl (congrArg some hne.symm)

/-- Its numbers tell a query apart from all others. -/
theorem id_eq_iff (hk : e.Keeps q begun retrieved out (s.own i)) {v : Event}
    (hv : v ∈ Trace.events (s.own j)) :
    v.id = begun.query ∨ v.id = begun.retrieve ↔ j = i := by
  constructor
  · rintro (hid | hid)
    · exact index_eq_of_id_eq h hv hk.start_query_mem hid
    · exact index_eq_of_id_eq h hv hk.start_retrieve_mem hid
  · rintro rfl
    exact id_of_mem_protocol (hk.events ▸ hv)

end

end Engine

/-- What one work has told of can be picked out of all that was told, if something tells it
apart. -/
theorem Interleaving.filter_events {α : Type} {s : Interleaving α} {i : Nat} {p : Event → Bool}
    (h : ∀ j v, (j, .told v) ∈ s.log → (p v ↔ j = i)) :
    (Trace.events s.trace).filter p = Trace.events (s.own i) := by
  rw [trace, own]
  generalize s.log = log at h
  -- Of the log, `p` has a say only in what was told; the rest is dropped on both sides anyway.
  induction log with
  | nil => rfl
  | cons x log ih =>
    obtain ⟨j, o⟩ := x
    have hlog := ih fun j v hv ↦ h j v (List.mem_cons_of_mem _ hv)
    by_cases hj : j = i
    · subst hj
      rw [List.filter_cons_of_pos (by simp)]
      cases o with
      | told v =>
        have hp : p v := (h j v (List.mem_cons_self ..)).2 rfl
        exact (List.filter_cons_of_pos hp).trans (congrArg (v :: ·) hlog)
      | _ => exact hlog
    · rw [List.filter_cons_of_neg (by simpa using hj)]
      cases o with
      | told v =>
        have hp : ¬p v := fun hp ↦ hj ((h j v (List.mem_cons_self ..)).1 hp)
        exact (List.filter_cons_of_neg hp).trans hlog
      | _ => exact hlog

namespace Engine

/-- Whatever work is done on an engine at a time, polling it in turn is one of these orders, at the
end of which all of it has finished. -/
theorem exists_performAll {α : Type} (e : Engine) (ks : List (Work α)) (w : World) :
    ∃ schedule, let s := Interleaving.pollAll e.collaborators (.start ks w) schedule
      s.futures.all Future.isFinished ∧
        (s.futures.filterMap Future.value?, s.world) = e.performAll ks w := by
  obtain ⟨schedule, gs, log, hs, hall, hvalues⟩ :=
    Interleaving.exists_completeAll (c := e.collaborators) (ks.map .unstarted) w []
  refine ⟨schedule, ?_⟩
  rw [Interleaving.start, hs]
  exact ⟨hall, Prod.ext hvalues rfl⟩

/-- **What observers are told of queries on one engine**, polled in any order and any number of
times.

All observers are told the same events in the same order, each event in the order of their
registration, and what they record and what they write to the log is what they are told.

However far a query has come, it has told of a beginning of its protocol. Once it has finished, it
has told of nothing if its run was not idle. If it was, there are different numbers for its two
phases that no other query has used, and what any observer was told under these numbers are the
events of its protocol, with all the sources cut from the passages that the retriever gave for it
and the response that it came to. The result is the failure of the retriever or else what the
synthesizer made of these sources, so for either failure the protocol says where the events end.

And finish it does: from wherever it is, in any order that comes back to it again and again. -/
theorem notifications (e : Engine) (jobs : List (Query × Run)) (w : World) (schedule : List Nat) :
    let s := Interleaving.pollAll e.collaborators
      (.start (jobs.map fun x ↦ e.query .async x.1 x.2) w) schedule
    s.world.trace = w.trace ++ s.trace ∧
      (∀ place < e.observers.length,
        Trace.heard e.observers place s.trace = Trace.events s.trace) ∧
      Trace.records e.observers s.trace =
        (Trace.deliveries e.observers s.trace).filterMap (fun d ↦ d.observer.record? d.event) ∧
      (Trace.log e.observers s.trace = s.trace.flatMap fun o ↦ Trace.notes [o] ++
        (Trace.deliveries e.observers [o]).filterMap fun d ↦ d.observer.written? d.event) ∧
      ∀ i q run, jobs[i]? = some (q, run) →
        (∃ begun retrieved out,
          Trace.events (s.own i) <+: e.protocol q begun retrieved out) ∧
        (∀ out run', s.futures[i]? = some (.finished (out, run')) →
          (run.state ≠ .idle → Trace.events (s.own i) = []) ∧
          (run.state = .idle → ∃ begun retrieved, e.Keeps q begun retrieved out (s.own i) ∧
            begun.query ≠ begun.retrieve ∧
            (∀ j ≠ i, ∀ v ∈ Trace.events (s.own j),
              v.id ≠ begun.query ∧ v.id ≠ begun.retrieve) ∧
            ∀ place < e.observers.length, (Trace.heard e.observers place s.trace).filter
              (fun v ↦ v.id = begun.query ∨ v.id = begun.retrieve) =
                e.protocol q begun retrieved out)) ∧
        ∀ order : Nat → Nat, (∀ n, ∃ m ≥ n, order m = i) →
          ∃ n out run', (s.pollAll e.collaborators ((List.range n).map order)).futures[i]? =
            some (.finished (out, run')) := by
  intro s
  have hs : s.Follows e.collaborators (jobs.map fun x ↦ e.query .async x.1 x.2) w :=
    (Interleaving.follows_start _ w).pollAll schedule
  refine ⟨?_, fun _ h ↦ Trace.heard_eq_events h _, Trace.records_eq .., Trace.log_eq .., ?_⟩
  · rw [hs.world, World.trace_afterAll]
  intro i q run hi
  refine ⟨events_own_isPrefix_protocol hs hi, fun out run' hf ↦ ?_, fun order hfair ↦ ?_⟩
  case refine_2 =>
    obtain ⟨f, hf⟩ := hs.exists_future (getElem?_map_query hi)
    obtain ⟨n, ⟨out, run'⟩, hfinished⟩ := Interleaving.exists_finished hf hfair
    exact ⟨n, out, run', hfinished⟩
  have hcases := keeps_of_yields (hs.yields_of_finished (getElem?_map_query hi) hf)
  constructor
  · intro hidle
    rcases hcases with ⟨-, hevents, -⟩ | ⟨h, -⟩
    · exact hevents
    · exact absurd h hidle
  · intro hidle
    obtain ⟨begun, retrieved, hkeeps⟩ :
        ∃ begun retrieved, e.Keeps q begun retrieved out (s.own i) := by
      rcases hcases with ⟨h, -⟩ | ⟨-, h⟩
      · exact absurd hidle h
      · exact h
    refine ⟨begun, retrieved, hkeeps, query_ne_retrieve hs hkeeps, fun j hj v hv ↦ ?_,
      fun place hplace ↦ ?_⟩
    · exact not_or.1 fun hid ↦ hj ((id_eq_iff hs hkeeps hv).1 hid)
    · rw [Trace.heard_eq_events hplace, ← hkeeps.events]
      refine Interleaving.filter_events fun j v hv ↦ ?_
      rw [decide_eq_true_iff]
      exact id_eq_iff hs hkeeps (Trace.mem_events.2 (Interleaving.mem_own.2 hv))

end Engine

end CitedAnswers

import CitedAnswers.Engine.Session
import CitedAnswers.Proofs.Replay

/-!
# Queries do not interfere

If the collaborators of an engine are steady, a query does not depend on what else is done on the
engine. `Engine.query_isolated` says so of a query that comes after any steps of a session, and of a
query that is polled in any order with other work, as the queries are that a session answers at the
same time. In any case it comes to what it comes to alone on a fresh engine.

A query alone and a query among others are two executions of the same work, so all but one thing is
said by `Engine.query_repeats` of any two of them. What is left is that a query among others comes
to an end: it does in any order in which it is polled again and again
(`Interleaving.exists_finished`).
-/

namespace CitedAnswers

/-! ### Work among others -/

namespace Interleaving

variable {α : Type} {c : Collaborators} {ks : List (Work α)} {w : World} {s : Interleaving α}
  {i : Nat}

theorem own_sublist_trace (s : Interleaving α) (i : Nat) : List.Sublist (s.own i) s.trace :=
  List.filter_sublist.map _

/-- However far work has come, it can go on to a result in the world as it is. -/
theorem Follows.exists_regular (h : Follows c ks w s) (hc : c.Steady) {k : Work α}
    (hk : ks[i]? = some k) :
    ∃ t a, k.Yields (s.own i ++ t) a ∧ Trace.Regular c (s.own i ++ t) := by
  obtain ⟨f, hf⟩ := h.exists_future hk
  obtain ⟨t, ht, hadmits, -⟩ := f.remaining.leads_run (c := c) s.world
  have hregular : Trace.Regular c (s.trace ++ t) := (h.admits.append (h.world ▸ hadmits)).regular hc
  exact ⟨t, _, (h.executes i k f hk hf).trans ht,
    hregular.sublist ((s.own_sublist_trace i).append (.refl t))⟩

theorem Follows.exists_finished_of_all (h : Follows c ks w s)
    (hall : s.futures.all Future.isFinished) {k : Work α} (hk : ks[i]? = some k) :
    ∃ a, s.futures[i]? = some (.finished a) := by
  obtain ⟨f, hf⟩ := h.exists_future hk
  have hfinished := List.all_eq_true.1 hall f (List.mem_of_getElem? hf)
  cases f <;> cases hfinished
  exact ⟨_, hf⟩

end Interleaving

/-! ### A session -/

namespace Session

/-- The session after some steps. -/
def after (e : Engine) (s : Session) (xs : List Step) : Session :=
  xs.foldl (fun s x ↦ (s.step e x).2) s

theorem steps_append (e : Engine) (s : Session) (xs ys : List Step) :
    s.steps e (xs ++ ys) = s.steps e xs ++ (s.after e xs).steps e ys := by
  induction xs generalizing s with
  | nil => rfl
  | cons x xs ih => exact congrArg ((s.step e x).1 :: ·) (ih _)

/-- The world in which the next step begins: what happened in earlier steps is in their reports. -/
def outset (s : Session) : World := { s.world with trace := [] }

/-- A query in a session is done as it would be done anywhere else. -/
theorem step_query {e : Engine} {s : Session} {path : Path} {q : Query} {name : Option String}
    {r : Except Failure Response × Run} {w : World}
    (h : e.perform path (e.query path q ((name.map s.run).getD .fresh)) s.outset = (r, w)) :
    (s.step e (.query path q name)).1 = ⟨.response r.1, w.trace, name.map fun _ ↦ r.2⟩ := by
  have hwork : e.perform path (s.work e (.query path q name)) s.outset =
      ((.response r.1, some r.2), w) := by
    rw [Engine.perform, Work.perform_eq_run] at h ⊢
    show Work.run _ (Work.bind _ _) _ = _
    rw [Work.run_bind, h]
    rfl
  rw [outset] at hwork
  cases name <;>
  · simp only [step, Step.path] at hwork ⊢
    rw [hwork]
    rfl

/-- **A step of one piece of work** comes to what an execution does that can happen at its outset,
and leaves the world behind that is left by it. -/
theorem step_of_yields {e : Engine} {s : Session} {x : Step} (hx : ∀ qs, x ≠ .concurrent qs)
    {t : List Occurrence} {o : Outcome} {run : Option Run} (h : (s.work e x).Yields t (o, run))
    (hs : s.outset.Admits e.collaborators t) :
    (s.step e x).1.outcome = o ∧ (s.step e x).1.trace = t ∧
      (s.step e x).2.world = s.outset.afterAll t := by
  have hperform : e.perform x.path (s.work e x) s.outset = ((o, run), s.outset.afterAll t) := by
    rw [Engine.perform, Work.perform_eq_run, Work.run_eq_of_yields h hs]
  have htrace : (s.outset.afterAll t).trace = t := World.trace_afterAll ..
  cases x with
  | concurrent qs => exact absurd rfl (hx qs)
  | _ =>
    rw [outset] at hperform
    simp only [step, hperform]
    split <;> exact ⟨rfl, htrace, rfl⟩

end Session

namespace Engine

/-! ### Queries -/

/-- What is left behind so far is the same as the beginning of what is left behind another time, but
for the numbers of events. -/
structure Begins (t t' : List Occurrence) : Prop where
  prompts : Trace.prompts t' <+: Trace.prompts t
  events : ∃ σ : Equiv.Perm Nat, Trace.events t' <+: (Trace.events t).map (.mapId σ)

theorem Repeats.begins {t u u' : List Occurrence} (h : Repeats t (u ++ u')) : Begins t u where
  prompts := by
    rw [← h.prompts, Trace.prompts_append]
    exact List.prefix_append ..
  events := by
    obtain ⟨σ, hσ⟩ := h.events
    refine ⟨σ, ?_⟩
    rw [← hσ, Trace.events_append]
    exact List.prefix_append ..

/-- **A query alone on a fresh engine**: what it comes to, and what it leaves behind. -/
def alone (e : Engine) (path : Path) (q : Query) (run : Run) :
    (Except Failure Response × Run) × World :=
  e.perform path (e.query path q run) .fresh

section

variable {e : Engine} (h : e.collaborators.Steady) (path : Path) {path' : Path} {q : Query}
  {run : Run}

include h

/-- An execution that can happen is one of the query alone, done again. -/
theorem repeats_alone {t : List Occurrence} {r : Except Failure Response × Run}
    (ht : (e.query path' q run).Yields t r) (hregular : Trace.Regular e.collaborators t) :
    r = (e.alone path q run).1 ∧ Repeats (e.alone path q run).2.trace t := by
  obtain ⟨hyields, hadmits⟩ := e.yields_perform path (e.query path q run) (w := .fresh) rfl
  exact query_repeats hyields ht (hadmits.regular h) hregular

/-- In a session, after whatever was done before. -/
theorem step_repeats_alone {s : Session} {name : Option String}
    (hrun : (name.map s.run).getD .fresh = run) :
    ∃ t, (s.step e (.query path' q name)).1 = ⟨.response (e.alone path q run).1.1, t,
        name.map fun _ ↦ (e.alone path q run).1.2⟩ ∧
      Repeats (e.alone path q run).2.trace t := by
  obtain ⟨hyields, hadmits⟩ := e.yields_perform path' (e.query path' q run) (w := s.outset) rfl
  obtain ⟨hresult, hrepeats⟩ := repeats_alone h path hyields (hadmits.regular h)
  refine ⟨_, ?_, hrepeats⟩
  rw [← hresult]
  subst hrun
  exact Session.step_query rfl

section

variable {ks : List (Work (Except Failure Response × Run))} {w : World} {i : Nat}
  {s : Interleaving (Except Failure Response × Run)} (hs : s.Follows e.collaborators ks w)
  (hi : ks[i]? = some (e.query path' q run))

include hs hi

/-- Among other work, as far as the query has come. -/
theorem own_begins_alone : Begins (e.alone path q run).2.trace (s.own i) := by
  obtain ⟨t, r, ht, hregular⟩ := hs.exists_regular h hi
  exact (repeats_alone h path ht hregular).2.begins

/-- Among other work, once the query has finished. -/
theorem own_repeats_alone {r : Except Failure Response × Run}
    (hr : s.futures[i]? = some (.finished r)) :
    r = (e.alone path q run).1 ∧ Repeats (e.alone path q run).2.trace (s.own i) :=
  repeats_alone h path (hs.yields_of_finished hi hr)
    ((hs.admits.regular h).sublist (s.own_sublist_trace i))

end

/-- Polled in turn, all of several queries come to what they come to alone. -/
theorem performAll_query (qs : List Query) (w : World) :
    (e.performAll (qs.map fun q ↦ e.query .async q .fresh) w).1 =
      qs.map fun q ↦ (e.alone path q .fresh).1 := by
  obtain ⟨schedule, hall, heq⟩ := e.exists_performAll (qs.map fun q ↦ e.query .async q .fresh) w
  have hs := (Interleaving.follows_start (c := e.collaborators)
    (qs.map fun q ↦ e.query .async q .fresh) w).pollAll schedule
  generalize Interleaving.pollAll e.collaborators (.start _ w) schedule = s at hall heq hs
  have hfutures : s.futures = qs.map fun q ↦ .finished (e.alone path q .fresh).1 := by
    refine List.ext_getElem? fun i ↦ ?_
    rw [List.getElem?_map]
    cases hq : qs[i]? with
    | none =>
      rw [List.getElem?_eq_none_iff] at hq
      exact List.getElem?_eq_none (by rwa [hs.length, List.length_map])
    | some q =>
      have hi : (qs.map fun q ↦ e.query .async q .fresh)[i]? = some (e.query .async q .fresh) := by
        rw [List.getElem?_map, hq, Option.map_some]
      obtain ⟨r, hr⟩ := hs.exists_finished_of_all hall hi
      rw [hr, (own_repeats_alone h path hs hi hr).1, Option.map_some]
  rw [← congrArg Prod.fst heq, hfutures, List.filterMap_map]
  exact congrFun List.filterMap_eq_map _

/-- Nor do the queries of one step of a session interfere. -/
theorem outcome_concurrent (s : Session) (qs : List Query) :
    (s.step e (.concurrent qs)).1.outcome =
      .responses (qs.map fun q ↦ (e.alone path q .fresh).1.1) := by
  let ks : List (Work (Except Failure Response × Run)) :=
    qs.map fun q ↦ e.query .async q .fresh
  show Outcome.responses ((e.performAll ks s.outset).1.map Prod.fst) = _
  rw [performAll_query h path, List.map_map]
  rfl

end

/-- **Queries do not interfere** if collaborators are steady. What a query comes to alone on a fresh
engine, it comes to

* in any session, after any steps, whether they have failed or not, if only its run is the same;
* in a step of a session that answers several queries at the same time;
* among any other work, in any world: however far it has come in whatever order of polls, it has
  done the beginning of what it does alone, and once it has finished, the whole of it. It does
  finish, in any order that comes back to it again and again.

The same are the result, the run, the prompts sent, and the events but for their numbers. -/
theorem query_isolated (e : Engine) (h : e.collaborators.Steady) (q : Query) (run : Run)
    (path : Path) :
    (∀ (s : Session) (earlier : List Step) (path' : Path) (name : Option String),
      (name.map (s.after e earlier).run).getD .fresh = run →
        ∃ report, s.steps e (earlier ++ [.query path' q name]) = s.steps e earlier ++ [report] ∧
          report.outcome = .response (e.alone path q run).1.1 ∧
          report.run = name.map (fun _ ↦ (e.alone path q run).1.2) ∧
          Repeats (e.alone path q run).2.trace report.trace) ∧
    (∀ (s : Session) (qs : List Query) (i : Nat), run = .fresh → qs[i]? = some q →
      ∃ rs, (s.step e (.concurrent qs)).1.outcome = .responses rs ∧
        rs[i]? = some (e.alone path q run).1.1) ∧
    ∀ (ks : List (Work (Except Failure Response × Run))) (w : World) (path' : Path) (i : Nat),
      ks[i]? = some (e.query path' q run) →
        (∀ schedule, let s := Interleaving.pollAll e.collaborators (.start ks w) schedule
          Begins (e.alone path q run).2.trace (s.own i) ∧
          ∀ r, s.futures[i]? = some (.finished r) →
            r = (e.alone path q run).1 ∧ Repeats (e.alone path q run).2.trace (s.own i)) ∧
        ∀ order : Nat → Nat, (∀ n, ∃ m ≥ n, order m = i) →
          ∃ n, (Interleaving.pollAll e.collaborators (.start ks w)
            ((List.range n).map order)).futures[i]? = some (.finished (e.alone path q run).1) := by
  refine ⟨?_, ?_, ?_⟩
  · intro s earlier path' name hrun
    obtain ⟨t, hstep, hrepeats⟩ := step_repeats_alone h path hrun
    exact ⟨_, (s.steps_append e earlier _).trans (congrArg (_ ++ [·]) hstep), rfl, rfl, hrepeats⟩
  · rintro s qs i rfl hi
    exact ⟨_, outcome_concurrent h path s qs, by rw [List.getElem?_map, hi, Option.map_some]⟩
  · intro ks w path' i hi
    have hfollows (schedule : List Nat) : Interleaving.Follows e.collaborators ks w
        (Interleaving.pollAll e.collaborators (.start ks w) schedule) :=
      (Interleaving.follows_start ks w).pollAll schedule
    refine ⟨fun schedule ↦ ⟨own_begins_alone h path (hfollows schedule) hi, fun r hr ↦
      own_repeats_alone h path (hfollows schedule) hi hr⟩, fun order hfair ↦ ?_⟩
    have hstart : (Interleaving.start ks w).futures[i]? =
        some (.unstarted (e.query path' q run)) := by
      rw [Interleaving.start, List.getElem?_map, hi]
      rfl
    obtain ⟨n, r, hr⟩ := Interleaving.exists_finished (c := e.collaborators) hstart hfair
    have hr' := (own_repeats_alone h path (hfollows _) hi hr).1
    exact ⟨n, hr' ▸ hr⟩

/-- A query that is answered after one that has failed halfway, and at the same time as one. The
retriever refuses to look for nothing, and is polled in vain more often with every call. -/
theorem query_isolated_from_failed :
    let retriever : Retriever := {
      answer _ q :=
        if q.text = "" then .error (.retrieval "empty") else .ok [⟨{ text := q.text }, none⟩]
      delay calls _ := calls }
    let chain := (Synthesis.Chain.ofModel (.echo "echo" 1)).withTemplates
      ⟨"\x7bcontext_str\x7d"⟩ ⟨"\x7bcontext_msg\x7d"⟩
    let e : Engine := ⟨retriever, .chain chain, .lines, .lines, [.recorder 0]⟩
    let failing : Query := { text := "" }
    let q : Query := { text := "red\nwet" }
    let alone := e.alone .blocking q .fresh
    let ks := [e.query .async failing .fresh, e.query .async q .fresh]
    e.collaborators.Steady ∧
      alone.1.2.history = [.idle, .retrieving, .chunking, .synthesizing, .done] ∧
      (∃ report, Session.steps e {} [.query .blocking failing none, .query .async q (some "run")] =
          Session.steps e {} [.query .blocking failing none] ++ [report] ∧
        report.outcome = .response alone.1.1 ∧ report.run = some alone.1.2 ∧
        Repeats alone.2.trace report.trace) ∧
      ∃ n, (Interleaving.pollAll e.collaborators (.start ks .fresh)
        ((List.range n).map (· % 2))).futures[1]? = some (.finished alone.1) := by
  intro retriever chain e failing q alone ks
  have hsteady : e.collaborators.Steady := ⟨fun _ _ ↦ rfl, fun _ _ ↦ rfl⟩
  have hrun : ((some "run").map
      (Session.after e {} [.query .blocking failing none]).run).getD .fresh = .fresh := by
    decide +kernel
  have hhistory : alone.1.2.history = [.idle, .retrieving, .chunking, .synthesizing, .done] := by
    decide +kernel
  -- What the query comes to alone is not to be computed again.
  have halone : e.alone .blocking q .fresh = alone := rfl
  clear_value alone
  obtain ⟨hsession, -, hamong⟩ := query_isolated e hsteady q .fresh .blocking
  rw [halone] at hsession hamong
  refine ⟨hsteady, hhistory, hsession {} [_] .async (some "run") hrun, ?_⟩
  exact (hamong ks .fresh .async 1 rfl).2 _ fun n ↦ ⟨2 * n + 1, by omega, by omega⟩

end Engine

end CitedAnswers

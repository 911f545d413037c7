import CitedAnswers.Proofs.Answering
import CitedAnswers.Proofs.Isolation

/-!
# The record of a query

A query writes down in its run how far it has come. `Engine.Records` says what it leaves there, and
what it comes to, for each of its ends: a failure of the retriever, of the model or of a template is
handed on as it is, and a run that is not idle is refused without anything being asked or told.
`Engine.query_records` says so of a query on any run that moves can lead to, done on its own on
either path or polled among other work.

That the states come out as they do rests on two things. A run is idle only if it has not moved yet
(`Run.after_eq_fresh_of_idle`), so what the query adds is all there is. And the course of a query
(`Engine.Pursuit`) has no end at which the engine itself is refused after the beginning.
-/

namespace CitedAnswers

/-! ### Runs that moves lead to -/

namespace Run

/-- A move of a run. -/
inductive Move where
  | advance (s : State)
  | fail
deriving DecidableEq, Repr

/-- Makes a move, or refuses it. -/
def make (r : Run) : Move → Except Failure Run
  | .advance s => r.advance s
  | .fail => r.fail

/-- The run after a move. A move that is refused leaves the run as it is. -/
def moved (r : Run) (m : Move) : Run := (r.make m).toOption.getD r

/-- The run after some moves. -/
def after (r : Run) (ms : List Move) : Run := ms.foldl moved r

@[simp]
theorem history_enter (r : Run) (s : State) : (r.enter s).history = r.history ++ [s] :=
  List.reverse_cons

theorem history_settled (r : Run) :
    r.settled.history = r.history ++ if r.state.isActive then [.failed] else [] := by
  rw [settled]
  split
  · exact history_enter r .failed
  · exact (List.append_nil _).symm

/-- **A move** leads to another state than the first one, or nowhere. -/
theorem moved_eq_of_idle (r : Run) (m : Move) (h : (r.moved m).state = .idle) : r.moved m = r := by
  rcases m with s | -
  · rw [moved, make, advance] at h ⊢
    split
    case isTrue hnext =>
      rw [if_pos hnext] at h
      obtain rfl : s = .idle := h
      cases hs : r.state <;> rw [hs] at hnext <;> cases hnext
    case isFalse => rfl
  · rw [moved, make, fail] at h ⊢
    split
    case isTrue hactive =>
      rw [if_pos hactive] at h
      cases h
    case isFalse => rfl

/-- **After any moves**, a run is idle only if it has not begun. -/
theorem after_eq_fresh_of_idle (ms : List Move) (h : (fresh.after ms).state = .idle) :
    fresh.after ms = fresh := by
  have hms : ∀ r : Run, (r.after ms).state = .idle → r.after ms = r := by
    clear h
    induction ms with
    | nil => exact fun r _ ↦ rfl
    | cons m ms ih =>
      intro r h
      have hmore : (r.moved m).after ms = r.moved m := ih (r.moved m) h
      have hm : (r.moved m).state = .idle := hmore ▸ h
      exact hmore.trans (moved_eq_of_idle r m hm)
  exact hms fresh h

end Run

/-! ### What a query leaves in its run -/

namespace Engine

/-- **The record of a query** on a run that has not begun or cannot begin: what it leaves behind,
what it comes to, and what the run is then. -/
structure Records (e : Engine) (path : Path) (q : Query) (run : Run) (t : List Occurrence)
    (out : Except Failure Response) (run' : Run) : Prop where
  /-- The retriever is asked once, with the query. -/
  asked : run.state = .idle →
    ∃ retrieved, .asked q retrieved ∈ t ∧ Trace.retrievals t = [retrieved]
  /-- If it fails, its failure is the result, and nothing else is asked. -/
  unretrieved : run.state = .idle → ∀ f, Trace.retrievals t = [.error f] →
    out = .error f ∧ run'.history = [.idle, .retrieving, .failed] ∧ Trace.completions t = []
  /-- Otherwise the result is what the synthesizer comes to with the sources. -/
  synthesized : run.state = .idle → ∀ passages, Trace.retrievals t = [.ok passages] →
    ∃ u, u <:+: t ∧ Trace.completions u = Trace.completions t ∧
      (e.synthesizer.synthesize q (Citation.sources e.citationSplitter passages) none).Yields u out
  unanswered : run.state = .idle → ∀ passages, Trace.retrievals t = [.ok passages] →
    ∀ f, out = .error f → run'.history = [.idle, .retrieving, .chunking, .synthesizing, .failed]
  answered : run.state = .idle → ∀ passages, Trace.retrievals t = [.ok passages] →
    ∀ r, out = .ok r → run'.history = [.idle, .retrieving, .chunking, .synthesizing, .done]
  /-- If the synthesizer is a chain, the failures are those of the model and of the templates. -/
  brokenOff : run.state = .idle → ∀ passages, Trace.retrievals t = [.ok passages] →
    ∀ c, e.synthesizer = .chain c → ∀ f, out = .error f ↔
      c.BreaksOff q none (c.batchesOf q (Citation.sources e.citationSplitter passages)) t f
  /-- A run that is not idle is refused: nobody is asked or told, and only the query is counted. -/
  refused : run.state ≠ .idle →
    out = .error (.transition run.state.name Run.State.retrieving.name) ∧
      Trace.retrievals t = [] ∧ Trace.prompts t = [] ∧ Trace.events t = [] ∧
      Trace.counts t = [(.queries path false, 1), (.durations path, 1)] ∧
      run'.history = run.history ++ if run.state.isActive then [.failed] else []

variable (e : Engine) {q : Query} {run run' : Run} {path : Path} {t : List Occurrence}
  {out : Except Failure Response}

@[simp]
theorem completions_opening {begun : Begun} : Trace.completions (opening q run begun) = [] := rfl

@[simp]
theorem completions_numbering {begun : Begun} {passages : List ScoredNode} :
    Trace.completions (e.numbering run begun passages) = [] := by
  have hplacing : Trace.completions (e.placing passages) = [] :=
    e.filterMap_placing passages (fun _ ↦ rfl) fun _ ↦ rfl
  rw [numbering, Trace.completions_append, Trace.completions_append, hplacing]
  rfl

@[simp]
theorem completions_conclusion {begun : Begun} {r : Response} :
    Trace.completions (conclusion run begun r) = [] :=
  rfl

@[simp]
theorem completions_closing : Trace.completions (closing path run out) = [] := by
  rcases out with f | r <;> rfl

@[simp]
theorem retrievals_closing : Trace.retrievals (closing path run out) = [] :=
  (quiet_closing path run out).2

variable {e}

/-- The record of a query that has come to its synthesizer. Nobody is asked in the rest of it. -/
theorem Records.of_synthesized (hidle : run.state = .idle) (begun : Begun) (r : Run)
    {passages : List ScoredNode} {u rest : List Occurrence}
    (hu : (e.synthesizer.synthesize q (Citation.sources e.citationSplitter passages)
      none).Yields u out)
    (hretrievals : Trace.retrievals rest = []) (hcompletions : Trace.completions rest = [])
    (herror : ∀ f, out = .error f →
      run'.history = [.idle, .retrieving, .chunking, .synthesizing, .failed])
    (hok : ∀ r, out = .ok r →
      run'.history = [.idle, .retrieving, .chunking, .synthesizing, .done]) :
    e.Records path q run
      (opening q run begun ++
        .asked q (.ok passages) :: (e.numbering r begun passages ++ u ++ rest))
      out run' := by
  have hquiet := Synthesis.Synthesizer.quiet_synthesize hu
  have hasked : Trace.retrievals (opening q run begun ++
      .asked q (.ok passages) :: (e.numbering r begun passages ++ u ++ rest)) =
        [.ok passages] := by
    simp [hquiet.2, hretrievals]
  have hmodel : Trace.completions u = Trace.completions (opening q run begun ++
      .asked q (.ok passages) :: (e.numbering r begun passages ++ u ++ rest)) := by
    simp [hcompletions]
  constructor
  case asked => exact fun _ ↦ ⟨_, by simp, hasked⟩
  case unretrieved =>
    intro _ f hf
    rw [hasked] at hf
    cases hf
  case synthesized =>
    intro _ passages' hpassages
    rw [hasked] at hpassages
    cases hpassages
    refine ⟨u, ⟨opening q run begun ++ .asked q (.ok passages) :: e.numbering r begun passages,
      rest, ?_⟩, hmodel, hu⟩
    simp
  case unanswered => exact fun _ _ _ ↦ herror
  case answered => exact fun _ _ _ ↦ hok
  case brokenOff =>
    intro _ passages' hpassages c hc f
    rw [hasked] at hpassages
    cases hpassages
    rw [hc] at hu
    rw [Synthesis.Chain.error_iff_of_yields hu f]
    exact Synthesis.Chain.breaksOff_congr hmodel
  case refused => exact fun h ↦ absurd hidle h

/-- **A query keeps its record**, whenever and however it is done. -/
theorem records_of_yields (h : (e.query path q run).Yields t (out, run'))
    (hrun : run.state = .idle → run = .fresh) : e.Records path q run t out run' := by
  obtain ⟨t, run', hpursuit, rfl, rfl⟩ := e.yields_query h
  rcases hpursuit with hidle | ⟨hidle, begun, f⟩ | @⟨hidle, begun, passages, u, f, hu⟩ |
    @⟨hidle, begun, passages, u, r, hu⟩
  · exact
      { asked := fun h ↦ absurd h hidle
        unretrieved := fun h ↦ absurd h hidle
        synthesized := fun h ↦ absurd h hidle
        unanswered := fun h ↦ absurd h hidle
        answered := fun h ↦ absurd h hidle
        brokenOff := fun h ↦ absurd h hidle
        refused := fun _ ↦ ⟨rfl, rfl, rfl, rfl, rfl, run.history_settled⟩ }
  · obtain rfl := hrun hidle
    exact
      { asked := fun _ ↦ ⟨.error f, by simp, rfl⟩
        unretrieved := by
          rintro _ _ ⟨⟩
          exact ⟨rfl, rfl, rfl⟩
        synthesized := fun _ _ h ↦ nomatch h
        unanswered := fun _ _ h ↦ nomatch h
        answered := fun _ _ h ↦ nomatch h
        brokenOff := fun _ _ h ↦ nomatch h
        refused := fun h ↦ absurd rfl h }
  · obtain rfl := hrun hidle
    rw [List.append_assoc, List.cons_append]
    exact .of_synthesized hidle begun _ hu retrievals_closing completions_closing
      (fun _ _ ↦ rfl) fun _ h ↦ nomatch h
  · obtain rfl := hrun hidle
    rw [List.append_assoc, List.cons_append, List.append_assoc (e.numbering ..  ++ u)]
    exact .of_synthesized hidle begun _ hu (by simp) (by simp) (fun _ h ↦ nomatch h) fun _ _ ↦ rfl

/-- **The record of a query**, on a run that any moves have led to.

* Done on its own, on either path and in any world, the query keeps its record. If the run is idle,
  the retriever is asked as it would be next in that world, and if it gives passages, the result is
  what the synthesizer makes of them in that world.
* Polled in any order with any other work, the query has kept its record once it has finished.

What a failure of the retriever or the synthesizer is makes no difference: it is handed on. -/
theorem query_records (e : Engine) (moves : List Run.Move) (q : Query) :
    let run := Run.fresh.after moves
    (∀ (path : Path) (w : World),
      let result := e.perform path (e.query path q run) w
      ∃ t, result.2.trace = w.trace ++ t ∧ e.Records path q run t result.1.1 result.1.2 ∧
        (run.state = .idle →
          Trace.retrievals t = [e.retriever.answer w.asked q] ∧
          ∀ passages, e.retriever.answer w.asked q = .ok passages →
            result.1.1 = (e.perform path (e.synthesizer.synthesize q
              (Citation.sources e.citationSplitter passages) none) w).1)) ∧
      ∀ (ks : List (Work (Except Failure Response × Run))) (w : World) (schedule : List Nat)
        (i : Nat) (path : Path) (out : Except Failure Response) (run' : Run),
        let s := Interleaving.pollAll e.collaborators (.start ks w) schedule
        ks[i]? = some (e.query path q run) → s.futures[i]? = some (.finished (out, run')) →
          e.Records path q run (s.own i) out run' := by
  intro run
  have hrun : run.state = .idle → run = .fresh := Run.after_eq_fresh_of_idle moves
  constructor
  · intro path w result
    obtain ⟨t, hyields, hadmits, hw⟩ := (e.query path q run).leads_run (c := e.collaborators) w
    have hresult : result = (e.query path q run).run e.collaborators w := Work.perform_eq_run ..
    rw [← hresult] at hyields hw
    have hrecords : e.Records path q run t result.1.1 result.1.2 := records_of_yields hyields hrun
    refine ⟨t, by rw [hw, World.trace_afterAll], hrecords, fun hidle ↦ ?_⟩
    obtain ⟨retrieved, hasked, hone⟩ := hrecords.asked hidle
    obtain rfl : retrieved = e.retriever.answer w.asked q := hadmits.eq_of_asked hasked hone
    refine ⟨hone, fun passages hpassages ↦ ?_⟩
    rw [hpassages] at hone
    obtain ⟨u, ⟨before, after, rfl⟩, hcompletions, hu⟩ := hrecords.synthesized hidle passages hone
    -- All prompts were sent by the synthesizer, so none was sent before.
    have hbefore : Trace.completions before = [] := by
      have hlength := congrArg List.length hcompletions
      simp only [Trace.completions_append, List.length_append] at hlength
      exact List.length_eq_zero_iff.1 (by omega)
    have hadmits' := (World.admits_append.1 (World.admits_append.1 hadmits).1).2
    rw [perform, Work.perform_eq_run]
    exact (Synthesis.Synthesizer.run_of_yields hu hadmits' hbefore).symm
  · intro ks w schedule i path out run' s hi hs
    have hfollows : s.Follows e.collaborators ks w :=
      (Interleaving.follows_start ks w).pollAll schedule
    exact records_of_yields (hfollows.yields_of_finished hi hs) hrun

end Engine

end CitedAnswers

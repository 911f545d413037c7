import CitedAnswers.Engine.Basic
import CitedAnswers.Proofs.Execution
import CitedAnswers.Proofs.Polling

/-!
# The course of a query

A query that is done on its own can come to four ends: its run is refused, the retriever fails, the
synthesizer fails, or it is answered. `Engine.Pursuit` lists them, each with all that is left behind
up to it, and `Engine.pursuit_of_yields` says that there are no others. What a query does then, the
settling of its run and its counts, is the same for all (`Engine.yields_query`).

The course is read off the work of the query from one phase to the next. In each phase the state of
the run is known, so a run that was not refused at the beginning is not refused later either; only
the synthesizer's part is left as it is, as some execution of the synthesizer's own work.
-/

namespace CitedAnswers

/-! ### Work on a query, one after another -/

namespace Querying

variable {α β : Type} {r r' : Run} {t : List Occurrence}

/-- Work on a query goes on after a result and ends with a failure. -/
theorem yields_bind_iff {x : Querying α} {f : α → Querying β} {out : Except Failure β} :
    Work.Yields ((x >>= f) r) t (out, r') ↔
      ∃ t₁ res r₁ t₂, t = t₁ ++ t₂ ∧ Work.Yields (x r) t₁ (res, r₁) ∧
        Work.Yields
          (match res with
            | .ok a => f a r₁
            | .error e => .done (.error e, r₁)) t₂ (out, r') := by
  have hbind : (x >>= f) r =
      Work.bind (fun p ↦
        match p.1 with
        | .ok a => f a p.2
        | .error e => .done (.error e, p.2)) (x r) := by
    show Work.bind _ (x r) = _
    congr 1
    funext ⟨res, r₁⟩
    cases res <;> rfl
  rw [hbind, Work.yields_bind_iff]
  constructor
  · rintro ⟨t₁, ⟨res, r₁⟩, t₂, ht, h₁, h₂⟩
    exact ⟨t₁, res, r₁, t₂, ht, h₁, h₂⟩
  · rintro ⟨t₁, res, r₁, t₂, ht, h₁, h₂⟩
    exact ⟨t₁, (res, r₁), t₂, ht, h₁, h₂⟩

@[simp]
theorem yields_pure {a : α} {out : Except Failure α} :
    Work.Yields ((pure a : Querying α) r) t (out, r') ↔ t = [] ∧ out = .ok a ∧ r' = r := by
  show Work.Yields (.done (.ok a, r)) t (out, r') ↔ _
  simp [eq_comm]

@[simp]
theorem yields_work {k : Work α} {out : Except Failure α} :
    Work.Yields (work k r) t (out, r') ↔ ∃ a, k.Yields t a ∧ out = .ok a ∧ r' = r := by
  simp [work, Work.yields_bind_iff, eq_comm]

@[simp]
theorem yields_attempt {k : Work (Except Failure α)} {out : Except Failure α} :
    Work.Yields (attempt k r) t (out, r') ↔ k.Yields t out ∧ r' = r := by
  simp [attempt, Work.yields_bind_iff, eq_comm]

/-- A run advances to the state that is next for it. -/
theorem yields_advance_of_next {s : Run.State} {out : Except Failure Unit}
    (h : r.state.next? = some s) :
    Work.Yields (advance s r) t (out, r') ↔
      t = [.noted (r.notice s)] ∧ out = .ok () ∧ r' = r.enter s := by
  simp [advance, Run.advancing, Run.move, Run.advance, h, eq_comm]

/-- A run does not advance to any other state. -/
theorem yields_advance_of_ne {s : Run.State} {out : Except Failure Unit}
    (h : r.state.next? ≠ some s) :
    Work.Yields (advance s r) t (out, r') ↔ t = [] ∧ out = .error (r.refusal s) ∧ r' = r := by
  simp [advance, Run.advancing, Run.move, Run.advance, h, eq_comm]

end Querying

/-! ### Settling a run -/

namespace Run

/-- What settling a run leaves behind. -/
def settling (r : Run) (f : Failure) : List Occurrence :=
  [.noted (r.failure f),
    .noted (if r.state.isActive then r.notice .failed
      else ⟨.debug, "Run already settled", [("error", .text (r.refusal .failed).message)]⟩)]

/-- The run after it was settled: only a run with work under way fails. -/
def settled (r : Run) : Run := if r.state.isActive then r.enter .failed else r

@[simp]
theorem yields_settle {r r' : Run} {f : Failure} {t : List Occurrence} :
    (r.settle f).Yields t r' ↔ t = r.settling f ∧ r' = r.settled := by
  rw [settle, Work.yields_note, @eq_comm _ r']
  show (∃ t', t = _ ∧ (Work.bind _ r.failing).Yields t' r') ↔ _
  cases h : r.state.isActive <;>
    simp [Work.yields_bind_iff, failing, move, fail, settling, settled, h]

end Run

namespace Engine

/-- Doing work in a world with an empty trace leaves an execution of it. -/
theorem yields_perform {α : Type} (e : Engine) (path : Path) (k : Work α) {w : World}
    (hw : w.trace = []) :
    k.Yields (e.perform path k w).2.trace (e.perform path k w).1 ∧
      w.Admits e.collaborators (e.perform path k w).2.trace := by
  obtain ⟨t, hk, ht, hworld⟩ := k.leads_run (c := e.collaborators) w
  have htrace : (e.perform path k w).2.trace = t := by
    rw [perform, Work.perform_eq_run, hworld, World.trace_afterAll, hw, List.nil_append]
  rw [htrace, perform, Work.perform_eq_run]
  exact ⟨hk, ht⟩

/-! ### One phase after another -/

variable (e : Engine) {q : Query} {run r' : Run} {begun : Begun} {passages : List ScoredNode}
  {t : List Occurrence}

/-- What cutting passages leaves behind: for each of them what its splitter reports, and the sums
for the positions of its sources. -/
def placing (passages : List ScoredNode) : List Occurrence :=
  passages.flatMap fun p ↦ (e.citationSplitter.notices p.text).map .noted ++
    (Citation.sums e.citationSplitter p).map .summed

/-- It consists of entries in the log and sums. -/
theorem forall_mem_placing {P : Occurrence → Prop} (passages : List ScoredNode)
    (hnoted : ∀ x, P (.noted x)) (hsummed : ∀ n, P (.summed n)) :
    ∀ o ∈ e.placing passages, P o := by
  intro o ho
  simp only [placing, List.mem_flatMap, List.mem_append, List.mem_map] at ho
  obtain ⟨p, -, ⟨x, -, rfl⟩ | ⟨n, -, rfl⟩⟩ := ho
  · exact hnoted x
  · exact hsummed n

/-- A view that sees neither the log nor sums sees nothing of it. -/
theorem filterMap_placing {β : Type} {f : Occurrence → Option β} (passages : List ScoredNode)
    (hnoted : ∀ x, f (.noted x) = none) (hsummed : ∀ n, f (.summed n) = none) :
    (e.placing passages).filterMap f = [] :=
  List.filterMap_eq_nil_iff.2 (e.forall_mem_placing passages hnoted hsummed)

@[simp]
theorem yields_place {u : Unit} : (e.place passages).Yields t u ↔ t = e.placing passages := by
  induction passages generalizing t with
  | nil => simp [place, placing]
  | cons p ps ih =>
    have hplacing : e.placing (p :: ps) = (e.citationSplitter.notices p.text).map .noted ++
        ((Citation.sums e.citationSplitter p).map .summed ++ e.placing ps) := by
      rw [placing, List.flatMap_cons, List.append_assoc, placing]
    have hplace : e.place (p :: ps) = (Work.noteAll (e.citationSplitter.notices p.text)).bind
        fun _ ↦ (Work.sumAll (Citation.sums e.citationSplitter p)).bind fun _ ↦ e.place ps := rfl
    rw [hplace, hplacing]
    simp [Work.yields_bind_iff, ih]

/-- **What numbering passages leaves behind**, and the sources it comes to. -/
theorem yields_number {nodes : List ScoredNode} :
    (e.number passages).Yields t nodes ↔
      t = e.placing passages ++ [.noted (Citation.summary e.citationSplitter passages),
          .counted .sources (Citation.sources e.citationSplitter passages).length] ∧
        nodes = Citation.sources e.citationSplitter passages := by
  show (Work.bind _ _).Yields t nodes ↔ _
  simp [Work.yields_bind_iff, eq_comm]

/-- What beginning the retrieval leaves behind. -/
def opening (q : Query) (run : Run) (begun : Begun) : List Occurrence :=
  [.noted (run.notice .retrieving), .told ⟨.start, .query, .question q.text, begun.query⟩,
    .told ⟨.start, .retrieve, .empty, begun.retrieve⟩]

/-- What numbering the sources leaves behind. -/
def numbering (run : Run) (begun : Begun) (passages : List ScoredNode) : List Occurrence :=
  let nodes := Citation.sources e.citationSplitter passages
  [.noted (run.notice .chunking), .counted .passages passages.length] ++
    e.placing passages ++
    [.noted (Citation.summary e.citationSplitter passages), .counted .sources nodes.length,
      .noted ⟨.info, "Passages chunked into citation nodes",
        [("passage_count", .number passages.length), ("citation_count", .number nodes.length)]⟩,
      .told ⟨.stop, .retrieve, .nodes nodes, begun.retrieve⟩,
      .noted ((run.enter .chunking).notice .synthesizing)]

/-- What concluding a query leaves behind. -/
def conclusion (run : Run) (begun : Begun) (r : Response) : List Occurrence :=
  [.noted (run.notice .done), .told ⟨.stop, .query, .response r, begun.query⟩]

theorem Begun.exists {P : Begun → Prop} : (∃ begun, P begun) ↔ ∃ a b, P ⟨a, b⟩ :=
  ⟨fun ⟨begun, h⟩ ↦ ⟨begun.query, begun.retrieve, h⟩, fun ⟨a, b, h⟩ ↦ ⟨⟨a, b⟩, h⟩⟩

/-- An idle run begins, with any two numbers for the phases. -/
theorem yields_begin_of_idle {out : Except Failure Begun} (h : run.state = .idle) :
    Work.Yields (begin_ q run) t (out, r') ↔
      ∃ begun, t = opening q run begun ∧ out = .ok begun ∧ r' = run.enter .retrieving := by
  have hnext : run.state.next? = some .retrieving := by rw [h]; rfl
  simp [begin_, Querying.yields_bind_iff, Querying.yields_advance_of_next hnext, opening,
    Begun.exists]

/-- Only an idle run can begin. -/
theorem yields_begin_of_ne {out : Except Failure Begun} (h : run.state ≠ .idle) :
    Work.Yields (begin_ q run) t (out, r') ↔
      t = [] ∧ out = .error (run.refusal .retrieving) ∧ r' = run := by
  have hnext : run.state.next? ≠ some .retrieving := by
    cases hs : run.state <;> simp_all [Run.State.next?]
  simp [begin_, Querying.yields_bind_iff, Querying.yields_advance_of_ne hnext, eq_comm]

/-- The retrieval ends with the sources of the passages, and the run is moved along twice. -/
theorem yields_finishRetrieval {out : Except Failure (List ScoredNode)}
    (h : run.state = .retrieving) :
    Work.Yields (e.finishRetrieval begun passages run) t (out, r') ↔
      t = e.numbering run begun passages ∧
        out = .ok (Citation.sources e.citationSplitter passages) ∧
        r' = (run.enter .chunking).enter .synthesizing := by
  have h₁ : run.state.next? = some .chunking := by rw [h]; rfl
  have h₂ : (run.enter .chunking).state.next? = some .synthesizing := rfl
  simp [finishRetrieval, Querying.yields_bind_iff, Querying.yields_advance_of_next h₁,
    Querying.yields_advance_of_next h₂, yields_number, numbering]

/-- A query ends with its response, and its run is done. -/
theorem yields_conclude {r : Response} {out : Except Failure Response}
    (h : run.state = .synthesizing) :
    Work.Yields (conclude begun r run) t (out, r') ↔
      t = conclusion run begun r ∧ out = .ok r ∧ r' = run.enter .done := by
  have hnext : run.state.next? = some .done := by rw [h]; rfl
  simp [conclude, Querying.yields_bind_iff, Querying.yields_advance_of_next hnext, conclusion]

/-! ### The whole course -/

/-- **The ends that a query can come to**, each with all that is left behind up to it, the result
and the run. -/
inductive Pursuit (q : Query) (run : Run) :
    List Occurrence → Except Failure Response → Run → Prop where
  /-- The run is not idle, so the query is refused. -/
  | refused (h : run.state ≠ .idle) :
    Pursuit q run [] (.error (run.refusal .retrieving)) run
  /-- The retriever fails. -/
  | unretrieved (h : run.state = .idle) (begun : Begun) (f : Failure) :
    Pursuit q run (opening q run begun ++ [.asked q (.error f)]) (.error f) (run.enter .retrieving)
  /-- The synthesizer fails. -/
  | unsynthesized (h : run.state = .idle) (begun : Begun) (passages : List ScoredNode)
    {t : List Occurrence} {f : Failure}
    (ht : (e.synthesizer.synthesize q (Citation.sources e.citationSplitter passages) none).Yields t
      (.error f)) :
    Pursuit q run
      (opening q run begun ++ .asked q (.ok passages) ::
        (e.numbering (run.enter .retrieving) begun passages ++ t))
      (.error f) (((run.enter .retrieving).enter .chunking).enter .synthesizing)
  /-- The query is answered. -/
  | answered (h : run.state = .idle) (begun : Begun) (passages : List ScoredNode)
    {t : List Occurrence} {r : Response}
    (ht : (e.synthesizer.synthesize q (Citation.sources e.citationSplitter passages) none).Yields t
      (.ok r)) :
    Pursuit q run
      (opening q run begun ++ .asked q (.ok passages) ::
        (e.numbering (run.enter .retrieving) begun passages ++ t ++
          conclusion (((run.enter .retrieving).enter .chunking).enter .synthesizing) begun r))
      (.ok r) ((((run.enter .retrieving).enter .chunking).enter .synthesizing).enter .done)

/-- **A query comes to no other end.** -/
theorem pursuit_of_yields {out : Except Failure Response}
    (h : Work.Yields (e.pursue q run) t (out, r')) : e.Pursuit q run t out r' := by
  obtain ⟨t₁, _, _, t₂, rfl, hbegin, h₁⟩ := Querying.yields_bind_iff.1 h
  by_cases hidle : run.state = .idle
  · obtain ⟨begun, rfl, rfl, rfl⟩ := (yields_begin_of_idle hidle).1 hbegin
    obtain ⟨_, retrieved, _, t₃, rfl, hattempt, h₂⟩ := Querying.yields_bind_iff.1 h₁
    obtain ⟨hask, rfl⟩ := Querying.yields_attempt.1 hattempt
    obtain rfl := Work.yields_ask.1 hask
    cases retrieved with
    | error f =>
      obtain ⟨rfl, hout⟩ := Work.yields_done.1 h₂
      cases hout
      exact .unretrieved hidle begun f
    | ok passages =>
      obtain ⟨_, _, _, t₄, rfl, hnumber, h₃⟩ := Querying.yields_bind_iff.1 h₂
      obtain ⟨rfl, rfl, rfl⟩ := (e.yields_finishRetrieval rfl).1 hnumber
      obtain ⟨t₅, result, _, t₆, rfl, hattempt, h₄⟩ := Querying.yields_bind_iff.1 h₃
      obtain ⟨hanswer, rfl⟩ := Querying.yields_attempt.1 hattempt
      cases result with
      | error f =>
        obtain ⟨rfl, hout⟩ := Work.yields_done.1 h₄
        cases hout
        rw [List.append_nil]
        exact .unsynthesized hidle begun passages hanswer
      | ok r =>
        obtain ⟨rfl, rfl, rfl⟩ := (yields_conclude rfl).1 h₄
        rw [← List.append_assoc (e.numbering ..)]
        exact .answered hidle begun passages hanswer
  · obtain ⟨rfl, rfl, rfl⟩ := (yields_begin_of_ne hidle).1 hbegin
    obtain ⟨rfl, hout⟩ := Work.yields_done.1 h₁
    cases hout
    exact .refused hidle

variable {e} in
/-- **A query can come to each of these ends.** -/
theorem Pursuit.yields {out : Except Failure Response} (h : e.Pursuit q run t out r') :
    Work.Yields (e.pursue q run) t (out, r') := by
  cases h with
  | refused h =>
    exact Querying.yields_bind_iff.2 ⟨[], _, _, [], rfl,
      (yields_begin_of_ne h).2 ⟨rfl, rfl, rfl⟩, Work.yields_done.2 ⟨rfl, rfl⟩⟩
  | unretrieved h begun f =>
    refine Querying.yields_bind_iff.2 ⟨_, _, _, _, rfl,
      (yields_begin_of_idle h).2 ⟨begun, rfl, rfl, rfl⟩, ?_⟩
    exact Querying.yields_bind_iff.2 ⟨_, .error f, _, [], rfl,
      Querying.yields_attempt.2 ⟨Work.yields_ask.2 rfl, rfl⟩, Work.yields_done.2 ⟨rfl, rfl⟩⟩
  | @unsynthesized h begun passages t f ht =>
    refine Querying.yields_bind_iff.2 ⟨_, _, _, _, rfl,
      (yields_begin_of_idle h).2 ⟨begun, rfl, rfl, rfl⟩, ?_⟩
    refine Querying.yields_bind_iff.2 ⟨[.asked q (.ok passages)], .ok passages, _, _, rfl,
      Querying.yields_attempt.2 ⟨Work.yields_ask.2 rfl, rfl⟩, ?_⟩
    refine Querying.yields_bind_iff.2 ⟨_, _, _, _, rfl,
      (e.yields_finishRetrieval rfl).2 ⟨rfl, rfl, rfl⟩, ?_⟩
    exact Querying.yields_bind_iff.2 ⟨t, .error f, _, [], (List.append_nil t).symm,
      Querying.yields_attempt.2 ⟨ht, rfl⟩, Work.yields_done.2 ⟨rfl, rfl⟩⟩
  | @answered h begun passages t r ht =>
    rw [List.append_assoc (e.numbering ..)]
    refine Querying.yields_bind_iff.2 ⟨_, _, _, _, rfl,
      (yields_begin_of_idle h).2 ⟨begun, rfl, rfl, rfl⟩, ?_⟩
    refine Querying.yields_bind_iff.2 ⟨[.asked q (.ok passages)], .ok passages, _,
      e.numbering (run.enter .retrieving) begun passages ++ (t ++ conclusion _ begun r), rfl,
      Querying.yields_attempt.2 ⟨Work.yields_ask.2 rfl, rfl⟩, ?_⟩
    refine Querying.yields_bind_iff.2 ⟨_, _, _, _, rfl,
      (e.yields_finishRetrieval rfl).2 ⟨rfl, rfl, rfl⟩, ?_⟩
    exact Querying.yields_bind_iff.2 ⟨t, .ok r, _, _, rfl,
      Querying.yields_attempt.2 ⟨ht, rfl⟩, (yields_conclude rfl).2 ⟨rfl, rfl, rfl⟩⟩

/-- What a query leaves behind once it has come to its end: its run is settled if it has failed, and
it is counted. -/
def closing (path : Path) (run : Run) (out : Except Failure Response) : List Occurrence :=
  (match out with
    | .ok _ => []
    | .error f => run.settling f) ++
    [.counted (.queries path out.toBool) 1, .counted (.durations path) 1]

/-- What a query leaves behind is that of its pursuit and then that of its closing. -/
theorem yields_query {path : Path} {out : Except Failure Response}
    (h : (e.query path q run).Yields t (out, r')) :
    ∃ t' run', e.Pursuit q run t' out run' ∧ t = t' ++ closing path run' out ∧
      r' = if out.toBool then run' else run'.settled := by
  obtain ⟨t₁, ⟨result, run'⟩, t₂, rfl, hpursue, hmore⟩ := Work.yields_bind_iff.1 h
  have hp := e.pursuit_of_yields hpursue
  cases result with
  | ok r =>
    have hclose : (Work.count (.queries path true) 1 (.count (.durations path) 1
        (.done (.ok r, run')))).Yields t₂ (out, r') := hmore
    simp only [Work.yields_count, Work.yields_done, Prod.mk.injEq] at hclose
    obtain ⟨_, rfl, _, rfl, rfl, rfl, rfl⟩ := hclose
    exact ⟨t₁, run', hp, rfl, rfl⟩
  | error f =>
    obtain ⟨t₃, run'', t₄, rfl, hsettle, hmore⟩ := Work.yields_bind_iff.1 hmore
    obtain ⟨rfl, rfl⟩ := Run.yields_settle.1 hsettle
    have hclose : (Work.count (.queries path false) 1 (.count (.durations path) 1
        (.done (.error f, run'.settled)))).Yields t₄ (out, r') := hmore
    simp only [Work.yields_count, Work.yields_done, Prod.mk.injEq] at hclose
    obtain ⟨_, rfl, _, rfl, rfl, rfl, rfl⟩ := hclose
    exact ⟨t₁, run', hp, rfl, rfl⟩

end Engine

end CitedAnswers

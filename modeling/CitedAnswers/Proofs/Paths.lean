import CitedAnswers.Engine.Session
import CitedAnswers.Proofs.Polling

/-!
# The two paths

A step of a session is taken on one of two paths: its caller waits for it, or it is polled until it
has finished. The path makes no difference but for the label that the ledger puts on a query.
`Session.paths_agree` says so of whole sessions, of which any steps are moved to another path.

How the work of a step is done does not matter (`Work.perform_eq_run`), so what is left is the
label, and only `Engine.query` writes one. The work of a query on another path is that of the first
with its labels changed (`Engine.mapPath_query`); changed labels stay where they are when work is
done (`Work.run_mapPath`), and nothing that a later step looks at depends on them
(`Session.step_onPath`).
-/

namespace CitedAnswers

/-! ### Changing labels -/

/-- Changes one path into another and leaves the others alone. -/
def Path.replace (p p' : Path) (r : Path) : Path := if r = p then p' else r

@[simp]
theorem Path.replace_same (p p' : Path) : p.replace p' p = p' := if_pos rfl

@[simp]
theorem Path.replace_self (p : Path) : p.replace p = id := by
  funext r
  by_cases h : r = p <;> simp [replace, h]

variable (g : Path → Path)

/-- The figure with another path in its labels. -/
def Figure.mapPath : Figure → Figure
  | queries p answered => queries (g p) answered
  | durations p => durations (g p)
  | passages => passages
  | sources => sources

/-- The occurrence with another path in what was counted. -/
def Occurrence.mapPath : Occurrence → Occurrence
  | counted f n => counted (f.mapPath g) n
  | o => o

/-- The world with another path in what was counted. -/
def World.mapPath (w : World) : World := { w with trace := w.trace.map (Occurrence.mapPath g) }

@[simp]
theorem Figure.mapPath_id : Figure.mapPath id = id := by
  funext f
  cases f <;> rfl

@[simp]
theorem Occurrence.mapPath_id : Occurrence.mapPath id = id := by
  funext o
  cases o <;> simp [mapPath]

theorem Figure.mapPath_mapPath (g' : Path → Path) (f : Figure) :
    (f.mapPath g).mapPath g' = f.mapPath (g' ∘ g) := by
  cases f <;> rfl

namespace Trace

theorem prompts_mapPath (t : List Occurrence) : prompts (t.map (.mapPath g)) = prompts t := by
  rw [prompts, List.filterMap_map]
  congr 1
  funext o
  cases o <;> rfl

theorem events_mapPath (t : List Occurrence) : events (t.map (.mapPath g)) = events t := by
  rw [events, List.filterMap_map]
  congr 1
  funext o
  cases o <;> rfl

theorem log_mapPath (os : List Observer) (t : List Occurrence) :
    log os (t.map (.mapPath g)) = log os t := by
  rw [log, List.flatMap_map]
  congr 1
  funext o
  cases o <;> rfl

theorem sums_mapPath (t : List Occurrence) : sums (t.map (.mapPath g)) = sums t := by
  rw [sums, List.filterMap_map]
  congr 1
  funext o
  cases o <;> rfl

theorem counts_mapPath (t : List Occurrence) :
    counts (t.map (.mapPath g)) = (counts t).map (Prod.map (Figure.mapPath g) id) := by
  rw [counts, counts, List.filterMap_map, List.map_filterMap]
  congr 1
  funext o
  cases o <;> rfl

end Trace

namespace Work

variable {α β : Type}

/-- The work with another path in what it counts. -/
def mapPath : Work α → Work α
  | done a => done a
  | note e more => note e more.mapPath
  | count f n more => count (f.mapPath g) n more.mapPath
  | sum n more => sum n more.mapPath
  | start p x more => start p x fun id ↦ (more id).mapPath
  | stop p x id more => stop p x id more.mapPath
  | retrieve q more => retrieve q fun r ↦ (more r).mapPath
  | predict p more => predict p fun r ↦ (more r).mapPath

@[simp]
theorem mapPath_id (k : Work α) : k.mapPath id = k := by
  induction k with
  | done a => rfl
  | note e more ih => exact congrArg (note e) ih
  | count f n more ih => rw [mapPath, ih, Figure.mapPath_id, id_eq]
  | sum n more ih => exact congrArg (sum n) ih
  | start p x more ih => exact congrArg (start p x) (funext ih)
  | stop p x id more ih => exact congrArg (stop p x id) ih
  | retrieve q more ih => exact congrArg (retrieve q) (funext ih)
  | predict p more ih => exact congrArg (predict p) (funext ih)

theorem mapPath_bind (k : Work α) (f : α → Work β) :
    (k.bind f).mapPath g = (k.mapPath g).bind fun a ↦ (f a).mapPath g := by
  induction k with
  | done a => rfl
  | note e more ih => exact congrArg (note e) ih
  | count h n more ih => exact congrArg (count (h.mapPath g) n) ih
  | sum n more ih => exact congrArg (sum n) ih
  | start p x more ih => exact congrArg (start p x) (funext ih)
  | stop p x id more ih => exact congrArg (stop p x id) ih
  | retrieve q more ih => exact congrArg (retrieve q) (funext ih)
  | predict p more ih => exact congrArg (predict p) (funext ih)

end Work

theorem World.mapPath_record (w : World) (o : Occurrence) :
    (w.record o).mapPath g = (w.mapPath g).record (o.mapPath g) := by
  simp [World.mapPath, World.record]

/-- **Changed labels stay where they are when work is done**: they change nothing but the labels of
what was counted. -/
theorem Work.run_mapPath {α : Type} (c : Collaborators) (k : Work α) (w : World) :
    (k.mapPath g).run c (w.mapPath g) = ((k.run c w).1, (k.run c w).2.mapPath g) := by
  induction k generalizing w with
  | done a => rfl
  | note e more ih =>
    rw [run, ← ih, World.mapPath_record]
    rfl
  | count f n more ih =>
    rw [run, ← ih, World.mapPath_record]
    rfl
  | sum n more ih =>
    rw [run, ← ih, World.mapPath_record]
    rfl
  | start p x more ih =>
    have h : (w.start p x).mapPath g = (w.mapPath g).start p x := by
      simp [World.start, World.mapPath, World.record, Occurrence.mapPath]
    rw [run, ← ih, h]
    rfl
  | stop p x id more ih =>
    rw [run, ← ih, World.mapPath_record]
    rfl
  | retrieve q more ih =>
    have h : (w.ask c.retriever q).2.mapPath g = ((w.mapPath g).ask c.retriever q).2 := by
      simp [World.ask, World.mapPath, World.record, Occurrence.mapPath]
    rw [run, ← ih, h]
    rfl
  | predict p more ih =>
    have h : (w.prompt c.model p).2.mapPath g = ((w.mapPath g).prompt c.model p).2 := by
      simp [World.prompt, World.mapPath, World.record, Occurrence.mapPath]
    rw [run, ← ih, h]
    rfl

/-! ### Totals under changed labels -/

namespace Ledger

variable {φ ψ : Figure → Figure}

theorem add_map {f : Figure} {n : Nat} {es : List (Figure × Nat)} (hf : ψ (φ f) = f)
    (h : ∀ r ∈ es, ψ (φ r.1) = r.1) :
    add (φ f) n (es.map (Prod.map φ id)) = (add f n es).map (Prod.map φ id) := by
  induction es with
  | nil => rfl
  | cons r es ih =>
    obtain ⟨k, m⟩ := r
    have hk : ψ (φ k) = k := h _ (List.mem_cons_self ..)
    have heq : φ f = φ k ↔ f = k := ⟨fun h ↦ by rw [← hf, h, hk], congrArg φ⟩
    simp only [List.map_cons, Prod.map_apply, add, heq]
    split
    · rfl
    · rw [ih fun r hr ↦ h r (List.mem_cons_of_mem _ hr)]
      rfl

theorem mem_add {f : Figure} {n : Nat} {es : List (Figure × Nat)} {r : Figure × Nat}
    (h : r ∈ add f n es) : r.1 = f ∨ ∃ s ∈ es, s.1 = r.1 := by
  induction es with
  | nil => exact .inl (congrArg Prod.fst (List.mem_singleton.1 h))
  | cons s es ih =>
    obtain ⟨k, m⟩ := s
    rw [add] at h
    split at h
    · rcases List.mem_cons.1 h with rfl | h
      · exact .inl (Eq.symm ‹_›)
      · exact .inr ⟨r, List.mem_cons_of_mem _ h, rfl⟩
    · rcases List.mem_cons.1 h with rfl | h
      · exact .inr ⟨_, List.mem_cons_self .., rfl⟩
      · rcases ih h with h | ⟨s, hs, h⟩
        · exact .inl h
        · exact .inr ⟨s, List.mem_cons_of_mem _ hs, h⟩

/-- Totals of figures whose labels were changed, as long as the change can be taken back. -/
theorem totals_map {rs : List (Figure × Nat)} (h : ∀ r ∈ rs, ψ (φ r.1) = r.1) :
    totals (rs.map (Prod.map φ id)) = (totals rs).map (Prod.map φ id) := by
  suffices hs : ∀ es : List (Figure × Nat), (∀ r ∈ es, ψ (φ r.1) = r.1) →
      (rs.map (Prod.map φ id)).foldl (fun es r ↦ add r.1 r.2 es) (es.map (Prod.map φ id)) =
        (rs.foldl (fun es r ↦ add r.1 r.2 es) es).map (Prod.map φ id) from hs [] (by simp)
  induction rs with
  | nil => exact fun _ _ ↦ rfl
  | cons r rs ih =>
    intro es hes
    have hr : ψ (φ r.1) = r.1 := h r (List.mem_cons_self ..)
    simp only [List.map_cons, List.foldl_cons, Prod.map_fst, Prod.map_snd, id_eq]
    rw [add_map hr hes]
    refine ih (fun r hr ↦ h r (List.mem_cons_of_mem _ hr)) _ fun s hs ↦ ?_
    rcases mem_add hs with hs | ⟨s', hs', hs⟩
    · rw [hs, hr]
    · rw [← hs, hes s' hs']

end Ledger

/-! ### Work without labels -/

/-- Work that counts nothing under a path. -/
def Work.Pathless {α : Type} (k : Work α) : Prop := ∀ g, k.mapPath g = k

namespace Work.Pathless

variable {α β : Type}

@[simp]
theorem done (a : α) : (Work.done a).Pathless := fun _ ↦ rfl

theorem note {e : Log.Entry} {more : Work α} (h : more.Pathless) : (Work.note e more).Pathless :=
  fun g ↦ congrArg (Work.note e) (h g)

theorem sum {n : Nat} {more : Work α} (h : more.Pathless) : (Work.sum n more).Pathless :=
  fun g ↦ congrArg (Work.sum n) (h g)

theorem stop {p : Phase} {x : Payload} {id : Nat} {more : Work α} (h : more.Pathless) :
    (Work.stop p x id more).Pathless :=
  fun g ↦ congrArg (Work.stop p x id) (h g)

theorem predict {p : String} {more : Except Failure String → Work α} (h : ∀ r, (more r).Pathless) :
    (Work.predict p more).Pathless :=
  fun g ↦ congrArg (Work.predict p) (funext fun r ↦ h r g)

theorem bind {k : Work α} {f : α → Work β} (hk : k.Pathless) (hf : ∀ a, (f a).Pathless) :
    (k.bind f).Pathless := by
  intro g
  rw [mapPath_bind, hk g, funext fun a ↦ hf a g]

theorem noteAll (es : List Log.Entry) : (Work.noteAll es).Pathless := by
  induction es with
  | nil => exact .done ()
  | cons e es ih => exact .note ih

theorem sumAll (ns : List Nat) : (Work.sumAll ns).Pathless := by
  induction ns with
  | nil => exact .done ()
  | cons n ns ih => exact .sum ih

end Work.Pathless

theorem Synthesis.Chain.pathless_answer (c : Chain) (q : Query) (sofar : Option String)
    (bs : List String) : (c.answer q sofar bs).Pathless := by
  induction bs generalizing sofar with
  | nil => exact .done _
  | cons b bs ih =>
    rw [answer]
    split
    · exact .done _
    · refine .predict fun r ↦ ?_
      cases r with
      | error f => exact .done _
      | ok a => exact ih (some a)

theorem Synthesis.Synthesizer.pathless_synthesize (s : Synthesizer) (q : Query)
    (nodes : List ScoredNode) (additional : Option (List ScoredNode)) :
    (s.synthesize q nodes additional).Pathless := by
  cases s with
  | chain c =>
    exact .bind (.noteAll _) fun _ ↦ .bind (c.pathless_answer q none _) fun _ ↦ .done _
  | custom f => exact .done _

theorem Run.pathless_move (r : Run) (s : State) (outcome : Except Failure Run) :
    (r.move s outcome).Pathless := by
  cases outcome with
  | ok next => exact .note (.done _)
  | error f => exact .done _

theorem Run.pathless_settle (r : Run) (f : Failure) : (r.settle f).Pathless := by
  refine .note (.bind (r.pathless_move _ _) fun x ↦ ?_)
  rcases x with ⟨_ | _, r⟩
  · exact .note (.done _)
  · exact .done _

/-- Work on a query that counts nothing under a path, whatever the run is. -/
def Querying.Pathless {α : Type} (x : Querying α) : Prop := ∀ r, (x r).Pathless

namespace Querying.Pathless

variable {α β : Type}

theorem pure (a : α) : Querying.Pathless (Pure.pure a) := fun _ ↦ .done _

theorem advance (s : Run.State) : (Querying.advance s).Pathless := fun r ↦ r.pathless_move _ _

theorem work {k : Work α} (h : k.Pathless) : (Querying.work k).Pathless :=
  fun _ ↦ .bind h fun _ ↦ .done _

theorem attempt {k : Work (Except Failure α)} (h : k.Pathless) : (Querying.attempt k).Pathless :=
  fun _ ↦ .bind h fun _ ↦ .done _

theorem bind {x : Querying α} {f : α → Querying β} (hx : x.Pathless) (hf : ∀ a, (f a).Pathless) :
    (x >>= f).Pathless := by
  intro r
  refine Work.Pathless.bind (hx r) ?_
  rintro ⟨a | f, r⟩
  · exact .done _
  · exact hf _ r

end Querying.Pathless

namespace Engine

variable (e : Engine)

theorem pathless_place (passages : List ScoredNode) : (e.place passages).Pathless := by
  induction passages with
  | nil => exact .done ()
  | cons p ps ih => exact .bind (.noteAll _) fun _ ↦ .bind (.sumAll _) fun _ ↦ ih

theorem pathless_number (passages : List ScoredNode) : (e.number passages).Pathless :=
  .bind (e.pathless_place passages) fun _ ↦ .note fun _ ↦ rfl

theorem pathless_pursue (q : Query) : (e.pursue q).Pathless := by
  have begin_ : (begin_ q).Pathless :=
    .bind (.advance _) fun _ ↦ .bind (.work fun _ ↦ rfl) fun _ ↦
      .bind (.work fun _ ↦ rfl) fun _ ↦ .pure _
  have finishRetrieval (begun : Begun) (passages : List ScoredNode) :
      (e.finishRetrieval begun passages).Pathless :=
    .bind (.advance _) fun _ ↦ .bind (.work fun _ ↦ rfl) fun _ ↦
      .bind (.work (e.pathless_number passages)) fun _ ↦
        .bind (.work (.note (.stop (.done _)))) fun _ ↦ .bind (.advance _) fun _ ↦ .pure _
  have conclude (begun : Begun) (r : Response) : (conclude begun r).Pathless :=
    .bind (.advance _) fun _ ↦ .bind (.work (.stop (.done _))) fun _ ↦ .pure _
  exact .bind begin_ fun begun ↦ .bind (.attempt fun _ ↦ rfl) fun passages ↦
    .bind (finishRetrieval begun passages) fun nodes ↦
      .bind (.attempt (e.synthesizer.pathless_synthesize q nodes none)) fun r ↦ conclude begun r

/-- **A query on another path** is the same work but for the label it is counted under. -/
theorem mapPath_query (path : Path) (q : Query) (run : Run) :
    (e.query path q run).mapPath g = e.query (g path) q run := by
  show ((e.pursue q run).bind _).mapPath g = (e.pursue q run).bind _
  rw [Work.mapPath_bind, e.pathless_pursue q run g]
  congr 1
  funext ⟨result, run⟩
  cases result with
  | ok r => rfl
  | error f =>
    show ((run.settle f).bind _).mapPath g = (run.settle f).bind _
    rw [Work.mapPath_bind, run.pathless_settle f g]
    rfl

end Engine

/-! ### Sessions -/

/-- The step on another path, if it is one that can be taken on either. -/
def Step.onPath (p : Path) : Step → Step
  | query _ q name => query p q name
  | retrieve _ q => retrieve p q
  | synthesize _ q passages additional => synthesize p q passages additional
  | x => x

/-- The report with another path in what was counted. -/
def Report.mapPath (r : Report) : Report := { r with trace := r.trace.map (.mapPath g) }

namespace Session

/-- A step does not look at what happened before. -/
theorem step_trace (e : Engine) (s : Session) (t : List Occurrence) (x : Step) :
    step e { s with world := { s.world with trace := t } } x = step e s x := by
  cases x <;> rfl

theorem steps_trace (e : Engine) (s : Session) (t : List Occurrence) (xs : List Step) :
    steps e { s with world := { s.world with trace := t } } xs = steps e s xs := by
  cases xs with
  | nil => rfl
  | cons x xs => rw [steps, steps, step_trace]

/-- The label that a step changes when it is taken on another path. -/
abbrev relabel (x : Step) (p : Path) : Path → Path := x.path.replace (x.onPath p).path

/-- The work of a step on another path differs in the label only. -/
theorem mapPath_work (e : Engine) (s : Session) (x : Step) (p : Path) :
    (s.work e x).mapPath (relabel x p) = s.work e (x.onPath p) := by
  cases x with
  | query path q name =>
    show ((e.query path q _).bind _).mapPath _ = (e.query p q _).bind _
    rw [Work.mapPath_bind, e.mapPath_query, relabel, Step.path, Step.onPath, Step.path,
      Path.replace_same]
    rfl
  | retrieve path q => rfl
  | synthesize path q passages additional =>
    have h : (e.synthesize q passages additional).Pathless :=
      .bind (e.pathless_number passages) fun nodes ↦
        e.synthesizer.pathless_synthesize q nodes additional
    exact Work.Pathless.bind h (fun _ ↦ .done _) _
  | _ => simp [relabel, Step.onPath]

theorem perform_onPath (e : Engine) (s : Session) (x : Step) (p : Path) (w : World)
    (h : w.trace = []) :
    e.perform (x.onPath p).path (s.work e (x.onPath p)) w =
      ((e.perform x.path (s.work e x) w).1,
        (e.perform x.path (s.work e x) w).2.mapPath (relabel x p)) := by
  have hw : w.mapPath (relabel x p) = w := by
    rw [World.mapPath, h, List.map_nil, ← h]
  simp only [Engine.perform, Work.perform_eq_run]
  rw [← mapPath_work, ← Work.run_mapPath, hw]

/-- **One step on another path.** -/
theorem step_onPath (e : Engine) (s : Session) (x : Step) (p : Path) :
    step e s (x.onPath p) =
      ((step e s x).1.mapPath (relabel x p),
        { (step e s x).2 with world := (step e s x).2.world.mapPath (relabel x p) }) := by
  have h := perform_onPath e s x p { s.world with trace := [] } rfl
  cases x with
  | query path q name =>
    simp only [step, Step.onPath] at h ⊢
    rw [h]
    generalize e.perform _ _ _ = y
    obtain ⟨⟨o, run⟩, w⟩ := y
    cases name <;> cases run <;> rfl
  | retrieve path q =>
    simp only [step, Step.onPath] at h ⊢
    rw [h]
    rfl
  | synthesize path q passages additional =>
    simp only [step, Step.onPath] at h ⊢
    rw [h]
    rfl
  | _ => simp [Step.onPath, relabel, Report.mapPath, World.mapPath]

/-- A step that is moved to another path counts nothing under a path but its own. -/
theorem mapPath_of_mem_counts {e : Engine} {s : Session} {x : Step} {p : Path}
    (h : (x.onPath p).path ≠ x.path) {r : Figure × Nat}
    (hr : r ∈ Trace.counts (step e s x).1.trace) : r.1.mapPath (fun _ ↦ x.path) = r.1 := by
  have hx : (x.onPath p).onPath x.path = x := by cases x <;> rfl
  have hstep := congrArg (fun y ↦ Trace.counts y.1.trace) (step_onPath e s (x.onPath p) x.path)
  simp only [hx, Report.mapPath, Trace.counts_mapPath] at hstep
  rw [hstep] at hr
  obtain ⟨r', -, rfl⟩ := List.mem_map.1 hr
  -- There are only two paths, so to change one into the other is to forget which it was.
  have hg : relabel (x.onPath p) x.path = fun _ ↦ x.path := by
    funext r
    simp only [relabel, hx, Path.replace]
    cases r <;> cases hp : x.path <;> cases hp' : (x.onPath p).path <;> simp_all
  rw [hg]
  exact Figure.mapPath_mapPath ..

/-- The totals of one step. -/
theorem totals_step (e : Engine) (s : Session) (x : Step) (p : Path) :
    Ledger.totals (Trace.counts ((step e s x).1.mapPath (relabel x p)).trace) =
      (Ledger.totals (Trace.counts (step e s x).1.trace)).map
        (Prod.map (Figure.mapPath (relabel x p)) id) := by
  rw [Report.mapPath, Trace.counts_mapPath]
  by_cases h : (x.onPath p).path = x.path
  · simp [relabel, h]
  · refine Ledger.totals_map (ψ := Figure.mapPath fun _ ↦ x.path) fun r hr ↦ ?_
    rw [Figure.mapPath_mapPath]
    exact mapPath_of_mem_counts h hr

theorem length_steps (e : Engine) (s : Session) (xs : List Step) :
    (steps e s xs).length = xs.length := by
  induction xs generalizing s with
  | nil => rfl
  | cons x xs ih => exact congrArg (· + 1) (ih _)

/-- **A session on other paths**, as far as `F` shows it. It shows of each step what `H` shows of
the step as it was. -/
theorem map_steps_onPath {β : Type} {e : Engine} {F : Report → β} {H : Step × Path → Report → β}
    (h : ∀ s x p, F ((step e s x).1.mapPath (relabel x p)) = H (x, p) (step e s x).1)
    (s : Session) (xs : List (Step × Path)) :
    (steps e s (xs.map fun x ↦ x.1.onPath x.2)).map F =
      List.zipWith H xs (steps e s (xs.map Prod.fst)) := by
  induction xs generalizing s with
  | nil => rfl
  | cons x xs ih =>
    simp only [List.map_cons, steps, List.zipWith_cons_cons]
    rw [← ih, ← h, step_onPath]
    exact congrArg (_ :: List.map F ·) (steps_trace e _ _ _)

/-- What does not depend on labels is the same on all paths. -/
theorem map_steps_onPath_eq {β : Type} {F : Report → β} (hF : ∀ g r, F (r.mapPath g) = F r)
    (e : Engine) (s : Session) (xs : List (Step × Path)) :
    (steps e s (xs.map fun x ↦ x.1.onPath x.2)).map F = (steps e s (xs.map Prod.fst)).map F := by
  have hl : (steps e s (xs.map Prod.fst)).length ≤ xs.length := by simp [length_steps]
  rw [map_steps_onPath (H := fun _ r ↦ F r) (fun _ _ _ ↦ hF _ _),
    ← List.map_uncurry_zip_eq_zipWith, ← List.map_snd_zip hl, List.map_map, List.map_snd_zip hl]
  rfl

/-- **The paths agree.** In a session of which any steps are moved to another path, every step comes
to the same outcome and leaves its run with the same history; the same prompts are sent, in the same
order, observers are told of the same events, with the same numbers and payloads, the same is
written to the log, and the same sums are formed, so that the program stops on both or on none. The
totals of each step are those of the step as it was but for the label, and those of the session up
to any step are the same once the label is left out of account. -/
theorem paths_agree (e : Engine) (s : Session) (xs : List (Step × Path)) :
    let reports := s.steps e (xs.map Prod.fst)
    let others := s.steps e (xs.map fun x ↦ x.1.onPath x.2)
    others.map Report.outcome = reports.map Report.outcome ∧
      others.map Report.run = reports.map Report.run ∧
      (others.map fun r ↦ Trace.prompts r.trace) = (reports.map fun r ↦ Trace.prompts r.trace) ∧
      (others.map fun r ↦ Trace.events r.trace) = (reports.map fun r ↦ Trace.events r.trace) ∧
      (others.map fun r ↦ Trace.log e.observers r.trace) =
        (reports.map fun r ↦ Trace.log e.observers r.trace) ∧
      (others.map fun r ↦ Trace.sums r.trace) = (reports.map fun r ↦ Trace.sums r.trace) ∧
      (others.map fun r ↦ Ledger.totals (Trace.counts r.trace)) =
        List.zipWith (fun x r ↦ (Ledger.totals (Trace.counts r.trace)).map
          (Prod.map (Figure.mapPath (x.1.path.replace (x.1.onPath x.2).path)) id)) xs reports ∧
      ∀ n, Ledger.totals (((others.take n).flatMap fun r ↦ Trace.counts r.trace).map
          (Prod.map (Figure.mapPath fun _ ↦ .blocking) id)) =
        Ledger.totals (((reports.take n).flatMap fun r ↦ Trace.counts r.trace).map
          (Prod.map (Figure.mapPath fun _ ↦ .blocking) id)) := by
  intro reports others
  have hcounts (n : Nat) : ((others.take n).map fun r ↦ (Trace.counts r.trace).map
        (Prod.map (Figure.mapPath fun _ ↦ .blocking) id)) =
      (reports.take n).map fun r ↦ (Trace.counts r.trace).map
        (Prod.map (Figure.mapPath fun _ ↦ .blocking) id) := by
    rw [List.map_take, List.map_take]
    refine congrArg _ (map_steps_onPath_eq (fun g r ↦ ?_) e s xs)
    rw [Report.mapPath, Trace.counts_mapPath, List.map_map]
    congr 1
    funext r
    exact congrArg (·, r.2) (Figure.mapPath_mapPath ..)
  refine ⟨map_steps_onPath_eq (fun _ _ ↦ rfl) e s xs, map_steps_onPath_eq (fun _ _ ↦ rfl) e s xs,
    map_steps_onPath_eq (fun _ _ ↦ Trace.prompts_mapPath ..) e s xs,
    map_steps_onPath_eq (fun _ _ ↦ Trace.events_mapPath ..) e s xs,
    map_steps_onPath_eq (fun _ _ ↦ Trace.log_mapPath ..) e s xs,
    map_steps_onPath_eq (fun _ _ ↦ Trace.sums_mapPath ..) e s xs,
    map_steps_onPath (totals_step e) s xs, fun n ↦ ?_⟩
  rw [List.map_flatMap, List.map_flatMap, List.flatMap_def, List.flatMap_def, hcounts]

end Session

end CitedAnswers

import CitedAnswers.Proofs.Bookkeeping
import CitedAnswers.Proofs.Isolation

/-!
# The ledger adds up

An engine is used at a `Desk`: steps are taken one after another, and queries are begun and polled
whenever the caller likes, also between steps, or not at all any more. The `Account` of some turns
at the desk is what a caller sees of them apart from the ledger: which queries have come to their
ends and to what, and which passages were retrieved and numbered. `Desk.totals_turns` says that the
ledger shows just that.

What is entered in one turn is what the account of the turn comes to (`Desk.keeps_turn`); for
queries this is the matter of `Engine.Balances` and `Engine.Orderly`. Accounts of turns one after
another are put together list by list, and so are their entries, but for their order.
-/

namespace CitedAnswers

/-! ### Accounts -/

/-- What a caller sees of some turns, and what was written to the ledger in them. -/
structure Account where
  /-- The queries that have come to their ends. -/
  ended : List (Path × Except Failure Response) := []
  /-- What queries have retrieved. -/
  retrieved : List (List ScoredNode) := []
  /-- The passages that were numbered otherwise. -/
  numbered : List (List ScoredNode) := []
  records : List (Figure × Nat) := []

namespace Account

/-- Puts two accounts together. -/
def append (a b : Account) : Account where
  ended := a.ended ++ b.ended
  retrieved := a.retrieved ++ b.retrieved
  numbered := a.numbered ++ b.numbered
  records := a.records ++ b.records

/-- What an account comes to in the ledger. -/
def entries (e : Engine) (a : Account) : List (Figure × Nat) :=
  a.retrieved.flatMap e.dues ++ a.numbered.map e.charge ++
    a.ended.flatMap fun x ↦ Engine.entered x.1 x.2

/-- The ledger has what an account comes to. -/
def Balanced (e : Engine) (a : Account) : Prop := a.records.Perm (a.entries e)

end Account

namespace Step

/-- The queries that a step answers, each by its path. -/
def queries : Step → List Path
  | .query p _ _ => [p]
  | .concurrent qs => qs.map fun _ ↦ .async
  | .retrieve .. | .synthesize .. | .number _ | .splitDocument _ | .split _ | .advance ..
  | .fail _ => []

/-- The passages that a step numbers without a query. -/
def numbers : Step → List (List ScoredNode)
  | .synthesize _ _ passages _ | .number passages => [passages]
  | .query .. | .concurrent _ | .retrieve .. | .splitDocument _ | .split _ | .advance ..
  | .fail _ => []

/-- Whether a step only asks for passages. -/
def isRetrieve : Step → Bool
  | .retrieve .. => true
  | _ => false

end Step

/-- The answers that were come to. -/
def Outcome.answers : Outcome → List (Except Failure Response)
  | .response r => [r]
  | .responses rs => rs
  | .passages _ | .nodes _ | .chunks _ | .moved _ => []

/-- The account of a step that was reported. -/
def Report.account (x : Step) (r : Report) : Account where
  ended := x.queries.zip r.outcome.answers
  retrieved := if x.isRetrieve then [] else Trace.retrieved r.trace
  numbered := x.numbers
  records := Trace.counts r.trace

/-- The account of a report comes to what was entered in the step, and all queries of the step have
ended. -/
def Report.Accounts (e : Engine) (x : Step) (r : Report) : Prop :=
  (r.account x).Balanced e ∧ (r.account x).ended.map Prod.fst = x.queries

/-! ### Desks -/

/-- A session, and the queries begun to be polled. -/
structure Desk where
  session : Session
  polled : List (Future (Except Failure Response × Run)) := []

/-- A turn at a desk. -/
inductive Turn where
  | step (x : Step)
  /-- Begins a query, on a run that is up to the caller. -/
  | launch (q : Query) (run : Run)
  /-- Polls one of the queries begun. -/
  | poll (i : Nat)
  /-- Keeps a run under a name. -/
  | keep (name : String) (run : Run)

/-- The queries begun in a turn, each by its path. -/
def Turn.queries : Turn → List Path
  | .step x => x.queries
  | .launch .. => [.async]
  | .poll _ | .keep .. => []

namespace Desk

variable (e : Engine)

/-- The query that has ended in a poll, unless it has not yet or had before. -/
def endedIn (before after : Future (Except Failure Response × Run)) :
    List (Path × Except Failure Response) :=
  if before.isFinished then [] else after.value?.toList.map fun r ↦ (.async, r.1)

/-- Polls a query. -/
def poll (d : Desk) (i : Nat) (f : Future (Except Failure Response × Run)) : Account × Desk :=
  let (g, w) := f.poll e.collaborators d.session.outset
  ({ ended := endedIn f g
     retrieved := Trace.retrieved w.trace
     records := Trace.counts w.trace },
    ⟨{ d.session with world := w }, d.polled.set i g⟩)

/-- Takes a turn. -/
def turn (d : Desk) : Turn → Account × Desk
  | .step x => ((d.session.step e x).1.account x, { d with session := (d.session.step e x).2 })
  | .launch q run =>
    ({}, { d with polled := d.polled ++ [.unstarted (e.query .async q run)] })
  | .poll i =>
    match d.polled[i]? with
    | none => ({}, d)
    | some f => d.poll e i f
  | .keep name run =>
    ({}, { d with session := { d.session with runs := (name, run) :: d.session.runs } })

/-- Takes several turns. -/
def turns (d : Desk) : List Turn → Account × Desk
  | [] => ({}, d)
  | x :: xs =>
    let (a, d) := d.turn e x
    let (b, d) := turns d xs
    (a.append b, d)

/-- The path of a query that has not come to its end. -/
def unfinishedOf (f : Future (Except Failure Response × Run)) : List Path :=
  if f.isFinished then [] else [.async]

/-- The queries begun that have not come to their ends, each by its path. -/
def unfinished (d : Desk) : List Path := d.polled.flatMap unfinishedOf

end Desk

/-! ### The account of a step -/

namespace Session

variable {e : Engine} {s : Session}

/-- A step of one piece of work is an execution of that work. -/
theorem yields_step {x : Step} (hx : ∀ qs, x ≠ .concurrent qs) :
    ∃ run, (s.work e x).Yields (s.step e x).1.trace ((s.step e x).1.outcome, run) := by
  obtain ⟨t, hyields, hadmits, -⟩ := (s.work e x).leads_run (c := e.collaborators) s.outset
  obtain ⟨houtcome, htrace, -⟩ := step_of_yields hx hyields hadmits
  rw [houtcome, htrace]
  exact ⟨_, hyields⟩

/-- A step that answers no query and does not ask for passages enters the sources that it
numbers. -/
theorem writes_work (e : Engine) (s : Session) {x : Step} (hqueries : x.queries = [])
    (hretrieve : x.isRetrieve = false) : (s.work e x).Writes (x.numbers.map e.charge) := by
  cases x with
  | query | retrieve => contradiction
  | concurrent qs => exact .done _
  | synthesize _ q passages additional =>
    exact ((e.writes_number passages).bind fun nodes ↦
      e.synthesizer.writes_synthesize q nodes additional).bind fun _ ↦ .done _
  | number passages => exact (e.writes_number passages).bind fun _ ↦ .done _
  | splitDocument d => exact ((Work.Writes.noteAll _).bind fun _ ↦ .done _).bind fun _ ↦ .done _
  | split text => exact ((Work.Writes.noteAll _).bind fun _ ↦ .done _).bind fun _ ↦ .done _
  | advance name t => exact ((s.run name).writes_move t _).bind fun _ ↦ .done _
  | fail name => exact ((s.run name).writes_move .failed _).bind fun _ ↦ .done _

/-- A step that answers no query and does not ask for passages. -/
theorem accounts_step_of_writes {x : Step} (hx : ∀ qs, x ≠ .concurrent qs)
    (hqueries : x.queries = []) (hretrieve : x.isRetrieve = false) :
    (s.step e x).1.Accounts e x := by
  obtain ⟨run, hwork⟩ := yields_step (e := e) (s := s) hx
  obtain ⟨hcounts, hretrieved⟩ := s.writes_work e hqueries hretrieve _ _ hwork
  refine ⟨.of_eq ?_, by simp [Report.account, hqueries]⟩
  simpa [Report.account, Account.entries, hqueries, hretrieve, hretrieved] using hcounts

theorem accounts_step_retrieve (path : Path) (q : Query) :
    (s.step e (.retrieve path q)).1.Accounts e (.retrieve path q) := by
  obtain ⟨run, hwork⟩ := yields_step (e := e) (s := s) (x := .retrieve path q) nofun
  obtain ⟨t, r, t', ht, hask, hdone⟩ := Work.yields_bind_iff.1 hwork
  obtain rfl := Work.yields_ask.1 hask
  obtain ⟨rfl, -⟩ := Work.yields_done.1 hdone
  generalize (s.step e (.retrieve path q)).1 = report at ht
  exact ⟨.of_eq (congrArg Trace.counts ht), rfl⟩

theorem accounts_step_query (path : Path) (q : Query) (name : Option String) :
    (s.step e (.query path q name)).1.Accounts e (.query path q name) := by
  obtain ⟨run, hwork⟩ := yields_step (e := e) (s := s) (x := .query path q name) nofun
  obtain ⟨t, ⟨r, run'⟩, t', ht, hquery, hdone⟩ := Work.yields_bind_iff.1 hwork
  obtain ⟨rfl, hout⟩ := Work.yields_done.1 hdone
  generalize (s.step e (.query path q name)).1 = report at ht hout
  obtain ⟨o, t'', run''⟩ := report
  obtain ⟨rfl, -⟩ : .response r = o ∧ _ := Prod.mk.inj hout
  obtain rfl : t'' = t := ht.trans (List.append_nil t)
  refine ⟨.of_eq ?_, rfl⟩
  simpa [Report.account, Account.entries, Step.isRetrieve, Step.numbers, Step.queries,
    Outcome.answers] using (Engine.balances_of_yields hquery).atEnd

theorem accounts_step_concurrent (qs : List Query) :
    (s.step e (.concurrent qs)).1.Accounts e (.concurrent qs) := by
  obtain ⟨hlength, henters⟩ := e.enters_performAll qs (w := s.outset) rfl
  have hstep : (s.step e (.concurrent qs)).1 =
      let result := e.performAll (qs.map fun q ↦ e.query .async q .fresh) s.outset
      ⟨.responses (result.1.map Prod.fst), result.2.trace, none⟩ := rfl
  rw [hstep]
  generalize e.performAll (qs.map fun q ↦ e.query .async q .fresh) s.outset = result
    at hlength henters
  obtain ⟨rs, w⟩ := result
  replace hlength : rs.length = qs.length := hlength
  have hended : (Step.concurrent qs).queries.zip (rs.map Prod.fst) =
      rs.map fun r ↦ (.async, r.1) :=
    calc (qs.map fun _ ↦ Path.async).zip (rs.map Prod.fst)
      _ = (qs.zip rs).map (fun x ↦ (.async, x.2.1)) := List.zip_map ..
      _ = ((qs.zip rs).map Prod.snd).map fun r ↦ (.async, r.1) := by rw [List.map_map]; rfl
      _ = rs.map fun r ↦ (.async, r.1) := by rw [List.map_snd_zip hlength.le]
  constructor
  · rw [Engine.Enters, List.append_nil] at henters
    simpa [Account.Balanced, Account.entries, Report.account, Step.isRetrieve, Step.numbers,
      Outcome.answers, hended, List.flatMap_map] using henters
  · exact List.map_fst_zip (by simp [Step.queries, Outcome.answers, hlength])

/-- **The account of any step** comes to what it enters. -/
theorem accounts_step (e : Engine) (s : Session) (x : Step) : (s.step e x).1.Accounts e x := by
  cases x with
  | query path q name => exact accounts_step_query path q name
  | concurrent qs => exact accounts_step_concurrent qs
  | retrieve path q => exact accounts_step_retrieve path q
  | _ => exact accounts_step_of_writes nofun rfl rfl

end Session

/-! ### Turns -/

namespace Account

variable {e : Engine} {a b : Account}

/-- Accounts put together. -/
theorem Balanced.append (ha : a.Balanced e) (hb : b.Balanced e) : (a.append b).Balanced e := by
  refine List.perm_iff_count.2 fun r ↦ ?_
  have hcount := ha.count_eq r
  have hcount' := hb.count_eq r
  simp only [Account.append, entries, List.flatMap_append, List.map_append,
    List.count_append] at hcount hcount' ⊢
  omega

end Account

namespace Desk

variable {e : Engine} {d : Desk}

/-- A desk is in order if all queries begun at it are. -/
def Orderly (e : Engine) (d : Desk) : Prop := ∀ f ∈ d.polled, e.Orderly f

/-- **What turns keep**, given the queries begun in them: the ledger has what their account comes
to, and every query has ended or is still to end. -/
structure Keeps (e : Engine) (d : Desk) (queries : List Path) (a : Account) (d' : Desk) :
    Prop where
  orderly : d'.Orderly e
  balanced : a.Balanced e
  ended : (a.ended.map Prod.fst ++ d'.unfinished).Perm (queries ++ d.unfinished)

theorem Keeps.trans {d₁ d₂ : Desk} {queries queries' : List Path} {a a' : Account}
    (h : Keeps e d queries a d₁) (h' : Keeps e d₁ queries' a' d₂) :
    Keeps e d (queries ++ queries') (a.append a') d₂ where
  orderly := h'.orderly
  balanced := h.balanced.append h'.balanced
  ended := by
    refine List.perm_iff_count.2 fun r ↦ ?_
    have hcount := h.ended.count_eq r
    have hcount' := h'.ended.count_eq r
    simp only [Account.append, List.map_append, List.count_append] at hcount hcount' ⊢
    omega

section

variable {f g : Future (Except Failure Response × Run)} (hfinished : f.isFinished → g = f)

include hfinished

/-- A query ends once. -/
theorem map_endedIn : (endedIn f g).map Prod.fst ++ unfinishedOf g = unfinishedOf f := by
  unfold endedIn
  split
  · rename_i hf
    rw [hfinished hf]
    rfl
  · rename_i hf
    rw [unfinishedOf, unfinishedOf, if_neg hf, Future.isFinished]
    cases g.value? <;> rfl

/-- A query is entered when it ends. -/
theorem entered_endedIn :
    Engine.enteredOf f ++ (endedIn f g).flatMap (fun x ↦ Engine.entered x.1 x.2) =
      Engine.enteredOf g := by
  unfold endedIn
  split
  · rename_i hf
    rw [hfinished hf]
    exact List.append_nil _
  · rename_i hf
    rw [Future.isFinished, Option.not_isSome_iff_eq_none] at hf
    rw [Engine.enteredOf_of_value?_eq_none hf, List.flatMap_map]
    rfl

end

/-- **One poll.** -/
theorem keeps_poll (hd : d.Orderly e) {i : Nat} {f : Future (Except Failure Response × Run)}
    (hf : d.polled[i]? = some f) : Keeps e d [] (d.poll e i f).1 (d.poll e i f).2 := by
  obtain ⟨t, hw, hg, ht⟩ :=
    Engine.orderly_poll (c := e.collaborators) (hd f (List.mem_of_getElem? hf)) d.session.outset
  have hfinished : f.isFinished → (f.poll e.collaborators d.session.outset).1 = f := fun h ↦ by
    rw [Future.poll_of_isFinished h]
  rw [poll]
  generalize f.poll e.collaborators d.session.outset = y at hw hg ht hfinished
  obtain ⟨g, w⟩ := y
  obtain rfl : w = d.session.outset.afterAll t := hw
  have htrace : (d.session.outset.afterAll t).trace = t := World.trace_afterAll ..
  obtain ⟨hi, rfl⟩ := List.getElem?_eq_some_iff.1 hf
  simp only [htrace]
  constructor
  · intro g' hg'
    rcases List.mem_or_eq_of_mem_set hg' with hmem | rfl
    · exact hd g' hmem
    · exact hg
  · rw [Engine.Enters, ← entered_endedIn hfinished] at ht
    refine List.perm_iff_count.2 fun r ↦ ?_
    have hcount := ht.count_eq r
    simp only [Account.entries, List.map_nil, List.count_append, List.count_nil] at hcount ⊢
    omega
  · -- Both desks but for the query polled are the same.
    have hbefore := (List.getElem_cons_eraseIdx_perm hi).flatMap_right unfinishedOf
    have hafter := (List.set_perm_cons_eraseIdx hi g).flatMap_right unfinishedOf
    rw [List.flatMap_cons, ← map_endedIn hfinished, List.append_assoc] at hbefore
    exact (hafter.append_left _).trans hbefore

/-- **One turn.** -/
theorem keeps_turn (hd : d.Orderly e) (x : Turn) :
    Keeps e d x.queries (d.turn e x).1 (d.turn e x).2 := by
  cases x with
  | step x =>
    obtain ⟨hbalanced, hended⟩ := d.session.accounts_step e x
    exact ⟨hd, hbalanced, .of_eq (congrArg (· ++ d.unfinished) hended)⟩
  | launch q run =>
    refine ⟨List.forall_mem_append.2 ⟨hd, ?_⟩, .refl _, ?_⟩
    · exact List.forall_mem_singleton.2 (e.orderly_unstarted q run)
    · show ((d.polled ++ [_]).flatMap unfinishedOf).Perm ([Path.async] ++ d.unfinished)
      rw [List.flatMap_append]
      exact List.perm_append_comm
  | poll i =>
    rw [turn]
    split
    · exact ⟨hd, .refl _, .refl _⟩
    · rename_i f hf
      exact keeps_poll hd hf
  | keep name run => exact ⟨hd, .refl _, .refl _⟩

/-- **Any turns.** -/
theorem keeps_turns (hd : d.Orderly e) (xs : List Turn) :
    Keeps e d (xs.flatMap Turn.queries) (d.turns e xs).1 (d.turns e xs).2 := by
  induction xs generalizing d with
  | nil => exact ⟨hd, .refl _, .refl _⟩
  | cons x xs ih =>
    have hturn : Keeps e d x.queries (d.turn e x).1 (d.turn e x).2 := keeps_turn hd x
    exact hturn.trans (ih hturn.orderly)

end Desk

/-! ### Totals of accounts -/

namespace Account

variable (e : Engine) (a : Account)

theorem total_entered (xs : List (Path × Except Failure Response)) (path : Path)
    (answered : Bool) :
    Ledger.total (.queries path answered) (xs.flatMap fun x ↦ Engine.entered x.1 x.2) =
      xs.countP fun x ↦ x.1 = path ∧ x.2.toBool = answered := by
  induction xs with
  | nil => rfl
  | cons x xs ih =>
    have hiff : Figure.queries path answered = .queries x.1 x.2.toBool ↔
        x.1 = path ∧ x.2.toBool = answered := by
      rw [Figure.queries.injEq, @eq_comm _ path, @eq_comm _ answered]
    rw [List.flatMap_cons, Ledger.total_append, ih, List.countP_cons, Nat.add_comm]
    simp [Engine.entered, hiff]

theorem total_entries_queries (path : Path) (answered : Bool) :
    Ledger.total (.queries path answered) (a.entries e) =
      a.ended.countP fun x ↦ x.1 = path ∧ x.2.toBool = answered := by
  rw [entries, Ledger.total_append, total_entered]
  simp [Ledger.total_flatMap, Ledger.total_map, Engine.dues, Engine.charge]

theorem countP_entries_durations (path : Path) :
    (a.entries e).countP (fun r ↦ r.1 = .durations path) =
      a.ended.countP fun x ↦ x.1 = path := by
  have hended : ∀ xs : List (Path × Except Failure Response),
      (xs.flatMap fun x ↦ Engine.entered x.1 x.2).countP (fun r ↦ r.1 = .durations path) =
        xs.countP fun x ↦ x.1 = path := by
    intro xs
    induction xs with
    | nil => rfl
    | cons x xs ih =>
      rw [List.flatMap_cons, List.countP_append, ih, List.countP_cons, Nat.add_comm]
      simp [Engine.entered, List.countP_cons]
  have hdues : (a.retrieved.flatMap e.dues).countP (fun r ↦ r.1 = .durations path) = 0 := by
    rw [List.countP_flatMap]
    simp [Engine.dues, Function.comp_def]
  rw [entries, List.countP_append, List.countP_append, hended, hdues]
  simp [Engine.charge]

theorem total_entries_passages :
    Ledger.total .passages (a.entries e) = (a.retrieved.map List.length).sum := by
  simp [entries, Ledger.total_flatMap, Ledger.total_map, Engine.dues, Engine.entered,
    Engine.charge]

theorem total_entries_sources :
    Ledger.total .sources (a.entries e) = ((a.retrieved ++ a.numbered).map fun ps ↦
      (Citation.sources e.citationSplitter ps).length).sum := by
  simp [entries, Ledger.total_flatMap, Ledger.total_map, Engine.dues, Engine.entered,
    Engine.charge]

end Account

/-- **The ledger adds up** over any turns at a desk, beginning with any session, with any
collaborators, and with runs and polls as the caller likes.

* Queries are counted by path and by whether they were answered, and those that were refused as
  those that failed otherwise. Each has its duration recorded once.
* The passages counted are those that queries have retrieved, whatever has become of the queries
  then. What is retrieved without a query is not counted.
* The sources counted are those cut from the passages retrieved by queries and from the passages
  numbered without one.

Here every query begun in a turn has come to an end once, or is still to do so. -/
theorem Desk.totals_turns (e : Engine) (s : Session) (xs : List Turn) :
    let a := (Desk.turns e ⟨s, []⟩ xs).1
    let d := (Desk.turns e ⟨s, []⟩ xs).2
    (∀ path answered, Ledger.total (.queries path answered) a.records =
      a.ended.countP fun x ↦ x.1 = path ∧ x.2.toBool = answered) ∧
    (∀ path, a.records.countP (fun r ↦ r.1 = .durations path) =
      a.ended.countP fun x ↦ x.1 = path) ∧
    Ledger.total .passages a.records = (a.retrieved.map List.length).sum ∧
    Ledger.total .sources a.records = ((a.retrieved ++ a.numbered).map fun ps ↦
      (Citation.sources e.citationSplitter ps).length).sum ∧
    (a.ended.map Prod.fst ++ d.unfinished).Perm (xs.flatMap Turn.queries) := by
  intro a d
  have horderly : Desk.Orderly e ⟨s, []⟩ := List.forall_mem_nil _
  obtain ⟨-, hbalanced, hended⟩ : Desk.Keeps e ⟨s, []⟩ (xs.flatMap Turn.queries) a d :=
    Desk.keeps_turns horderly xs
  have htotal (f : Figure) : Ledger.total f a.records = Ledger.total f (a.entries e) :=
    Ledger.total_eq_of_perm f hbalanced
  refine ⟨fun path answered ↦ ?_, fun path ↦ ?_, ?_, ?_, ?_⟩
  · rw [htotal, Account.total_entries_queries]
  · rw [hbalanced.countP_eq, Account.countP_entries_durations]
  · rw [htotal, Account.total_entries_passages]
  · rw [htotal, Account.total_entries_sources]
  · exact hended.trans (.of_eq (List.append_nil _))

end CitedAnswers

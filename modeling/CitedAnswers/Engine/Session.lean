import CitedAnswers.Engine.Basic

/-!
# Sessions

A `Session` carries out steps on one engine, one after another, and keeps what a later step can see:
the world and the named runs. A `Report` says what a step came to and what happened during it.
-/

namespace CitedAnswers

/-- A step on an engine. -/
inductive Step where
  /-- Answers a query, on a named run or on a run of its own. -/
  | query (path : Path) (q : Query) (run : Option String)
  /-- Answers several queries at the same time, polling them in turn. -/
  | concurrent (qs : List Query)
  | retrieve (path : Path) (q : Query)
  | synthesize (path : Path) (q : Query) (passages : List ScoredNode)
    (additional : Option (List ScoredNode))
  /-- Cuts passages into numbered sources. -/
  | number (passages : List ScoredNode)
  | splitDocument (d : Document)
  | split (text : String)
  /-- Advances a named run. -/
  | advance (run : String) (s : Run.State)
  /-- Records a failure on a named run. -/
  | fail (run : String)

namespace Step

/-- The path a step is taken on. -/
def path : Step → Path
  | query p .. | retrieve p _ | synthesize p .. => p
  | concurrent _ => .async
  | number _ | splitDocument _ | split _ | advance .. | fail _ => .blocking

/-- The run that a step names. -/
def run? : Step → Option String
  | query _ _ name => name
  | advance name _ | fail name => some name
  | concurrent _ | retrieve .. | synthesize .. | number _ | splitDocument _ | split _ => none

end Step

/-- What a step comes to. -/
inductive Outcome where
  | response (r : Except Failure Response)
  | responses (rs : List (Except Failure Response))
  | passages (r : Except Failure (List ScoredNode))
  | nodes (ns : List ScoredNode)
  | chunks (cs : List Chunking.Chunk)
  | moved (r : Except Failure Unit)

/-- What a step came to and what happened during it. -/
structure Report where
  outcome : Outcome
  trace : List Occurrence
  /-- The run that the step names, as the step left it. -/
  run : Option Run

/-- What later steps can see. -/
structure Session where
  world : World := .fresh
  runs : List (String × Run) := []

namespace Session

/-- The run of a name. A run that was not named before is fresh. -/
def run (s : Session) (name : String) : Run := (s.runs.lookup name).getD .fresh

/-- The work of a step, its outcome and the run as it is left. Queries at the same time are no
single piece of work. -/
def work (e : Engine) (s : Session) : Step → Work (Outcome × Option Run)
  | .query path q name => do
    let (r, run) ← e.query path q ((name.map s.run).getD .fresh)
    pure (.response r, some run)
  | .concurrent _ => pure (.responses [], none)
  | .retrieve _ q => do pure (.passages (← Work.ask q), none)
  | .synthesize _ q passages additional => do
    pure (.response (← e.synthesize q passages additional), none)
  | .number passages => do pure (.nodes (← e.number passages), none)
  | .splitDocument d => do pure (.nodes (← e.splitDocument d), none)
  | .split text => do pure (.chunks (← e.split text), none)
  | .advance name t => do
    let (r, run) ← (s.run name).advancing t
    pure (.moved r, some run)
  | .fail name => do
    let (r, run) ← (s.run name).failing
    pure (.moved r, some run)

/-- Carries out a step. -/
def step (e : Engine) (s : Session) (x : Step) : Report × Session :=
  let w : World := { s.world with trace := [] }
  match x with
  | .concurrent qs =>
    let (rs, w) := e.performAll (qs.map fun q ↦ e.query .async q .fresh) w
    (⟨.responses (rs.map Prod.fst), w.trace, none⟩, { s with world := w })
  | x =>
    let ((o, run), w) := e.perform x.path (s.work e x) w
    match x.run?, run with
    | some name, some run =>
      (⟨o, w.trace, some run⟩, { world := w, runs := (name, run) :: s.runs })
    | _, _ => (⟨o, w.trace, none⟩, { s with world := w })

/-- Carries out several steps. -/
def steps (e : Engine) (s : Session) : List Step → List Report
  | [] => []
  | x :: xs =>
    let (r, s) := s.step e x
    r :: steps e s xs

end Session

end CitedAnswers

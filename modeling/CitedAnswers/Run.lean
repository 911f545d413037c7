import CitedAnswers.Failure
import CitedAnswers.Log

/-!
# Runs

A `Run` is the record of one query: the states it has been in, the first of them `idle`. A run
advances from each state to a single next one, and fails from any state in which work is under way.
A run that is done or has failed goes nowhere.
-/

namespace CitedAnswers

/-- The states of a query. -/
inductive Run.State where
  | idle
  | retrieving
  | chunking
  | synthesizing
  | done
  | failed
deriving DecidableEq, Repr

namespace Run.State

/-- All states. -/
def all : List State := [idle, retrieving, chunking, synthesizing, done, failed]

/-- The name of a state. -/
def name : State → String
  | idle => "idle"
  | retrieving => "retrieving"
  | chunking => "chunking"
  | synthesizing => "synthesizing"
  | done => "done"
  | failed => "failed"

/-- The state of a name. -/
def ofName? (s : String) : Option State := all.find? fun t ↦ t.name == s

/-- The state that a run advances to. -/
def next? : State → Option State
  | idle => some retrieving
  | retrieving => some chunking
  | chunking => some synthesizing
  | synthesizing => some done
  | done | failed => none

/-- Whether work is under way. -/
def isActive : State → Bool
  | retrieving | chunking | synthesizing => true
  | idle | done | failed => false

/-- Whether a run has come to its end. -/
def isTerminal : State → Bool
  | done | failed => true
  | idle | retrieving | chunking | synthesizing => false

end Run.State

/-- The states that a query has been in. -/
structure Run where
  /-- The state the query is in. -/
  state : Run.State
  /-- The states before, last first. -/
  earlier : List Run.State
deriving DecidableEq, Repr

namespace Run

/-- A run that has not begun. -/
def fresh : Run := ⟨.idle, []⟩

/-- The states in their order. -/
def history (r : Run) : List State := (r.state :: r.earlier).reverse

/-- The run in its next state. -/
def enter (r : Run) (s : State) : Run := ⟨s, r.state :: r.earlier⟩

/-- The failure of a run that may not go to a state. -/
def refusal (r : Run) (s : State) : Failure := .transition r.state.name s.name

/-- What going to a state reports. -/
def notice (r : Run) (s : State) : Log.Entry :=
  ⟨.debug, "Query state transition", [("from", .text r.state.name), ("to", .text s.name)]⟩

/-- Goes to the next state, which must be the one given. -/
def advance (r : Run) (s : State) : Except Failure Run :=
  if r.state.next? = some s then .ok (r.enter s) else .error (r.refusal s)

/-- Records that the work under way has failed. -/
def fail (r : Run) : Except Failure Run :=
  if r.state.isActive then .ok (r.enter .failed) else .error (r.refusal .failed)

end Run

end CitedAnswers

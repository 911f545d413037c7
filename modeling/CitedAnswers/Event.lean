import CitedAnswers.Log
import CitedAnswers.Response

/-!
# Events

Observers of an engine are told of the start and the end of phases: the whole query, and the
retrieval of passages within it. The end carries the number that was drawn at the start. An
`Observer` either records what it is told or writes it to the log; all of them are told in the order
of their registration.
-/

namespace CitedAnswers

/-- The phases of a query that observers are told of. -/
inductive Phase where
  /-- The whole query. -/
  | query
  /-- Retrieving passages and numbering their sources. -/
  | retrieve
deriving DecidableEq, Repr

/-- The name of a phase. -/
def Phase.name : Phase → String
  | query => "query"
  | retrieve => "retrieve"

/-- What is told with an event. -/
inductive Payload where
  | empty
  | question (text : String)
  | nodes (nodes : List ScoredNode)
  | response (response : Response)
deriving Repr

/-- The two ends of a phase. -/
inductive Edge where
  | start
  | stop
deriving DecidableEq, Repr

/-- The start or the end of a phase. -/
structure Event where
  edge : Edge
  phase : Phase
  payload : Payload
  /-- The number drawn at the start of the phase. -/
  id : Nat
deriving Repr

/-- What the log says of an event. The question is shown at a start; nodes and sources are counted
at an end. -/
def Event.entry (e : Event) : Log.Entry :=
  let known := [("event", .text e.phase.name), ("event_id", .event e.id)]
  match e.edge, e.payload with
  | .start, .question text => ⟨.debug, "Event started", known ++ [("query", .text text)]⟩
  | .start, _ => ⟨.debug, "Event started", known⟩
  | .stop, .nodes ns => ⟨.debug, "Event ended", known ++ [("node_count", .number ns.length)]⟩
  | .stop, .response r =>
    ⟨.debug, "Event ended", known ++ [("source_count", .number r.sources.length)]⟩
  | .stop, _ => ⟨.debug, "Event ended", known⟩

/-- Somebody who is told of events. -/
inductive Observer where
  /-- Records the events, under a number of its own. -/
  | recorder (number : Nat)
  /-- Writes the events to the log. -/
  | log
deriving DecidableEq, Repr

namespace Observer

/-- What an observer records of an event. -/
def record? (e : Event) : Observer → Option (Nat × Event)
  | recorder n => some (n, e)
  | log => none

/-- What an observer writes to the log of an event. -/
def written? (e : Event) : Observer → Option Log.Entry
  | recorder _ => none
  | log => some e.entry

/-- What several observers record of an event, in their order. -/
def recordsOf (os : List Observer) (e : Event) : List (Nat × Event) := os.filterMap (record? e)

/-- What several observers write to the log of an event. -/
def entriesOf (os : List Observer) (e : Event) : List Log.Entry := os.filterMap (written? e)

/-- A description of several observers. -/
def describe (os : List Observer) : String :=
  "CallbackManager \x7b handlers: " ++ toString os.length ++ " \x7d"

end Observer

end CitedAnswers

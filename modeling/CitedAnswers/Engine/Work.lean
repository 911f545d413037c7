import CitedAnswers.Engine.Collaborator
import CitedAnswers.Event
import CitedAnswers.Ledger

/-!
# Work and its trace

`Work` is what an engine does for one request, laid out step by step: it writes to the log and the
ledger, adds up sizes, tells observers of events, and calls its collaborators, going on with what
they answer. A `World` is what work has left behind: how often the collaborators were called, how
many event numbers were drawn, and the trace of all that happened, in order.

A sum that is no size stops the program. Work goes on behind such a sum nevertheless, so that it has
a result in any case; it is the trace that says whether the program has come to it: a trace that
`Trace.stops` is that of a program which has not, and it happened up to that sum only.

`Work.run` does the work at one go, as a caller who waits for the result sees it. How work is done
piece by piece is the matter of `Future`.
-/

namespace CitedAnswers

/-- A piece of work with a result. -/
inductive Work (α : Type) where
  | done (a : α)
  /-- Writes to the log. -/
  | note (e : Log.Entry) (more : Work α)
  /-- Writes to the ledger. -/
  | count (f : Figure) (n : Nat) (more : Work α)
  /-- Adds up sizes. -/
  | sum (n : Nat) (more : Work α)
  /-- Draws a number and tells observers of the start of a phase. -/
  | start (p : Phase) (x : Payload) (more : Nat → Work α)
  /-- Tells observers of the end of a phase. -/
  | stop (p : Phase) (x : Payload) (id : Nat) (more : Work α)
  /-- Asks the retriever for passages. -/
  | retrieve (q : Query) (more : Except Failure (List ScoredNode) → Work α)
  /-- Asks the model for a completion. -/
  | predict (prompt : String) (more : Except Failure String → Work α)

namespace Work

/-- Goes on with further work. -/
def bind {α β : Type} (k : α → Work β) : Work α → Work β
  | done a => k a
  | note e more => note e (bind k more)
  | count f n more => count f n (bind k more)
  | sum n more => sum n (bind k more)
  | start p x more => start p x fun id ↦ bind k (more id)
  | stop p x id more => stop p x id (bind k more)
  | retrieve q more => retrieve q fun r ↦ bind k (more r)
  | predict p more => predict p fun r ↦ bind k (more r)

instance : Monad Work where
  pure := done
  bind x k := bind k x

/-- Writes entries to the log. -/
def noteAll : List Log.Entry → Work Unit
  | [] => done ()
  | e :: es => note e (noteAll es)

/-- Adds up sizes, time and again. -/
def sumAll : List Nat → Work Unit
  | [] => done ()
  | n :: ns => sum n (sumAll ns)

/-- Asks the retriever for passages. -/
def ask (q : Query) : Work (Except Failure (List ScoredNode)) := retrieve q done

end Work

/-! ### The world -/

/-- Something that happened. -/
inductive Occurrence where
  | noted (e : Log.Entry)
  | counted (f : Figure) (n : Nat)
  /-- Sizes were added up. -/
  | summed (n : Nat)
  | told (e : Event)
  /-- The retriever was asked and answered. -/
  | asked (q : Query) (answer : Except Failure (List ScoredNode))
  /-- The model was given a prompt and answered. -/
  | prompted (prompt : String) (answer : Except Failure String)

/-- What work has left behind. -/
structure World where
  /-- The number of calls of the retriever. -/
  asked : Nat
  /-- The number of calls of the model. -/
  prompted : Nat
  /-- The number of event numbers drawn. -/
  drawn : Nat
  /-- What happened, in order. -/
  trace : List Occurrence

namespace World

/-- The world before any work. -/
def fresh : World := ⟨0, 0, 0, []⟩

/-- Adds an occurrence to the trace. -/
def record (w : World) (o : Occurrence) : World := { w with trace := w.trace ++ [o] }

/-- Draws an event number and tells of the start of a phase. -/
def start (w : World) (p : Phase) (x : Payload) : World :=
  { w.record (.told ⟨.start, p, x, w.drawn⟩) with drawn := w.drawn + 1 }

/-- Calls the retriever. -/
def ask (w : World) (r : Retriever) (q : Query) : Except Failure (List ScoredNode) × World :=
  let answer := r.answer w.asked q
  (answer, { w.record (.asked q answer) with asked := w.asked + 1 })

/-- Calls the model. -/
def prompt (w : World) (m : Model) (p : String) : Except Failure String × World :=
  let answer := m.answer w.prompted p
  (answer, { w.record (.prompted p answer) with prompted := w.prompted + 1 })

end World

/-- Does work at one go. -/
def Work.run {α : Type} (c : Collaborators) : Work α → World → α × World
  | .done a, w => (a, w)
  | .note e more, w => more.run c (w.record (.noted e))
  | .count f n more, w => more.run c (w.record (.counted f n))
  | .sum n more, w => more.run c (w.record (.summed n))
  | .start p x more, w => (more w.drawn).run c (w.start p x)
  | .stop p x id more, w => more.run c (w.record (.told ⟨.stop, p, x, id⟩))
  | .retrieve q more, w => let (r, w) := w.ask c.retriever q; (more r).run c w
  | .predict p more, w => let (r, w) := w.prompt c.model p; (more r).run c w

/-! ### Views of a trace -/

namespace Trace

/-- The prompts that were sent. -/
def prompts (t : List Occurrence) : List String :=
  t.filterMap fun o ↦ match o with
    | .prompted p _ => some p
    | _ => none

/-- The events that observers were told of. -/
def events (t : List Occurrence) : List Event :=
  t.filterMap fun o ↦ match o with
    | .told e => some e
    | _ => none

/-- What was written to the ledger. -/
def counts (t : List Occurrence) : List (Figure × Nat) :=
  t.filterMap fun o ↦ match o with
    | .counted f n => some (f, n)
    | _ => none

/-- The sums that were formed. -/
def sums (t : List Occurrence) : List Nat :=
  t.filterMap fun o ↦ match o with
    | .summed n => some n
    | _ => none

/-- Whether the program has stopped, at a sum that is no size. -/
def stops (t : List Occurrence) : Bool := !(sums t).all Size.isSize

/-- What observers recorded. -/
def records (os : List Observer) (t : List Occurrence) : List (Nat × Event) :=
  (events t).flatMap (Observer.recordsOf os)

/-- The log, including what observers wrote to it. -/
def log (os : List Observer) (t : List Occurrence) : List Log.Entry :=
  t.flatMap fun o ↦ match o with
    | .noted e => [e]
    | .told e => Observer.entriesOf os e
    | _ => []

end Trace

end CitedAnswers

import CitedAnswers.Citation.Numbering
import CitedAnswers.Document
import CitedAnswers.Engine.Future
import CitedAnswers.Run
import CitedAnswers.Synthesis.Chain

/-!
# The engine

An `Engine` answers queries with citations. A query goes through the states of its run: passages are
retrieved, cut into numbered sources, and given to a synthesizer. Observers are told of the start
and the end of the query and of the retrieval.

Every operation is `Work`, one and the same for a caller that waits and for one that polls;
`Engine.perform` does it in either way.
-/

namespace CitedAnswers

open Chunking (Splitter)
open Synthesis (Synthesizer)

/-- Answers queries with citations. -/
structure Engine where
  retriever : Retriever
  synthesizer : Synthesizer
  /-- Cuts passages into numbered sources. -/
  citationSplitter : Splitter
  /-- Cuts documents into passages. -/
  sourceSplitter : Splitter
  observers : List Observer

/-- Work on a query, which moves its run along and may fail. -/
abbrev Querying (α : Type) := ExceptT Failure (StateT Run Work) α

namespace Run

/-- Moves a run by one of its operations, of which the outcome and the state it leads to are
given. -/
def move (r : Run) (s : State) (outcome : Except Failure Run) : Work (Except Failure Unit × Run) :=
  match outcome with
  | .ok next => .note (r.notice s) (.done (.ok (), next))
  | .error f => .done (.error f, r)

/-- Advances a run. -/
def advancing (r : Run) (s : State) : Work (Except Failure Unit × Run) := r.move s (r.advance s)

/-- Records that the work under way has failed. -/
def failing (r : Run) : Work (Except Failure Unit × Run) := r.move .failed r.fail

/-- What a failed query reports. -/
def failure (r : Run) (f : Failure) : Log.Entry :=
  ⟨.warn, "Citation query failed", [("state", .text r.state.name), ("error", .text f.message)]⟩

/-- Records the failure of a query, unless the run has come to its end or has not begun. -/
def settle (r : Run) (f : Failure) : Work Run :=
  .note (r.failure f) do
    match ← r.failing with
    | (.ok (), r) => pure r
    | (.error refused, r) =>
      .note ⟨.debug, "Run already settled", [("error", .text refused.message)]⟩ (pure r)

end Run

namespace Querying

/-- Advances the run. -/
def advance (s : Run.State) : Querying Unit := fun r ↦ r.advancing s

/-- Does work that leaves the run alone. -/
def work {α : Type} (k : Work α) : Querying α := fun r ↦ k.bind fun a ↦ .done (.ok a, r)

/-- Does work that leaves the run alone and may fail. -/
def attempt {α : Type} (k : Work (Except Failure α)) : Querying α :=
  fun r ↦ k.bind fun a ↦ .done (a, r)

end Querying

namespace Engine

variable (e : Engine)

/-- Those the engine works with. -/
def collaborators : Collaborators := ⟨e.retriever, e.synthesizer.model⟩

/-- Cuts passages one after another and forms the sums for the positions of their sources. -/
def place : List ScoredNode → Work Unit
  | [] => .done ()
  | p :: ps => do
    Work.noteAll (e.citationSplitter.notices p.text)
    Work.sumAll (Citation.sums e.citationSplitter p)
    place ps

/-- Cuts passages into numbered sources. -/
def number (passages : List ScoredNode) : Work (List ScoredNode) := do
  let nodes := Citation.sources e.citationSplitter passages
  e.place passages
  .note (Citation.summary e.citationSplitter passages)
    (.count .sources nodes.length (pure nodes))

/-- Of an engine, numbering passages uses the splitter for passages only. -/
theorem number_congr {e e' : Engine} (h : e'.citationSplitter = e.citationSplitter)
    (passages : List ScoredNode) : e'.number passages = e.number passages := by
  have hplace : e'.place passages = e.place passages := by
    induction passages with
    | nil => rfl
    | cons p ps ih => rw [place, place, ih, h]
  rw [number, number, hplace, h]

/-- Cuts a text into chunks for passages. -/
def split (text : String) : Work (List Chunking.Chunk) := do
  Work.noteAll (e.sourceSplitter.notices text)
  pure (e.sourceSplitter.split text)

/-- Cuts a document into passages. -/
def splitDocument (d : Document) : Work (List ScoredNode) := do
  Work.noteAll (e.sourceSplitter.notices d.text)
  pure (d.passages e.sourceSplitter)

/-- Makes an answer from passages. Additional nodes are only added to those it rests on. -/
def synthesize (q : Query) (passages : List ScoredNode) (additional : Option (List ScoredNode)) :
    Work (Except Failure Response) := do
  let nodes ← e.number passages
  e.synthesizer.synthesize q nodes additional

/-! ### Queries -/

/-- The numbers of the phases that a query has begun. -/
structure Begun where
  query : Nat
  retrieve : Nat

/-- Begins the retrieval. -/
def begin_ (q : Query) : Querying Begun := do
  Querying.advance .retrieving
  let query ← Querying.work (.start .query (.question q.text) .done)
  let retrieve ← Querying.work (.start .retrieve .empty .done)
  pure ⟨query, retrieve⟩

/-- Ends the retrieval with the sources cut from the passages. -/
def finishRetrieval (begun : Begun) (passages : List ScoredNode) : Querying (List ScoredNode) := do
  Querying.advance .chunking
  Querying.work (.count .passages passages.length (.done ()))
  let nodes ← Querying.work (e.number passages)
  Querying.work (.note
    ⟨.info, "Passages chunked into citation nodes",
      [("passage_count", .number passages.length), ("citation_count", .number nodes.length)]⟩
    (.stop .retrieve (.nodes nodes) begun.retrieve (.done ())))
  Querying.advance .synthesizing
  pure nodes

/-- Ends the query with its response. -/
def conclude (begun : Begun) (r : Response) : Querying Response := do
  Querying.advance .done
  Querying.work (.stop .query (.response r) begun.query (.done ()))
  pure r

/-- Answers a query up to the settling of its run. -/
def pursue (q : Query) : Querying Response := do
  let begun ← begin_ q
  let passages ← Querying.attempt (.ask q)
  let nodes ← e.finishRetrieval begun passages
  let r ← Querying.attempt (e.synthesizer.synthesize q nodes none)
  conclude begun r

/-- Answers a query on a run. -/
def query (path : Path) (q : Query) (run : Run) : Work (Except Failure Response × Run) := do
  let (result, run) ← e.pursue q run
  let run ← match result with
    | .ok _ => pure run
    | .error f => run.settle f
  .count (.queries path result.toBool) 1 (.count (.durations path) 1 (pure (result, run)))

/-! ### Doing the work -/

/-- Does work on the given path. -/
def perform {α : Type} (path : Path) (k : Work α) (w : World) : α × World :=
  k.perform e.collaborators path w

/-- Does several pieces of work by polling them in turn. -/
def performAll {α : Type} (ks : List (Work α)) (w : World) : List α × World :=
  Future.completeAll e.collaborators (ks.map .unstarted) w

end Engine

end CitedAnswers

/-!
# Ledger

The figures an engine keeps: counters and one histogram, some of them split up by labels. The ledger
itself is a view of what was recorded: a total for every figure that was touched, be it by nothing.
-/

namespace CitedAnswers

/-- The two ways a query is answered: the caller waits for it, or it is polled. -/
inductive Path where
  | blocking
  | async
deriving DecidableEq, Repr

/-- The name of a path. -/
def Path.name : Path → String
  | blocking => "blocking"
  | async => "async"

/-- A figure of the ledger. -/
inductive Figure where
  /-- The number of queries, by path and whether they were answered. -/
  | queries (path : Path) (answered : Bool)
  /-- The durations of queries, by path; recorded once for each. -/
  | durations (path : Path)
  /-- The number of passages retrieved. -/
  | passages
  /-- The number of sources numbered. -/
  | sources
deriving DecidableEq, Repr

namespace Figure

/-- What the names of all figures start with. -/
def family : String := "citeforge"

/-- The kinds of figures. -/
inductive Kind where
  | counter
  | histogram
deriving DecidableEq, Repr

/-- What is said of a figure to a reader: its kind, its unit and what it means. -/
structure Description where
  name : String
  kind : Kind
  unit : String
  meaning : String

/-- The name of a figure without its labels. -/
def name : Figure → String
  | queries .. => family ++ "_queries_total"
  | durations _ => family ++ "_query_duration_seconds"
  | passages => family ++ "_passages_retrieved_total"
  | sources => family ++ "_citation_nodes_total"

/-- The labels of a figure, in the order of their names. -/
def labels : Figure → List (String × String)
  | queries p answered => [("outcome", if answered then "success" else "error"), ("path", p.name)]
  | durations p => [("path", p.name)]
  | passages | sources => []

/-- The name of a figure with its labels. -/
def key (f : Figure) : String :=
  f.name ++ "\x7b" ++ ",".intercalate (f.labels.map fun (k, v) ↦ k ++ "=" ++ v) ++ "\x7d"

/-- What is said of the figures to a reader. -/
def descriptions : List Description :=
  [⟨(queries .blocking true).name, .counter, "count",
      "Total number of queries by execution path and outcome"⟩,
    ⟨(durations .blocking).name, .histogram, "seconds", "End-to-end query latency in seconds"⟩,
    ⟨passages.name, .counter, "count", "Total passages returned by retrievers"⟩,
    ⟨sources.name, .counter, "count", "Total citation nodes created"⟩]

/-- The text of a description. -/
def Description.text (d : Description) : String :=
  (match d.kind with
    | .counter => "counter"
    | .histogram => "histogram") ++ " " ++ d.unit ++ " " ++ d.meaning

end Figure

namespace Ledger

/-- Adds to the total of a figure. -/
def add (f : Figure) (n : Nat) : List (Figure × Nat) → List (Figure × Nat)
  | [] => [(f, n)]
  | (g, m) :: es => if f = g then (g, m + n) :: es else (g, m) :: add f n es

/-- The totals of the figures touched, in the order they were first touched. -/
def totals (records : List (Figure × Nat)) : List (Figure × Nat) :=
  records.foldl (fun es (f, n) ↦ add f n es) []

end Ledger

end CitedAnswers

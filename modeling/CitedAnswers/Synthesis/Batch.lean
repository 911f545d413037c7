import CitedAnswers.Node
import CitedAnswers.Synthesis.Options

/-!
# Batches of sources

The texts of the sources are put together to batches, one for each prompt. In the compact mode a
batch takes further sources, one line end between two, as long as it keeps to the budget; in the
other mode every source is a batch.
-/

namespace CitedAnswers.Synthesis

/-- Packs texts into batches, the first of which has begun with `current`. A batch without text does
not count as begun. -/
def pack (budget : Nat) (current : List Char) : List (List Char) → List (List Char)
  | [] => if current.isEmpty then [] else [current]
  | t :: ts =>
    if current.isEmpty then pack budget t ts
    else if budget < current.length + 1 + t.length then current :: pack budget t ts
    else pack budget (current ++ '\n' :: t) ts

/-- The batches of some nodes. -/
def batches (o : Options) (nodes : List ScoredNode) : List String :=
  match o.mode with
  | .refine => nodes.map ScoredNode.text
  | .compact => (pack o.budget [] (nodes.map fun n ↦ n.text.toList)).map String.ofList

end CitedAnswers.Synthesis

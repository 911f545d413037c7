import CitedAnswers.Log
import CitedAnswers.Node
import CitedAnswers.Numeric.Shortest
import CitedAnswers.Query

/-!
# Postprocessors

A `Postprocessor` drops or reorders numbered sources before they are put into prompts. It leaves
their texts alone, so that every source keeps its number.
-/

namespace CitedAnswers.Synthesis

/-- A step that drops or reorders nodes. -/
inductive Postprocessor where
  /-- Keeps the nodes with at least the given score. -/
  | cutoff (minScore : Binary)
  /-- Turns the order round. -/
  | reverse
  /-- Drops the first nodes. -/
  | skip (count : Nat)
  /-- Keeps the nodes whose text contains the question. -/
  | matching
  | custom (apply : Query → List ScoredNode → List ScoredNode)

namespace Postprocessor

/-- Whether a node has at least the given score. -/
def reaches (minScore : Binary) (n : ScoredNode) : Bool := n.score.any fun x ↦ minScore.le x

/-- Whether a text contains another. -/
def contains (cs ws : List Char) : Bool :=
  ws.isPrefixOf cs || match cs with
    | [] => false
    | _ :: cs => contains cs ws

/-- The nodes that are left, in their new order. -/
def apply (q : Query) (nodes : List ScoredNode) : Postprocessor → List ScoredNode
  | cutoff minScore => nodes.filter (reaches minScore)
  | reverse => nodes.reverse
  | skip count => nodes.drop count
  | matching => nodes.filter fun n ↦ contains n.text.toList q.text.toList
  | custom f => f q nodes

/-- What applying a postprocessor reports. -/
def notices (q : Query) (nodes : List ScoredNode) : Postprocessor → List Log.Entry
  | cutoff minScore =>
    let threshold := Binary.Format.double.convert minScore
    [⟨.debug, "Similarity cutoff applied",
      [("min_score", .text (Binary.Layout.plain.render .double threshold)),
        ("before", .number nodes.length),
        ("after", .number ((cutoff minScore).apply q nodes).length)]⟩]
  | _ => []

/-- The nodes that several postprocessors leave, applied one after another. -/
def applyAll (q : Query) (ps : List Postprocessor) (nodes : List ScoredNode) : List ScoredNode :=
  ps.foldl (fun nodes p ↦ p.apply q nodes) nodes

/-- What applying several postprocessors reports. -/
def noticesOfAll (q : Query) : List Postprocessor → List ScoredNode → List Log.Entry
  | [], _ => []
  | p :: ps, nodes => p.notices q nodes ++ noticesOfAll q ps (p.apply q nodes)

end Postprocessor

end CitedAnswers.Synthesis

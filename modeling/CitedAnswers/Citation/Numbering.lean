import CitedAnswers.Chunking.Splitter
import CitedAnswers.Node

/-!
# Numbering sources

`Citation.sources` cuts passages into small nodes and labels them with numbers from one upwards,
across all passages and in their order. Each node carries the score, metadata and links of its
passage, and a position computed from that of the passage: one character is taken to lie between two
chunks.

Positions are computed by adding sizes, and a passage may start at any size. The definitions here
compute them exactly. `Citation.sums` lists all sums that are formed on the way, and numbering comes
to its nodes only if each of them is a size; otherwise the program stops (`Citation.build?`).
-/

namespace CitedAnswers.Citation

open Chunking (Chunk Splitter)

/-- The positions of chunks of a passage, the first of which starts at `offset`: each starts its
overlap before its offset, and the offset of the next is one character past its length. -/
def windowsFrom (offset : Nat) : List Chunk → List Position
  | [] => []
  | c :: cs =>
    let start := offset - c.overlap
    ⟨start, start + c.length⟩ :: windowsFrom (offset + (c.length + 1)) cs

/-- The sums formed for the positions of chunks, in the order in which they are formed: for each
chunk the next offset, in two steps, and the end of its position. -/
def sumsFrom (offset : Nat) : List Chunk → List Nat
  | [] => []
  | c :: cs =>
    let room := c.length + 1
    let next := offset + room
    let stop := offset - c.overlap + c.length
    [room, next, stop] ++ sumsFrom next cs

/-- Where the text of a passage starts in its document. -/
def baseOf (passage : ScoredNode) : Nat := (passage.node.position.map Position.start).getD 0

/-- The node of a chunk. -/
def source (passage : ScoredNode) (number : Nat) (c : Chunk) (p : Position) : ScoredNode where
  node :=
    { text := Node.label number c.text
      metadata := some (passage.node.metadata.getD [])
      links := some (passage.node.links.getD [])
      position := some p }
  score := passage.score

/-- The nodes of chunks, numbered from `number`. -/
def number (passage : ScoredNode) (number : Nat) : List (Chunk × Position) → List ScoredNode
  | [] => []
  | (c, p) :: cs => source passage number c p :: Citation.number passage (number + 1) cs

/-- The nodes of one passage, numbered from `first`. -/
def sourcesOf (s : Splitter) (passage : ScoredNode) (first : Nat) : List ScoredNode :=
  let chunks := s.split passage.text
  number passage first (chunks.zip (windowsFrom (baseOf passage) chunks))

/-- The nodes of passages, numbered from `first`. -/
def sourcesFrom (s : Splitter) (first : Nat) : List ScoredNode → List ScoredNode
  | [] => []
  | p :: ps =>
    let nodes := sourcesOf s p first
    nodes ++ sourcesFrom s (first + nodes.length) ps

/-- The nodes of passages, numbered from one. -/
def sources (s : Splitter) (passages : List ScoredNode) : List ScoredNode :=
  sourcesFrom s 1 passages

/-- The sums formed for the nodes of a passage. -/
def sums (s : Splitter) (passage : ScoredNode) : List Nat :=
  sumsFrom (baseOf passage) (s.split passage.text)

/-- The nodes of passages, numbered from one, if all sums are sizes. Otherwise the program stops at
the first that is none. -/
def build? (s : Splitter) (passages : List ScoredNode) : Option (List ScoredNode) :=
  if passages.all fun p ↦ (sums s p).all Size.isSize then some (sources s passages) else none

/-- What is reported once the nodes of passages are numbered. -/
def summary (s : Splitter) (passages : List ScoredNode) : Log.Entry :=
  ⟨.debug, "Citation nodes built",
    [("passage_count", .number passages.length),
      ("citation_count", .number (sources s passages).length)]⟩

end CitedAnswers.Citation

import CitedAnswers.Chunking.Splitter
import CitedAnswers.Node

/-!
# Documents

A `Document` is a whole text before it is split. `Document.passages` cuts it into passages, each
with its place in the document.
-/

namespace CitedAnswers

/-- A whole text. -/
structure Document where
  /-- What its passages name as their source. -/
  id : Option String := none
  text : String
  metadata : Metadata := []
deriving Repr

namespace Document

open Chunking (Chunk Splitter)

/-- The positions of chunks in the text they were cut from. The chunk before them ends at `cursor`,
and each chunk starts its overlap before the end of the one before. -/
def positionsFrom (cursor : Nat) : List Chunk → List Position
  | [] => []
  | c :: cs =>
    let start := cursor - c.overlap
    ⟨start, start + c.length⟩ :: positionsFrom (start + c.length) cs

/-- The passage of a chunk. -/
def passage (d : Document) (c : Chunk) (p : Position) : ScoredNode where
  node :=
    { text := c.text
      metadata := if d.metadata.isEmpty then none else some d.metadata
      links := d.id.map fun id ↦ [(.source, id)]
      position := some p }

/-- The passages of a document. -/
def passages (s : Splitter) (d : Document) : List ScoredNode :=
  let chunks := s.split d.text
  List.zipWith d.passage chunks (positionsFrom 0 chunks)

/-- The fields of a document in JSON. -/
def record : Json.Record Document where
  blank := ⟨none, "", []⟩
  slots :=
    [.of "doc_id" .defaulted (.option .string) fun i d ↦ { d with id := i },
      .of "text" .required .string fun s d ↦ { d with text := s },
      .of "metadata" .defaulted metadataReader fun m d ↦ { d with metadata := m }]

/-- A document as JSON. A missing name is written `null`. -/
def toTree (d : Document) : Json.Tree :=
  .ofFields
    [("doc_id", some ((d.id.map Json.Tree.ofString).getD .null)),
      ("text", some (.ofString d.text)),
      ("metadata", some (metadataTree d.metadata))]

end Document

end CitedAnswers

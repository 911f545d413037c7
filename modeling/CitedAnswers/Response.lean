import CitedAnswers.Node

/-!
# Responses

A `Response` is an answer with the nodes it rests on. `Response.listing` lists those nodes for a
reader, each cut down to a given number of characters.
-/

namespace CitedAnswers

/-- An answer and the nodes it rests on. -/
structure Response where
  /-- The answer, if there was anything to make one from. -/
  answer : Option String
  /-- The numbered sources, followed by any additional nodes. -/
  sources : List ScoredNode
  metadata : Option Metadata := none
deriving Repr

namespace Response

/-- The answer for a reader. -/
def display (r : Response) : String := r.answer.getD "None"

/-- A text cut down to a number of characters, three of which are then dots. -/
def shorten (cs : List Char) (length : Nat) : List Char :=
  if cs.length ≤ length then cs else cs.take (length - 3) ++ ['.', '.', '.']

/-- The document a node was cut from. -/
def documentOf (n : ScoredNode) : String :=
  ((n.node.links.getD []).lookup .source).getD "none"

/-- A line of the listing. -/
def listingLine (length : Nat) (n : ScoredNode) : List Char :=
  "> Source (Doc id: ".toList ++ (documentOf n).toList ++ "): ".toList ++
    shorten n.text.toList length

/-- The nodes for a reader: a line each, with a blank line between. -/
def listing (r : Response) (length : Nat) : String :=
  String.ofList (List.intercalate ['\n', '\n'] (r.sources.map (listingLine length)))

/-- The fields of a response in JSON. A missing answer is the same as none, except in an array. -/
def record : Json.Record Response where
  blank := ⟨none, [], none⟩
  slots :=
    [.of "response" .optional (.option .string) fun a r ↦ { r with answer := a },
      .of "source_nodes" .defaulted ScoredNode.listReader fun l r ↦ { r with sources := l },
      .of "metadata" .defaulted (.option metadataReader) fun m r ↦ { r with metadata := m }]

/-- A response as JSON. A missing answer is written `null`, missing metadata are left out. -/
def toTree (r : Response) : Json.Tree :=
  .ofFields
    [("response", some ((r.answer.map Json.Tree.ofString).getD .null)),
      ("source_nodes", some (ScoredNode.listTree r.sources)),
      ("metadata", r.metadata.map metadataTree)]

end Response

end CitedAnswers

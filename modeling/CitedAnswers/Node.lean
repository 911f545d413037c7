import CitedAnswers.Json.Record

/-!
# Nodes

A `Node` is a unit of text with what is known about it: metadata, links to other nodes and its place
in the document it was cut from. A `ScoredNode` adds the score given by whoever retrieved it.
Passages and the numbered sources cut from them are both scored nodes.

The text of a numbered source starts with a label, the line `Source n:`. `Node.label` writes it and
`Node.citationNumber?` reads the number back.
-/

namespace CitedAnswers

/-- Metadata: a dictionary of JSON values. -/
abbrev Metadata := List (String × Json.Value)

/-- The kinds of link from a node to another. -/
inductive Relationship where
  /-- The document the node was cut from. -/
  | source
  | previous
  | next
  | parent
  | child
deriving DecidableEq, Repr

namespace Relationship

/-- The kinds in their order. -/
def all : List Relationship := [source, previous, next, parent, child]

/-- The name of a kind. -/
def name : Relationship → String
  | source => "source"
  | previous => "previous"
  | next => "next"
  | parent => "parent"
  | child => "child"

/-- The kind of a name. -/
def ofName? (s : String) : Option Relationship := all.find? fun r ↦ r.name == s

/-- The place of a kind in the order. -/
def index : Relationship → Nat
  | source => 0
  | previous => 1
  | next => 2
  | parent => 3
  | child => 4

/-- The order of kinds. -/
def before (r s : Relationship) : Bool := decide (r.index < s.index)

end Relationship

/-- Links to other nodes, in the order of their kinds. -/
abbrev Links := List (Relationship × String)

/-- A window of characters in a document. -/
structure Position where
  start : Nat
  stop : Nat
deriving DecidableEq, Repr

/-- The number of characters. -/
def Position.length (p : Position) : Nat := p.stop - p.start

/-- A unit of text. -/
structure Node where
  text : String
  metadata : Option Metadata := none
  links : Option Links := none
  position : Option Position := none
deriving Repr

/-- A node with its score. -/
structure ScoredNode where
  node : Node
  score : Option Binary := none
deriving Repr

/-- Whether nothing is known of a node, not even a text. -/
def ScoredNode.isBlank (n : ScoredNode) : Bool :=
  n.node.text.isEmpty && n.node.metadata.isNone && n.node.links.isNone &&
    n.node.position.isNone && n.score.isNone

/-- The text of the node. -/
def ScoredNode.text (n : ScoredNode) : String := n.node.text

namespace Node

/-! ### Labels -/

/-- What a label starts with. -/
def labelStart : List Char := ['S', 'o', 'u', 'r', 'c', 'e', ' ']

/-- A chunk of text labelled as source number `n`. -/
def label (n : Nat) (chunk : String) : String :=
  String.ofList (labelStart ++ Size.digits n ++ ':' :: '\n' :: chunk.toList ++ ['\n'])

/-- What stands before the first colon at the end of a line. -/
def beforeColon? : List Char → Option (List Char)
  | ':' :: '\n' :: _ => some []
  | c :: cs => (beforeColon? cs).map (c :: ·)
  | [] => none

/-- What follows a given start. -/
def dropStart? : List Char → List Char → Option (List Char)
  | [], cs => some cs
  | s :: ss, c :: cs => if s = c then dropStart? ss cs else none
  | _ :: _, [] => none

/-- The number of a label. -/
def numberOfLabel? (cs : List Char) : Option Nat :=
  (dropStart? labelStart cs).bind fun rest ↦ (beforeColon? rest).bind Size.read?

/-- The number of the label the text starts with. -/
def citationNumber? (n : Node) : Option Nat := numberOfLabel? n.text.toList

end Node

/-- The number of the label the text starts with. -/
def ScoredNode.citationNumber? (n : ScoredNode) : Option Nat := n.node.citationNumber?

/-! ### JSON -/

open Json (Reader Record Tree)

/-- Metadata in JSON. -/
def metadataReader : Reader Metadata := Reader.dictionary Json.keyBefore some Reader.value

/-- Metadata as JSON. -/
def metadataTree (m : Metadata) : Tree := (Json.Value.object m).toTree

/-- Links in JSON. -/
def linksReader : Reader Links :=
  Reader.dictionary Relationship.before Relationship.ofName? Reader.string

/-- Links as JSON. -/
def linksTree (ls : Links) : Tree :=
  .ofFields (ls.map fun (r, s) ↦ (r.name, some (.ofString s)))

/-- The fields of a position in JSON. -/
def Position.record : Record Position where
  blank := ⟨0, 0⟩
  slots :=
    [.of "start" .required .size fun n p ↦ { p with start := n },
      .of "end" .required .size fun n p ↦ { p with stop := n }]

/-- A position as JSON. -/
def Position.toTree (p : Position) : Tree :=
  .ofFields [("start", some (.ofNat p.start)), ("end", some (.ofNat p.stop))]

/-- The fields of a node in JSON. -/
def Node.record : Record Node where
  blank := ⟨"", none, none, none⟩
  slots :=
    [.of "text" .required .string fun s n ↦ { n with text := s },
      .of "metadata" .defaulted (.option metadataReader) fun m n ↦ { n with metadata := m },
      .of "relationships" .defaulted (.option linksReader) fun l n ↦ { n with links := l },
      .of "position" .defaulted (.option Position.record.read) fun p n ↦ { n with position := p }]

/-- A node as JSON. What is missing is left out. -/
def Node.toTree (n : Node) : Tree :=
  .ofFields
    [("text", some (.ofString n.text)),
      ("metadata", n.metadata.map metadataTree),
      ("relationships", n.links.map linksTree),
      ("position", n.position.map Position.toTree)]

/-- The fields of a scored node in JSON. -/
def ScoredNode.record : Record ScoredNode where
  blank := ⟨⟨"", none, none, none⟩, none⟩
  slots :=
    [.of "node" .required Node.record.read fun n s ↦ { s with node := n },
      .of "score" .defaulted (.option .single) fun x s ↦ { s with score := x }]

/-- A scored node as JSON. A missing score is left out. -/
def ScoredNode.toTree (n : ScoredNode) : Tree :=
  .ofFields
    [("node", some n.node.toTree), ("score", n.score.map (.ofBinary .single))]

/-- A list of scored nodes in JSON. -/
def ScoredNode.listReader : Reader (List ScoredNode) := .list ScoredNode.record.read

/-- A list of scored nodes as JSON. -/
def ScoredNode.listTree (ns : List ScoredNode) : Tree := .ofList (ns.map ScoredNode.toTree)

end CitedAnswers

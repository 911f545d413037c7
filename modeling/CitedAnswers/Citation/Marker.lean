import CitedAnswers.Ascending
import CitedAnswers.Node

/-!
# Markers in answers

An answer cites its sources by markers: numbers in square brackets, separated by commas with blanks
around them, such as `[2]` or `[1, 3]`. `Marker.numbers` collects the numbers of all markers in
ascending order, and `cited` the nodes that carry them.

No marker contains an opening bracket but its first character, so markers never overlap, and looking
for one at every bracket finds them all.
-/

namespace CitedAnswers.Citation

namespace Marker

/-- The blanks that may surround a comma. -/
def isBlank (c : Char) : Bool :=
  c == ' ' || c == '\t' || c == '\n' || c == '\x0b' || c == '\x0c' || c == '\r'

/-- What stands before the rest of a marker. -/
inductive Place where
  /-- The opening bracket. -/
  | bracket
  /-- The digits of an item, last first. -/
  | digits (seen : List Char)
  /-- Blanks after an item. -/
  | blanks
  /-- A comma, and perhaps blanks. -/
  | comma

/-- The items of a marker from a place within it to its closing bracket, if that is what the text
starts with. -/
def items : Place → List Char → Option (List (List Char))
  | _, [] => none
  | .bracket, c :: cs => if c.isDigit then items (.digits [c]) cs else none
  | .digits ds, c :: cs =>
    if c.isDigit then items (.digits (c :: ds)) cs
    else if c = ']' then some [ds.reverse]
    else if c = ',' then (items .comma cs).map (ds.reverse :: ·)
    else if isBlank c then (items .blanks cs).map (ds.reverse :: ·)
    else none
  | .blanks, c :: cs =>
    if isBlank c then items .blanks cs
    else if c = ',' then items .comma cs
    else none
  | .comma, c :: cs =>
    if isBlank c then items .comma cs
    else if c.isDigit then items (.digits [c]) cs
    else none

/-- The items of all markers of a text. -/
def allItems : List Char → List (List Char)
  | [] => []
  | '[' :: cs => (items .bracket cs).getD [] ++ allItems cs
  | _ :: cs => allItems cs

/-- The numbers of all markers of a text, ascending and without repeats. An item too large for a
number counts for nothing. -/
def numbers (answer : String) : List Nat :=
  Ascending.ofList ((allItems answer.toList).filterMap Size.ofDigits?)

end Marker

/-- A node and its place in a list. -/
structure Cited where
  number : Nat
  index : Nat
  node : ScoredNode

/-- The first node with the given number. -/
def find? (nodes : List ScoredNode) (n : Nat) : Option Cited :=
  let index := nodes.findIdx fun m ↦ m.citationNumber? == some n
  nodes[index]?.map fun m ↦ ⟨n, index, m⟩

/-- The nodes an answer cites, in the order of their numbers. -/
def cited (answer : String) (nodes : List ScoredNode) : List Cited :=
  (Marker.numbers answer).filterMap (find? nodes)

end CitedAnswers.Citation

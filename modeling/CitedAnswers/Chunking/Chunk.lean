import CitedAnswers.Chunking.Window

/-!
# Chunks

A `Chunk` is a stretch of a text together with the number of its first characters that repeat the
end of what the chunks before it cover. Leaving the repeated characters out and joining the rest
gives the text back.
-/

namespace CitedAnswers.Chunking

/-- A stretch of a text. -/
structure Chunk where
  text : String
  /-- The number of characters at the start that earlier chunks cover. -/
  overlap : Nat
deriving DecidableEq, Repr

namespace Chunk

/-- The number of characters. -/
def length (c : Chunk) : Nat := c.text.length

/-- The characters that no earlier chunk covers. -/
def fresh (c : Chunk) : List Char := c.text.toList.drop c.overlap

/-- The chunks of a text at the given spans, of which earlier ones cover the text up to
`covered`. -/
def ofSpansFrom (cs : List Char) (covered : Nat) : List Span → List Chunk
  | [] => []
  | s :: ss =>
    let text := (cs.drop s.start).take (s.stop - s.start)
    ⟨String.ofList text, min (covered - s.start) text.length⟩ ::
      ofSpansFrom cs (max covered s.stop) ss

/-- The chunks of a text at the given spans. -/
def ofSpans (cs : List Char) (ss : List Span) : List Chunk := ofSpansFrom cs 0 ss

/-- The text that chunks give back. -/
def rejoin (cs : List Chunk) : List Char := cs.flatMap fresh

end Chunk

end CitedAnswers.Chunking

import CitedAnswers.Chunking.Chunk
import CitedAnswers.Chunking.Sizing
import CitedAnswers.Log

/-!
# Splitters

A `Splitter` cuts a text into chunks. The usual one slides a window of a valid sizing over the text;
any other function from texts to chunks can take its place, such as the one that cuts at line ends.
-/

namespace CitedAnswers.Chunking

/-- A sizing that can be used, and the vocabulary that tokens are counted with. -/
structure Sliding where
  sizing : Sizing
  valid : sizing.Valid
  vocabulary : Token.Vocabulary

namespace Sliding

/-- The splitter of a sizing, or the failure of one that cannot be used. -/
def ofSizing (v : Token.Vocabulary) (s : Sizing) : Except Failure Sliding :=
  match h : s.fault? with
  | none => .ok ⟨s, Sizing.fault?_eq_none_iff.1 h, v⟩
  | some f => .error f

/-- The window that is moved over a text. -/
def window (s : Sliding) : Window :=
  ⟨s.sizing.measure.size s.vocabulary, s.sizing.size, s.sizing.overlap⟩

/-- The chunks of a text. -/
def split (s : Sliding) (text : String) : List Chunk :=
  Chunk.ofSpans text.toList (s.window.spans text.toList)

/-- What splitting a text reports. -/
def notices (s : Sliding) (text : String) : List Log.Entry :=
  if text.isEmpty then []
  else
    [⟨.debug, "Text split",
      [("input_len", .number (Unicode.byteCount text.toList)),
        ("chunk_count", .number (s.split text).length),
        ("chunk_size", .number s.sizing.size),
        ("chunk_overlap", .number s.sizing.overlap)]⟩]

end Sliding

/-- A way of cutting texts into chunks. -/
inductive Splitter where
  | sliding (s : Sliding)
  | custom (split : String → List Chunk)

namespace Splitter

/-- The splitter of a sizing, or the failure of one that cannot be used. -/
def ofSizing (v : Token.Vocabulary) (s : Sizing) : Except Failure Splitter :=
  (Sliding.ofSizing v s).map sliding

/-- The chunks of a text. -/
def split : Splitter → String → List Chunk
  | sliding s => s.split
  | custom f => f

/-- What splitting a text reports. -/
def notices : Splitter → String → List Log.Entry
  | sliding s => s.notices
  | custom _ => fun _ ↦ []

/-- The lines of a text without their ends. A line that the text does not end is a line too, unless
it is empty. -/
def linesOf (line : List Char) : List Char → List (List Char)
  | [] => if line.isEmpty then [] else [line.reverse]
  | '\n' :: cs =>
    let line := match line with
      | '\r' :: ds => ds
      | ds => ds
    line.reverse :: linesOf [] cs
  | c :: cs => linesOf (c :: line) cs

/-- Cuts a text into its lines. -/
def lines : Splitter :=
  .custom fun text ↦ (linesOf [] text.toList).map fun l ↦ ⟨String.ofList l, 0⟩

/-- Gives the same chunks for every text. -/
def fixed (chunks : List Chunk) : Splitter := .custom fun _ ↦ chunks

end Splitter

end CitedAnswers.Chunking

import CitedAnswers.Chunking.Line
import CitedAnswers.Unicode.Bytes
import CitedAnswers.Unicode.Segment

/-!
# Levels of sections

A text can be cut into sections at several levels: at its line runs of a given rank or more, or into
sentences, words, grapheme clusters or characters. A chunk is put together from the sections of one
level, and `Level.plan` chooses it: the highest level whose first section still fits, the line runs
before all others.

When the first section of the next level up is too long, sections that begin beyond its end are of
no use to the chunk at hand; the plan carries that end as its limit.
-/

namespace CitedAnswers.Chunking

/-- The rest of a text from a cursor on, with its line marks. -/
structure Rest where
  chars : List Char
  marks : List LineMark

/-- The whole of a text. -/
def Rest.ofText (cs : List Char) : Rest := ⟨cs, LineRun.marks cs⟩

/-- The rest of a text after some more characters. -/
def Rest.drop (r : Rest) (n : Nat) : Rest := ⟨r.chars.drop n, r.marks.drop n⟩

/-- A way of cutting a text into sections. -/
inductive Level where
  | lines (rank : Nat)
  | sentences
  | words
  | clusters
  | characters
deriving DecidableEq, Repr

/-- The lengths of the segments of a text. -/
def segmentLengths (σ : Unicode.Segmenter) : List Char → List Nat
  | [] => []
  | c :: cs =>
    let more := σ.reach (σ.start c) cs
    (more + 1) :: segmentLengths σ (cs.drop more)
termination_by cs => cs.length
decreasing_by simp only [List.length_drop, List.length_cons]; omega

/-- The length of the segment a text starts with. -/
def segmentLength (σ : Unicode.Segmenter) : List Char → Nat
  | [] => 0
  | c :: cs => σ.reach (σ.start c) cs + 1

namespace Level

/-- The lengths of the sections of the rest of a text. -/
def sections (r : Rest) : Level → List Nat
  | lines rank => LineRun.sections rank r.marks
  | sentences => segmentLengths Unicode.sentence r.chars
  | words => segmentLengths Unicode.word r.chars
  | clusters => segmentLengths Unicode.grapheme r.chars
  | characters => r.chars.map fun _ ↦ 1

/-- The length of the first section. -/
def firstLength (r : Rest) : Level → Nat
  | lines rank => ((LineRun.sections rank r.marks).head?).getD 0
  | sentences => segmentLength Unicode.sentence r.chars
  | words => segmentLength Unicode.word r.chars
  | clusters => segmentLength Unicode.grapheme r.chars
  | characters => min 1 r.chars.length

/-- The levels of the line runs of a text, lowest first. -/
def ofLines (r : Rest) : List Level := (LineRun.ranks r.marks).map lines

/-- The levels that every text has, lowest first. -/
def universal : List Level := [characters, clusters, words, sentences]

end Level

/-- A level with the length of its first section in characters and in bytes. -/
structure Candidate where
  level : Level
  length : Nat
  bytes : Nat

/-- The candidate of a level. -/
def Candidate.of (r : Rest) (l : Level) : Candidate :=
  let n := l.firstLength r
  ⟨l, n, Unicode.byteCount (r.chars.take n)⟩

/-- Leaves out a level whose first section is no shorter than that of the level above it. -/
def Candidate.thin : List Candidate → List Candidate
  | a :: b :: cs => if b.bytes ≤ a.bytes then thin (b :: cs) else a :: thin (b :: cs)
  | cs => cs

/-- The highest level that is reached while the first sections fit the capacity, and the end in
bytes of the first one that does not. -/
def Candidate.climb (size : List Char → Nat) (capacity : Nat) (cs : List Char)
    (best : Option Level) : List Candidate → Option Level × Option Nat
  | [] => (best, none)
  | a :: as =>
    if capacity < a.bytes ∧ capacity < size (cs.take a.length) then (best, some a.bytes)
    else climb size capacity cs (some a.level) as

/-- The level of the sections for the next chunk, and the limit in bytes beyond which no section may
begin. -/
structure Plan where
  level : Level
  limit : Option Nat

/-- The smaller of two limits, one or both of which may be missing. -/
def tighter : Option Nat → Option Nat → Option Nat
  | some a, some b => some (min a b)
  | some a, none => some a
  | none, b => b

/-- Chooses the level for the next chunk. -/
def Plan.of (size : List Char → Nat) (capacity : Nat) (r : Rest) : Plan :=
  let climb (ls : List Level) :=
    Candidate.climb size capacity r.chars none (Candidate.thin (ls.map (Candidate.of r)))
  match climb (Level.ofLines r) with
  | (some l, limit) => ⟨l, limit⟩
  | (none, limit) =>
    let (l, limit') := climb Level.universal
    ⟨l.getD .characters, tighter limit limit'⟩

end CitedAnswers.Chunking

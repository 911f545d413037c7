import CitedAnswers.Failure
import CitedAnswers.Json.Record
import CitedAnswers.Token.Vocabulary

/-!
# Sizings

A `Sizing` says how large a chunk of a text may be and how much of the text before it a chunk may
repeat, both counted in characters or in tokens. The overlap has to be smaller than the size:
otherwise a chunk could consist of repeated text only and splitting would not get on.
-/

namespace CitedAnswers

/-- What sizes are counted in. -/
inductive Measure where
  | characters
  | tokens
deriving DecidableEq, Repr

namespace Measure

/-- The name of a measure. -/
def name : Measure → String
  | characters => "characters"
  | tokens => "tokens"

/-- The measure of a name. -/
def ofName? (s : String) : Option Measure := [characters, tokens].find? fun m ↦ m.name == s

/-- The size of a text. -/
def size (v : Token.Vocabulary) : Measure → List Char → Nat
  | characters, cs => cs.length
  | tokens, cs => v.size cs

/-- A measure in JSON. -/
def reader : Json.Reader Measure := Json.Reader.name ofName?

/-- A measure as JSON. -/
def toTree (m : Measure) : Json.Tree := .ofString m.name

end Measure

/-- The sizes of chunks. -/
structure Sizing where
  size : Nat
  overlap : Nat
  measure : Measure
deriving DecidableEq, Repr

namespace Sizing

/-- The sizing of passages cut from documents. -/
def source : Sizing := ⟨512, 20, .tokens⟩

/-- The sizing of numbered sources cut from passages. -/
def citation : Sizing := ⟨256, 20, .tokens⟩

/-- A sizing in characters. -/
def characters (size overlap : Nat) : Sizing := ⟨size, overlap, .characters⟩

/-- What is wrong with a sizing. -/
def fault? (s : Sizing) : Option Failure :=
  if s.size = 0 then some (.sizing s.size s.overlap "chunk size must be greater than zero")
  else if s.overlap ≥ s.size then
    some (.sizing s.size s.overlap "chunk overlap must be smaller than chunk size")
  else none

/-- Refuses a sizing that something is wrong with. -/
def check (s : Sizing) : Except Failure Unit := s.fault?.elim (.ok ()) .error

/-- A sizing can be used when its overlap is smaller than its size. -/
def Valid (s : Sizing) : Prop := s.overlap < s.size

instance (s : Sizing) : Decidable s.Valid := inferInstanceAs (Decidable (s.overlap < s.size))

/-- A sizing can be used exactly if nothing is wrong with it. -/
theorem fault?_eq_none_iff {s : Sizing} : s.fault? = none ↔ s.Valid := by
  rw [fault?, Valid]
  split
  · simp only [reduceCtorEq, false_iff]; omega
  · split
    · simp only [reduceCtorEq, false_iff]; omega
    · simp only [true_iff]; omega

/-! ### JSON -/

/-- The fields of a sizing in JSON. -/
def record : Json.Record Sizing where
  blank := ⟨0, 0, .characters⟩
  slots :=
    [.of "chunk_size" .required .size fun n s ↦ { s with size := n },
      .of "chunk_overlap" .required .size fun n s ↦ { s with overlap := n },
      .of "measure" .required Measure.reader fun m s ↦ { s with measure := m }]

/-- A sizing as JSON. -/
def toTree (s : Sizing) : Json.Tree :=
  .ofFields
    [("chunk_size", some (.ofNat s.size)),
      ("chunk_overlap", some (.ofNat s.overlap)),
      ("measure", some s.measure.toTree)]

end Sizing

end CitedAnswers

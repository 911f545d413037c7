import CitedAnswers.Json.Record

/-!
# Options of a synthesis

How sources are given to a language model: as many at a time as fit a budget of characters, or one
at a time.
-/

namespace CitedAnswers.Synthesis

/-- How sources are given to a language model. -/
inductive Mode where
  /-- As many sources in a prompt as fit the budget. -/
  | compact
  /-- One source in a prompt. -/
  | refine
deriving DecidableEq, Repr

namespace Mode

/-- The name of a mode. -/
def name : Mode → String
  | compact => "compact"
  | refine => "refine"

/-- The mode of a name. -/
def ofName? (s : String) : Option Mode := [compact, refine].find? fun m ↦ m.name == s

/-- A mode in JSON. -/
def reader : Json.Reader Mode := Json.Reader.name ofName?

/-- A mode as JSON. -/
def toTree (m : Mode) : Json.Tree := .ofString m.name

end Mode

/-- The options of a synthesis. -/
structure Options where
  mode : Mode
  /-- The number of characters of sources in a prompt. -/
  budget : Nat
deriving DecidableEq, Repr

namespace Options

/-- The usual options. -/
def standard : Options := ⟨.compact, 8000⟩

/-- The fields of the options in JSON. -/
def record : Json.Record Options where
  blank := standard
  slots :=
    [.of "response_mode" .required Mode.reader fun m o ↦ { o with mode := m },
      .of "max_context_chars" .required .size fun n o ↦ { o with budget := n }]

/-- Options as JSON. -/
def toTree (o : Options) : Json.Tree :=
  .ofFields
    [("response_mode", some o.mode.toTree), ("max_context_chars", some (.ofNat o.budget))]

end Options

end CitedAnswers.Synthesis

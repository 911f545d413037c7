import CitedAnswers.Chunking.Sizing
import CitedAnswers.Synthesis.Options

/-!
# Settings

The `Settings` of an application: how documents and passages are cut, how answers are made, and how
the application reports on itself. `Settings.check` refuses what an engine cannot be built with.
-/

namespace CitedAnswers

/-- The version of the application. -/
def version : String := "0.1.0"

/-- How an application reports on itself. -/
structure Reporting where
  level : String
  /-- Whether the log is written as JSON. -/
  structured : Bool
  /-- The name of the service in the log. -/
  service : String
deriving DecidableEq, Repr

namespace Reporting

/-- The usual way of reporting. -/
def standard : Reporting := ⟨"info", false, "citeforge"⟩

/-- The fields in JSON. -/
def record : Json.Record Reporting where
  blank := standard
  slots :=
    [.of "log_level" .required .string fun s r ↦ { r with level := s },
      .of "json_logging" .required .bool fun b r ↦ { r with structured := b },
      .of "service_name" .required .string fun s r ↦ { r with service := s }]

/-- The way of reporting as JSON. -/
def toTree (r : Reporting) : Json.Tree :=
  .ofFields
    [("log_level", some (.ofString r.level)),
      ("json_logging", some (.bool r.structured)),
      ("service_name", some (.ofString r.service))]

end Reporting

/-- The settings of an application. -/
structure Settings where
  /-- The sizes of passages. -/
  source : Sizing
  /-- The sizes of numbered sources. -/
  citation : Sizing
  synthesis : Synthesis.Options
  reporting : Reporting
deriving DecidableEq, Repr

namespace Settings

/-- The usual settings. -/
def standard : Settings := ⟨.source, .citation, .standard, .standard⟩

/-- Refuses settings that an engine cannot be built with, the first section at fault deciding. -/
def check (s : Settings) : Except Failure Unit := do
  s.source.check
  s.citation.check
  if s.synthesis.budget = 0 then
    .error (.configuration "synthesis.max_context_chars must be greater than zero")

/-- The sections in JSON. -/
def record : Json.Record Settings where
  blank := standard
  slots :=
    [.of "source" .required Sizing.record.read fun x s ↦ { s with source := x },
      .of "citation" .required Sizing.record.read fun x s ↦ { s with citation := x },
      .of "synthesis" .required Synthesis.Options.record.read fun x s ↦ { s with synthesis := x },
      .of "observability" .required Reporting.record.read fun x s ↦ { s with reporting := x }]

/-- Settings as JSON. -/
def toTree (s : Settings) : Json.Tree :=
  .ofFields
    [("source", some s.source.toTree),
      ("citation", some s.citation.toTree),
      ("synthesis", some s.synthesis.toTree),
      ("observability", some s.reporting.toTree)]

end Settings

end CitedAnswers

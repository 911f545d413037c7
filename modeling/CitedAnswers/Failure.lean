import CitedAnswers.Json.Record

/-!
# Failures

A `Failure` is one of the causes for which building an engine, loading settings or answering a query
ends without a result. Every cause has a wording, a code with a number, and a category that tells
who has to act: whoever configured the engine, a collaborator of it, or its maker.
-/

namespace CitedAnswers

/-- Why something failed. -/
inductive Failure where
  /-- Chunks of the given size and overlap cannot be made. -/
  | sizing (size overlap : Nat) (reason : String)
  /-- The parts of an engine or the settings of its sections do not go together. -/
  | configuration (reason : String)
  /-- The settings cannot be read from their sources. -/
  | settings (reason : String)
  | retrieval (reason : String)
  | synthesis (reason : String)
  | languageModel (reason : String)
  | template (reason : String)
  /-- A run may not go from one state to the other. -/
  | transition (source target : String)
  | serialization (fault : Json.Fault) (reason : String)
  | io (reason : String)
  | internal (reason : String)
  /-- Any other failure of a collaborator, in its own words. -/
  | other (reason : String)
deriving DecidableEq, Repr

namespace Failure

/-- The wording of a failure. -/
def message : Failure → String
  | sizing size overlap reason =>
    "Invalid chunk configuration (size " ++ toString size ++ ", overlap " ++ toString overlap ++
      "): " ++ reason
  | configuration reason => "Configuration error: " ++ reason
  | settings reason => "Configuration source error: " ++ reason
  | retrieval reason => "Retrieval failed: " ++ reason
  | synthesis reason => "Synthesis failed: " ++ reason
  | languageModel reason => "Language model error: " ++ reason
  | template reason => "Template error: " ++ reason
  | transition source target => "Invalid query state transition: " ++ source ++ " -> " ++ target
  | serialization _ reason => "Serialization error: " ++ reason
  | io reason => "IO error: " ++ reason
  | internal reason => "Internal error: " ++ reason
  | other reason => reason

/-- The code of a failure. -/
inductive Code where
  | invalidChunkConfig
  | configurationError
  | retrievalError
  | synthesisError
  | languageModelError
  | upstreamError
  | templateError
  | invalidStateTransition
  | serializationError
  | ioError
  | internalError
deriving DecidableEq, Repr

/-- Who has to act on a failure. -/
inductive Category where
  | configuration
  | collaborator
  | internal
deriving DecidableEq, Repr

/-- The codes in the order of their numbers. -/
def Code.all : List Code :=
  [.invalidChunkConfig, .configurationError, .retrievalError, .synthesisError, .languageModelError,
    .upstreamError, .templateError, .invalidStateTransition, .serializationError, .ioError,
    .internalError]

/-- The number of a code: its category is the first digit. -/
def Code.number : Code → Nat
  | invalidChunkConfig => 1001
  | configurationError => 1002
  | retrievalError => 2001
  | synthesisError => 2002
  | languageModelError => 2003
  | upstreamError => 2004
  | templateError => 9001
  | invalidStateTransition => 9002
  | serializationError => 9003
  | ioError => 9004
  | internalError => 9005

/-- The name of a code. -/
def Code.name : Code → String
  | invalidChunkConfig => "INVALID_CHUNK_CONFIG"
  | configurationError => "CONFIGURATION_ERROR"
  | retrievalError => "RETRIEVAL_ERROR"
  | synthesisError => "SYNTHESIS_ERROR"
  | languageModelError => "LANGUAGE_MODEL_ERROR"
  | upstreamError => "UPSTREAM_ERROR"
  | templateError => "TEMPLATE_ERROR"
  | invalidStateTransition => "INVALID_STATE_TRANSITION"
  | serializationError => "SERIALIZATION_ERROR"
  | ioError => "IO_ERROR"
  | internalError => "INTERNAL_ERROR"

/-- The code of a name. -/
def Code.ofName? (s : String) : Option Code := Code.all.find? fun c ↦ c.name == s

/-- All categories. -/
def Category.all : List Category := [.configuration, .collaborator, .internal]

/-- The name of a category. -/
def Category.name : Category → String
  | configuration => "configuration"
  | collaborator => "collaborator"
  | internal => "internal"

/-- The category of a name. -/
def Category.ofName? (s : String) : Option Category := Category.all.find? fun c ↦ c.name == s

/-- The code of a failure. -/
def code : Failure → Code
  | sizing .. => .invalidChunkConfig
  | configuration _ | settings _ => .configurationError
  | retrieval _ => .retrievalError
  | synthesis _ => .synthesisError
  | languageModel _ => .languageModelError
  | template _ => .templateError
  | transition .. => .invalidStateTransition
  | serialization .. => .serializationError
  | io _ => .ioError
  | internal _ => .internalError
  | other _ => .upstreamError

/-- The category of a failure. A failure in a collaborator's own words is the collaborator's. -/
def category : Failure → Category
  | sizing .. | configuration _ | settings _ => .configuration
  | retrieval _ | synthesis _ | languageModel _ | other _ => .collaborator
  | template _ | transition .. | serialization .. | io _ | internal _ => .internal

/-- Whether a collaborator has to act. -/
def isCollaborator (f : Failure) : Bool := f.category == .collaborator

/-- Whether whoever configured the engine has to act. -/
def isConfiguration (f : Failure) : Bool := f.category == .configuration

end Failure

end CitedAnswers

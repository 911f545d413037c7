import CitedAnswers.Command.Arguments
import CitedAnswers.Engine.Draft
import CitedAnswers.Settings.Load
import CitedAnswers.Settings.Variables

/-!
# The command

The command answers a question from passages or a document, with a model that completes a prompt
with the prompt itself: its output shows what a model would be asked, and the numbered sources it
would see. How files are read is left to the caller, and so are the formats of settings files and
the vocabulary that tokens are counted with.
-/

namespace CitedAnswers.Command

open Chunking (Splitter)

/-- What running the command comes to. -/
structure Outcome where
  status : Nat
  output : String
  /-- The wording of a failure that is none of the command line. -/
  error : Option String
deriving DecidableEq, Repr

/-- The name of the command. -/
def name : String := "citeforge"

/-- The usage of the command. -/
def usage : String :=
  "Usage: " ++ name ++
    " [--config FILE] [--top-k N] [--async] (--passages FILE | --document FILE) QUESTION\n"

/-- Why the command fails. -/
inductive Complaint where
  | settings (cause : Failure)
  | unreadablePassages (path : String)
  | malformedPassages (path : String)
  | unreadableDocument (path : String)
  /-- Building the engine or answering the question failed. -/
  | failure (f : Failure)
deriving DecidableEq, Repr

/-- The wording of a complaint. -/
def Complaint.message : Complaint → String
  | settings _ => "Failed to load configuration"
  | unreadablePassages path => "Failed to read passages from " ++ path
  | malformedPassages path => "Invalid passage JSON in " ++ path
  | unreadableDocument path => "Failed to read document " ++ path
  | failure f => f.message

/-- The output with an answer and the list of its sources. -/
def report (r : Response) : String :=
  "Rendered prompt:\n" ++ r.display ++ "\n\nSources:\n" ++ r.listing 100 ++ "\n"

/-- The name of a document: the last part of its path. -/
def documentName (path : String) : String := String.ofList (Settings.lastPart path.toList)

namespace Origin

/-- The path of the file. -/
def path : Origin → String
  | passages p | document p => p

/-- The passages in the text of the file, of which there may be none. -/
def read (o : Origin) (s : Splitter) (text : Option String) :
    Except Complaint (List ScoredNode) :=
  match o, text with
  | passages p, none => .error (.unreadablePassages p)
  | document p, none => .error (.unreadableDocument p)
  | passages p, some text => (ScoredNode.listReader.run text).mapError fun _ ↦ .malformedPassages p
  | document p, some text =>
    .ok (Document.passages s { id := some (documentName p), text := text })

end Origin

/-- The answer to the question of a request, unless the program stops before. -/
def Request.answer (r : Request) (v : Token.Vocabulary) (s : Settings) (splitter : Splitter)
    (passages : List ScoredNode) : Except Failure (Option Response) := do
  let engine ← (Draft.ofChoices (.fixed ⟨passages, r.limit⟩)
    [.model (.echo "prompt-echo" 0), .options s.synthesis, .sourceSplitter splitter,
      .citationSizing s.citation, .observer .log]).build v
  let path : Path := if r.polled then .async else .blocking
  let query := engine.query path { text := r.question } .fresh
  let ((result, _), w) := engine.perform path query .fresh
  if Trace.stops w.trace then pure none else result.map some

/-- What a request comes to, with the settings for it and the text of its file. -/
def Request.run (r : Request) (v : Token.Vocabulary) (s : Settings) (text : Option String) :
    Except Complaint (Option Response) := do
  let splitter ← (Splitter.ofSizing v s.source).mapError .failure
  let passages ← r.origin.read splitter text
  (r.answer v s splitter passages).mapError .failure

/-- The outcome of a request. -/
def Outcome.ofResult : Except Complaint (Option Response) → Outcome
  | .ok (some r) => ⟨0, report r, none⟩
  | .ok none => ⟨101, "", none⟩
  | .error c => ⟨1, "", some c.message⟩

/-- The outcome of a command line that leads to no answer. -/
def Outcome.ofDetour : Detour → Outcome
  | .version => ⟨0, name ++ " " ++ version ++ "\n", none⟩
  | .help => ⟨0, usage, none⟩
  | .misuse => ⟨2, "", none⟩

/-- Runs the command. Environment variables that are not set may come from a file. -/
def run {m : Type → Type} [Monad m] (v : Token.Vocabulary) (formats : List Settings.Format)
    (access : FileAccess m) (env : Environment) (args : List String) : m Outcome := do
  match Request.ofArguments args with
  | .error d => pure (.ofDetour d)
  | .ok r =>
    let defaults ← access ".env"
    let env := (defaults.map env.addFile).getD env
    let settings ← match r.settings with
      | some path => Settings.loadFile formats access env path
      | none => Settings.load formats access env
    match settings with
    | .error f => pure (.ofResult (.error (.settings f)))
    | .ok s =>
      let text ← access r.origin.path
      pure (.ofResult (r.run v s text))

end CitedAnswers.Command

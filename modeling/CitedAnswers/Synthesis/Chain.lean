import CitedAnswers.Engine.Work
import CitedAnswers.Synthesis.Batch
import CitedAnswers.Synthesis.Postprocessor
import CitedAnswers.Synthesis.Prompts

/-!
# Chains of prompts

A `Chain` makes an answer from numbered sources with a language model. The sources left by the
postprocessors are put together to batches; the first batch asks for an answer, and every further
one for a better answer than the one before. The answer to the last prompt is the answer.

A `Synthesizer` is such a chain or any function in its place.
-/

namespace CitedAnswers.Synthesis

/-- What it takes to make an answer with a language model. -/
structure Chain where
  model : Model
  /-- Asks for an answer. -/
  answering : Template
  /-- Asks for a better answer. -/
  refining : Template
  options : Options
  postprocessors : List Postprocessor

namespace Chain

/-- The usual chain of a model. -/
def ofModel (m : Model) : Chain := ⟨m, .answering, .refining, .standard, []⟩

/-- The chain with another mode. -/
def withMode (c : Chain) (m : Mode) : Chain := { c with options := { c.options with mode := m } }

/-- The chain with another budget, which is at least one character. -/
def withBudget (c : Chain) (n : Nat) : Chain :=
  { c with options := { c.options with budget := max n 1 } }

/-- The chain with other options. -/
def withOptions (c : Chain) (o : Options) : Chain := (c.withMode o.mode).withBudget o.budget

/-- The chain with other templates. -/
def withTemplates (c : Chain) (answering refining : Template) : Chain :=
  { c with answering := answering, refining := refining }

/-- The chain with other postprocessors. -/
def withPostprocessors (c : Chain) (ps : List Postprocessor) : Chain :=
  { c with postprocessors := ps }

/-- The prompt for a batch, given the answer so far. -/
def prompt (c : Chain) (q : Query) (context : String) : Option String → Except Failure String
  | none => c.answering.render [("context_str", context), ("query_str", q.text)]
  | some answer =>
    c.refining.render
      [("existing_answer", answer), ("context_msg", context), ("query_str", q.text)]

/-- Goes through the batches, starting from the answer so far. -/
def answer (c : Chain) (q : Query) (sofar : Option String) :
    List String → Work (Except Failure (Option String))
  | [] => .done (.ok sofar)
  | b :: bs =>
    match c.prompt q b sofar with
    | .error f => .done (.error f)
    | .ok p => .predict p fun r ↦
      match r with
      | .error f => .done (.error f)
      | .ok a => answer c q (some a) bs

/-- What making an answer reports. -/
def notices (c : Chain) (q : Query) (nodes : List ScoredNode) : List Log.Entry :=
  let kept := Postprocessor.applyAll q c.postprocessors nodes
  Postprocessor.noticesOfAll q c.postprocessors nodes ++
    [⟨.debug, "Synthesizing answer",
      [("model", .text c.model.name),
        ("node_count", .number kept.length),
        ("call_count", .number (batches c.options kept).length)]⟩]

/-- Makes an answer from numbered sources. Additional nodes are only added to those it rests on. -/
def synthesize (c : Chain) (q : Query) (nodes : List ScoredNode)
    (additional : Option (List ScoredNode)) : Work (Except Failure Response) := do
  let kept := Postprocessor.applyAll q c.postprocessors nodes
  Work.noteAll (c.notices q nodes)
  let a ← c.answer q none (batches c.options kept)
  pure (a.map fun a ↦ ⟨a, kept ++ additional.getD [], none⟩)

end Chain

/-- A way of making answers from numbered sources. -/
inductive Synthesizer where
  | chain (c : Chain)
  | custom (answer : Query → List ScoredNode → Option (List ScoredNode) → Except Failure Response)

namespace Synthesizer

/-- Always fails in the same way. -/
def failing (f : Failure) : Synthesizer := .custom fun _ _ _ ↦ .error f

/-- The model that is given the prompts; a synthesizer without one sends none. -/
def model : Synthesizer → Model
  | chain c => c.model
  | custom _ => .echo "" 0

/-- Makes an answer from numbered sources. -/
def synthesize (s : Synthesizer) (q : Query) (nodes : List ScoredNode)
    (additional : Option (List ScoredNode)) : Work (Except Failure Response) :=
  match s with
  | chain c => c.synthesize q nodes additional
  | custom f => .done (f q nodes additional)

end Synthesizer

end CitedAnswers.Synthesis

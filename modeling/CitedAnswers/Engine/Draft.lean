import CitedAnswers.Engine.Basic
import CitedAnswers.Settings.Basic

/-!
# Drafts of an engine

A `Draft` collects the choices for an engine, in any order; `Draft.build` makes the engine or says
what is wrong with the choices. Of most choices the last one counts. Postprocessors are collected,
and observers too, but a choice of all observers at once takes the place of those before it.

The vocabulary that tokens are counted with is no choice. It is given when the engine is made, and
both splitters that are made of sizes count with it.
-/

namespace CitedAnswers

open Chunking (Splitter)
open Synthesis (Synthesizer Chain Options Postprocessor)

/-- A choice for an engine. -/
inductive Choice where
  /-- Makes the answers; no language model is needed then. -/
  | synthesizer (s : Synthesizer)
  /-- Makes the answers by a chain of prompts. -/
  | model (m : Model)
  /-- The options of the chain of prompts. -/
  | options (o : Options)
  /-- The sizes of passages. -/
  | sourceSizing (s : Sizing)
  /-- The sizes of numbered sources. -/
  | citationSizing (s : Sizing)
  /-- Cuts documents into passages; no sizes are needed then. -/
  | sourceSplitter (s : Splitter)
  /-- Cuts passages into numbered sources; no sizes are needed then. -/
  | citationSplitter (s : Splitter)
  /-- A further postprocessor for the chain of prompts. -/
  | postprocessor (p : Postprocessor)
  /-- All observers so far. -/
  | observers (os : List Observer)
  /-- A further observer. -/
  | observer (o : Observer)

/-- The choices made so far. -/
structure Draft where
  retriever : Retriever
  synthesizer : Option Synthesizer := none
  model : Option Model := none
  options : Option Options := none
  sourceSizing : Sizing := .source
  citationSizing : Sizing := .citation
  sourceSplitter : Option Splitter := none
  citationSplitter : Option Splitter := none
  postprocessors : List Postprocessor := []
  observers : List Observer := []

namespace Draft

/-- Makes a choice. -/
def choose (d : Draft) : Choice → Draft
  | .synthesizer s => { d with synthesizer := some s }
  | .model m => { d with model := some m }
  | .options o => { d with options := some o }
  | .sourceSizing s => { d with sourceSizing := s }
  | .citationSizing s => { d with citationSizing := s }
  | .sourceSplitter s => { d with sourceSplitter := some s }
  | .citationSplitter s => { d with citationSplitter := some s }
  | .postprocessor p => { d with postprocessors := d.postprocessors ++ [p] }
  | .observers os => { d with observers := os }
  | .observer o => { d with observers := d.observers ++ [o] }

/-- The draft after some choices. -/
def ofChoices (r : Retriever) (cs : List Choice) : Draft := cs.foldl choose { retriever := r }

/-- The synthesizer of the engine. -/
def buildSynthesizer (d : Draft) : Except Failure Synthesizer :=
  match d.synthesizer, d.model with
  | some s, _ =>
    if d.postprocessors.isEmpty then .ok s
    else
      .error (.configuration
        "node postprocessors need a language model, not a custom synthesizer")
  | none, some m =>
    let chain := (d.options.map (Chain.ofModel m).withOptions).getD (.ofModel m)
    .ok (.chain (chain.withPostprocessors d.postprocessors))
  | none, none => .error (.configuration "a synthesizer or language model is required")

/-- The splitter chosen, or else the one of the sizes chosen. -/
def buildSplitter (v : Token.Vocabulary) (chosen : Option Splitter) (s : Sizing) :
    Except Failure Splitter :=
  match chosen with
  | some splitter => .ok splitter
  | none => Splitter.ofSizing v s

/-- Makes the engine. -/
def build (v : Token.Vocabulary) (d : Draft) : Except Failure Engine := do
  let synthesizer ← d.buildSynthesizer
  let sourceSplitter ← buildSplitter v d.sourceSplitter d.sourceSizing
  let citationSplitter ← buildSplitter v d.citationSplitter d.citationSizing
  pure
    { retriever := d.retriever
      synthesizer := synthesizer
      citationSplitter := citationSplitter
      sourceSplitter := sourceSplitter
      observers := d.observers }

/-- The choices that settings stand for, with the log as the only observer. -/
def choicesOf (s : Settings) (m : Model) : List Choice :=
  [.model m, .options s.synthesis, .sourceSizing s.source, .citationSizing s.citation,
    .observer .log]

end Draft

/-- The engine of some settings. -/
def Engine.ofSettings (v : Token.Vocabulary) (s : Settings) (r : Retriever) (m : Model) :
    Except Failure Engine := do
  s.check
  (Draft.ofChoices r (Draft.choicesOf s m)).build v

end CitedAnswers

import CitedAnswers.Engine.Draft
import Mathlib.Data.List.DropRight

/-!
# Sequences of choices

Choices for an engine may be made in any order and any number. What becomes of them is read off the
sequence itself, kind by kind (`Draft.ofChoices_eq`): of most kinds the last choice counts, all
postprocessors do, and of the observers those chosen after the last choice of all observers, behind
the ones of that choice. One more choice changes these views in the way it changes a draft, so the
induction is on the sequence, from its end.

From there on no draft is needed. Which failure building an engine comes to, if any, is
`Choice.refusal?`, a chain of conditions on the choices in the order in which they are looked at.
What an engine is built of is said by `Draft.Assembled`. Both treat the cutting of documents and the
cutting of passages as two instances of one `Side`, which share no choice: what the engine does on
one side is the same whatever was chosen for the other (`Draft.build_of_choices`).
-/

namespace CitedAnswers

open Chunking (Splitter)
open Synthesis (Synthesizer Chain Options Postprocessor)

/-! ### The choices of a kind -/

namespace Choice

/-- The synthesizer chosen. -/
def synthesizer? : Choice → Option Synthesizer
  | .synthesizer s => some s
  | _ => none

/-- The model chosen. -/
def model? : Choice → Option Model
  | .model m => some m
  | _ => none

/-- The options chosen. -/
def options? : Choice → Option Options
  | .options o => some o
  | _ => none

/-- The sizes chosen for passages. -/
def sourceSizing? : Choice → Option Sizing
  | .sourceSizing s => some s
  | _ => none

/-- The sizes chosen for numbered sources. -/
def citationSizing? : Choice → Option Sizing
  | .citationSizing s => some s
  | _ => none

/-- The splitter chosen for documents. -/
def sourceSplitter? : Choice → Option Splitter
  | .sourceSplitter s => some s
  | _ => none

/-- The splitter chosen for passages. -/
def citationSplitter? : Choice → Option Splitter
  | .citationSplitter s => some s
  | _ => none

/-- The further postprocessor chosen. -/
def postprocessor? : Choice → Option Postprocessor
  | .postprocessor p => some p
  | _ => none

/-- The observers chosen in place of all others. -/
def observers? : Choice → Option (List Observer)
  | .observers os => some os
  | _ => none

/-- The further observer chosen. -/
def observer? : Choice → Option Observer
  | .observer o => some o
  | _ => none

/-- **The last choice of a kind.** -/
def last {α : Type} (kind : Choice → Option α) (cs : List Choice) : Option α :=
  (cs.filterMap kind).getLast?

/-- The postprocessors chosen, in their order. -/
def postprocessors (cs : List Choice) : List Postprocessor := cs.filterMap postprocessor?

/-- **The observers that come of choices**: those of the last choice of all observers, and then
those added after it. -/
def observing (cs : List Choice) : List Observer :=
  (last observers? cs).getD [] ++
    (cs.rtakeWhile fun x ↦ x.observers?.isNone).filterMap observer?

variable {α : Type} (kind : Choice → Option α) (cs : List Choice) (x : Choice)

@[simp]
theorem last_concat : last kind (cs ++ [x]) = (kind x).or (last kind cs) := by
  rw [last, List.filterMap_append]
  cases hx : kind x with
  | none => simp [hx, last]
  | some a => simp [hx]

@[simp]
theorem postprocessors_concat :
    postprocessors (cs ++ [x]) = postprocessors cs ++ x.postprocessor?.toList := by
  rw [postprocessors, List.filterMap_append]
  cases hx : x.postprocessor? <;> simp [hx, postprocessors]

/-- A choice of all observers takes the place of those before it; a further observer is added. -/
@[simp]
theorem observing_concat :
    observing (cs ++ [x]) = x.observers?.getD (observing cs) ++ x.observer?.toList := by
  cases hall : x.observers? with
  | some os =>
    cases x <;> simp [observers?] at hall
    simp [observing, hall, observers?, observer?]
  | none =>
    rw [observing, last_concat, hall, Option.none_or, List.rtakeWhile_concat, hall,
      Option.isNone_none, if_pos rfl, List.filterMap_append, ← List.append_assoc]
    cases hone : x.observer? <;> simp [hone, observing]

end Choice

open Choice (last observing)

namespace Draft

/-- **A draft shows the choices** that were made, kind by kind. -/
theorem ofChoices_eq (r : Retriever) (cs : List Choice) : ofChoices r cs =
    { retriever := r
      synthesizer := last Choice.synthesizer? cs
      model := last Choice.model? cs
      options := last Choice.options? cs
      sourceSizing := (last Choice.sourceSizing? cs).getD .source
      citationSizing := (last Choice.citationSizing? cs).getD .citation
      sourceSplitter := last Choice.sourceSplitter? cs
      citationSplitter := last Choice.citationSplitter? cs
      postprocessors := Choice.postprocessors cs
      observers := observing cs } := by
  induction cs using List.reverseRecOn with
  | nil => rfl
  | append_singleton cs x ih =>
    have hchoose : ofChoices r (cs ++ [x]) = (ofChoices r cs).choose x := List.foldl_concat ..
    rw [hchoose, ih]
    -- A choice is of one kind, and no other view of the sequence changes with it.
    cases x <;>
      simp [choose, Choice.synthesizer?, Choice.model?, Choice.options?, Choice.sourceSizing?,
        Choice.citationSizing?, Choice.sourceSplitter?, Choice.citationSplitter?,
        Choice.postprocessor?, Choice.observers?, Choice.observer?]

end Draft

/-! ### The two sides on which texts are cut -/

/-- The choices that one of the two splitters of an engine comes from. -/
structure Side where
  splitter? : Choice → Option Splitter
  sizing? : Choice → Option Sizing
  /-- The sizes when none are chosen. -/
  usual : Sizing

namespace Side

/-- The choices for cutting documents into passages. -/
def source : Side := ⟨Choice.sourceSplitter?, Choice.sourceSizing?, .source⟩

/-- The choices for cutting passages into numbered sources. -/
def citation : Side := ⟨Choice.citationSplitter?, Choice.citationSizing?, .citation⟩

variable (side : Side) (v : Token.Vocabulary) {cs cs' : List Choice}

/-- The last splitter chosen on a side. -/
def splitter (cs : List Choice) : Option Splitter := last side.splitter? cs

/-- The last sizes chosen on a side. -/
def sizing (cs : List Choice) : Sizing := (last side.sizing? cs).getD side.usual

/-- Why a side is without a splitter: none was chosen, and something is wrong with the sizes. -/
def refusal? (cs : List Choice) : Option Failure :=
  if (side.splitter cs).isSome then none else (side.sizing cs).fault?

/-- A splitter comes from the choices on a side: it was chosen, or else it is the one of the sizes.
-/
def Yields (cs : List Choice) (s : Splitter) : Prop :=
  side.splitter cs = some s ∨
    side.splitter cs = none ∧
      ∃ valid : (side.sizing cs).Valid, s = .sliding ⟨side.sizing cs, valid, v⟩

/-- Two sequences of choices agree on a side. The sizes count only if no splitter was chosen. -/
structure Same (cs cs' : List Choice) : Prop where
  splitter : side.splitter cs' = side.splitter cs
  sizing : side.splitter cs = none → side.sizing cs' = side.sizing cs

/-- Making the splitter of a side. -/
def build (cs : List Choice) : Except Failure Splitter :=
  Draft.buildSplitter v (side.splitter cs) (side.sizing cs)

/-- What comes of sizes: what is wrong with them, or the splitter of them. -/
theorem ofSizing_cases (s : Sizing) :
    (∃ f, Splitter.ofSizing v s = .error f ∧ s.fault? = some f) ∨
      ∃ valid : s.Valid, Splitter.ofSizing v s = .ok (.sliding ⟨s, valid, v⟩) := by
  rw [Splitter.ofSizing, Chunking.Sliding.ofSizing]
  split
  · rename_i hnone
    exact .inr ⟨Sizing.fault?_eq_none_iff.1 hnone, rfl⟩
  · rename_i f hf
    exact .inl ⟨f, rfl, hf⟩

/-- **What comes of a side**: its failure, or a splitter that its choices yield. -/
theorem build_cases (cs : List Choice) :
    (∃ f, side.build v cs = .error f ∧ side.refusal? cs = some f) ∨
      ∃ s, side.build v cs = .ok s ∧ side.refusal? cs = none ∧ side.Yields v cs s := by
  cases hsplitter : side.splitter cs with
  | some s =>
    exact .inr ⟨s, by rw [build, hsplitter]; rfl, by simp [refusal?, hsplitter], .inl hsplitter⟩
  | none =>
    have hbuild : side.build v cs = Splitter.ofSizing v (side.sizing cs) := by
      rw [build, hsplitter]; rfl
    have hrefusal : side.refusal? cs = (side.sizing cs).fault? := by simp [refusal?, hsplitter]
    rw [hbuild, hrefusal]
    rcases ofSizing_cases v (side.sizing cs) with hfault | ⟨valid, hok⟩
    · exact .inl hfault
    · exact .inr ⟨_, hok, Sizing.fault?_eq_none_iff.2 valid, .inr ⟨hsplitter, valid, rfl⟩⟩

variable {side v}

/-- Choices that agree on a side yield one splitter. -/
theorem Same.splitter_eq {s s' : Splitter} (h : side.Same cs cs') (hs : side.Yields v cs s)
    (hs' : side.Yields v cs' s') : s' = s := by
  rcases hs with hs | ⟨hnone, hvalid, rfl⟩
  · rcases hs' with hs' | ⟨hnone', -⟩
    · rw [h.splitter, hs] at hs'
      exact (Option.some.inj hs').symm
    · rw [h.splitter, hs] at hnone'
      cases hnone'
  · rcases hs' with hs' | ⟨-, hvalid', rfl⟩
    · rw [h.splitter, hnone] at hs'
      cases hs'
    · simp only [h.sizing hnone]

theorem Same.build_eq (h : side.Same cs cs') : side.build v cs' = side.build v cs := by
  rw [build, build, h.splitter]
  cases hsplitter : side.splitter cs with
  | some s => rfl
  | none => rw [h.sizing hsplitter]

end Side

/-! ### What is built -/

namespace Choice

/-- Why nothing can make the answers. -/
def silence? (cs : List Choice) : Option Failure :=
  if (last synthesizer? cs).isSome ∧ postprocessors cs ≠ [] then
    some (.configuration "node postprocessors need a language model, not a custom synthesizer")
  else if last synthesizer? cs = none ∧ last model? cs = none then
    some (.configuration "a synthesizer or language model is required")
  else none

/-- **Why no engine can be built** from choices, in the order in which the causes are looked at. -/
def refusal? (cs : List Choice) : Option Failure :=
  (silence? cs).or ((Side.source.refusal? cs).or (Side.citation.refusal? cs))

/-- A synthesizer comes from choices: it was chosen, and then no postprocessor was, or else it is
the chain of the model, with the options and the postprocessors. -/
def Answers (cs : List Choice) (s : Synthesizer) : Prop :=
  last synthesizer? cs = some s ∧ postprocessors cs = [] ∨
    last synthesizer? cs = none ∧ ∃ m, last model? cs = some m ∧
      s = .chain
        ((((last options? cs).map (Chain.ofModel m).withOptions).getD (.ofModel m)
          ).withPostprocessors (postprocessors cs))

/-- Two sequences of choices agree on what makes the answers. The model and the options count only
if no synthesizer was chosen. -/
structure SameAnswering (cs cs' : List Choice) : Prop where
  synthesizer : last synthesizer? cs' = last synthesizer? cs
  postprocessors : postprocessors cs' = postprocessors cs
  model : last synthesizer? cs = none → last model? cs' = last model? cs
  options : last synthesizer? cs = none → last options? cs' = last options? cs

variable {cs cs' : List Choice}

/-- Choices that agree on what makes the answers come to one synthesizer. -/
theorem SameAnswering.synthesizer_eq {s s' : Synthesizer} (h : SameAnswering cs cs')
    (hs : Answers cs s) (hs' : Answers cs' s') : s' = s := by
  rcases hs with ⟨hs, -⟩ | ⟨hnone, m, hm, rfl⟩
  · rcases hs' with ⟨hs', -⟩ | ⟨hnone', -⟩
    · rw [h.synthesizer, hs] at hs'
      exact (Option.some.inj hs').symm
    · rw [h.synthesizer, hs] at hnone'
      cases hnone'
  · rcases hs' with ⟨hs', -⟩ | ⟨-, m', hm', rfl⟩
    · rw [h.synthesizer, hnone] at hs'
      cases hs'
    · rw [h.model hnone, hm] at hm'
      rw [h.options hnone, h.postprocessors, Option.some.inj hm']

end Choice

namespace Draft

open Choice (SameAnswering)

/-- What an engine that was built from choices consists of, and whom its events reach. -/
structure Assembled (v : Token.Vocabulary) (r : Retriever) (cs : List Choice) (e : Engine) :
    Prop where
  retriever : e.retriever = r
  synthesizer : Choice.Answers cs e.synthesizer
  source : Side.source.Yields v cs e.sourceSplitter
  citation : Side.citation.Yields v cs e.citationSplitter
  observers : e.observers = observing cs
  records : ∀ t, Trace.records e.observers t =
    (Trace.events t).flatMap fun v ↦ (observing cs).filterMap (Observer.record? v)

variable (v : Token.Vocabulary) (r : Retriever) (cs : List Choice)

/-- **What becomes of the making of answers**: a failure, or a synthesizer that comes from the
choices. -/
theorem buildSynthesizer_cases :
    (∃ f, (ofChoices r cs).buildSynthesizer = .error f ∧ Choice.silence? cs = some f) ∨
      ∃ s, (ofChoices r cs).buildSynthesizer = .ok s ∧ Choice.silence? cs = none ∧
        Choice.Answers cs s := by
  rw [ofChoices_eq]
  cases hsynthesizer : last Choice.synthesizer? cs with
  | some s =>
    by_cases hps : Choice.postprocessors cs = []
    · exact .inr ⟨s, by simp [buildSynthesizer, hps], by simp [Choice.silence?, hsynthesizer, hps],
        .inl ⟨hsynthesizer, hps⟩⟩
    · refine .inl ⟨.configuration
        "node postprocessors need a language model, not a custom synthesizer", ?_, ?_⟩
      · simp [buildSynthesizer, hps]
      · simp [Choice.silence?, hsynthesizer, hps]
  | none =>
    cases hmodel : last Choice.model? cs with
    | some m =>
      exact .inr ⟨_, rfl,
        by simp [Choice.silence?, hsynthesizer, hmodel], .inr ⟨hsynthesizer, m, hmodel, rfl⟩⟩
    | none =>
      exact .inl ⟨_, rfl, by simp [Choice.silence?, hsynthesizer, hmodel]⟩

variable {r cs} {cs' : List Choice}

theorem buildSynthesizer_congr (h : SameAnswering cs cs') :
    (ofChoices r cs').buildSynthesizer = (ofChoices r cs).buildSynthesizer := by
  simp only [ofChoices_eq, buildSynthesizer, h.synthesizer, h.postprocessors]
  cases hsynthesizer : last Choice.synthesizer? cs with
  | some s => rfl
  | none => rw [h.model hsynthesizer, h.options hsynthesizer]

variable (r cs)

/-- Building goes through the synthesizer, the side of documents and the side of passages. -/
theorem build_eq : (ofChoices r cs).build v = (do
    let s ← (ofChoices r cs).buildSynthesizer
    let source ← Side.source.build v cs
    let citation ← Side.citation.build v cs
    pure ⟨r, s, citation, source, observing cs⟩) := by
  rw [ofChoices_eq]
  rfl

/-- **Whether an engine can be built**: with a refusal it is the failure, and without one there is
an engine that is made of the choices. -/
theorem build_cases :
    (∃ f, (ofChoices r cs).build v = .error f ∧ Choice.refusal? cs = some f) ∨
      ∃ e, (ofChoices r cs).build v = .ok e ∧ Choice.refusal? cs = none ∧ Assembled v r cs e := by
  rcases buildSynthesizer_cases r cs with ⟨f, hbuild, hf⟩ | ⟨s, hbuild, hs, hanswers⟩
  · exact .inl ⟨f, by rw [build_eq, hbuild]; rfl, by rw [Choice.refusal?, hf]; rfl⟩
  rcases Side.source.build_cases v cs with ⟨f, hsource, hf⟩ | ⟨source, hsource, hnone, hyields⟩
  · exact .inl ⟨f, by rw [build_eq, hbuild, hsource]; rfl, by rw [Choice.refusal?, hs, hf]; rfl⟩
  rcases Side.citation.build_cases v cs with
    ⟨f, hcitation, hf⟩ | ⟨citation, hcitation, hc, hyields'⟩
  · exact .inl ⟨f, by rw [build_eq, hbuild, hsource, hcitation]; rfl,
      by rw [Choice.refusal?, hs, hnone, hf]; rfl⟩
  · exact .inr ⟨⟨r, s, citation, source, observing cs⟩,
      by rw [build_eq, hbuild, hsource, hcitation]; rfl,
      by rw [Choice.refusal?, hs, hnone, hc]; rfl,
      rfl, hanswers, hyields, hyields', rfl, fun _ ↦ rfl⟩

variable {v r cs} {r' : Retriever} {e e' : Engine}

theorem assembled (h : (ofChoices r cs).build v = .ok e) : Assembled v r cs e := by
  rcases build_cases v r cs with ⟨f, hbuild, -⟩ | ⟨e', hbuild, -, hassembled⟩
  · rw [hbuild] at h
    cases h
  · rw [hbuild] at h
    rwa [← Except.ok.inj h]

/-- Answering a query uses the synthesizer and the splitter for passages, and of the rest of an
engine only the retriever. -/
theorem query_congr (hsynthesizer : e'.synthesizer = e.synthesizer)
    (hcitation : e'.citationSplitter = e.citationSplitter) (path : Path) (q : Query) (run : Run) :
    e'.query path q run = e.query path q run := by
  unfold Engine.query Engine.pursue Engine.finishRetrieval
  simp only [Engine.number_congr hcitation, hsynthesizer]

/-- **Building an engine from choices.** Building fails exactly with the refusal, which is the first
of its causes. It comes to the same for all choices that agree on both sides, on what makes the
answers and on the observers. What is built is made of the choices that count. What it does with
documents depends on no choices but those for cutting documents, what it does with passages on none
but those for cutting passages, and what it does with queries on these and on what makes the
answers. All this holds with any vocabulary. -/
theorem build_of_choices (v : Token.Vocabulary) (r : Retriever) (cs : List Choice) :
    (∀ f, (ofChoices r cs).build v = .error f ↔ Choice.refusal? cs = some f) ∧
    (∀ cs', Side.source.Same cs cs' → Side.citation.Same cs cs' → SameAnswering cs cs' →
      observing cs' = observing cs → (ofChoices r cs').build v = (ofChoices r cs).build v) ∧
    ∀ e, (ofChoices r cs).build v = .ok e →
      Assembled v r cs e ∧
      ∀ r' cs' e', (ofChoices r' cs').build v = .ok e' →
        (Side.source.Same cs cs' → e'.sourceSplitter = e.sourceSplitter ∧
          (∀ d, e'.splitDocument d = e.splitDocument d) ∧ ∀ t, e'.split t = e.split t) ∧
        (Side.citation.Same cs cs' → ∀ ps, e'.number ps = e.number ps) ∧
        (Side.citation.Same cs cs' → SameAnswering cs cs' → ∀ path q run,
          e'.query path q run = e.query path q run ∧
          (r' = r → ∀ w,
            e'.perform path (e'.query path q run) w = e.perform path (e.query path q run) w)) := by
  refine ⟨fun f ↦ ?_, fun cs' hsource hcitation hanswering hobserving ↦ ?_,
    fun e he ↦ ⟨assembled he, fun r' cs' e' he' ↦ ⟨fun hsource ↦ ?_, fun hcitation ↦ ?_,
      fun hcitation hanswering path q run ↦ ?_⟩⟩⟩
  · rcases build_cases v r cs with ⟨f', hbuild, hf⟩ | ⟨e, hbuild, hnone, -⟩
    · rw [hbuild, hf, Except.error.injEq, Option.some.injEq]
    · simp [hbuild, hnone]
  · rw [build_eq, build_eq, buildSynthesizer_congr hanswering, hsource.build_eq,
      hcitation.build_eq, hobserving]
  · have hsplitter := hsource.splitter_eq (assembled he).source (assembled he').source
    exact ⟨hsplitter, fun d ↦ by rw [Engine.splitDocument, Engine.splitDocument, hsplitter],
      fun t ↦ by rw [Engine.split, Engine.split, hsplitter]⟩
  · have hsplitter := hcitation.splitter_eq (assembled he).citation (assembled he').citation
    exact Engine.number_congr hsplitter
  · have hsynthesizer :=
      hanswering.synthesizer_eq (assembled he).synthesizer (assembled he').synthesizer
    have hsplitter := hcitation.splitter_eq (assembled he).citation (assembled he').citation
    have hquery := query_congr hsynthesizer hsplitter path q run
    refine ⟨hquery, fun hr w ↦ ?_⟩
    rw [hquery, Engine.perform, Engine.perform, Engine.collaborators, Engine.collaborators,
      hsynthesizer, (assembled he).retriever, (assembled he').retriever, hr]

end Draft

end CitedAnswers

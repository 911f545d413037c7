import CitedAnswers.Json.Record

/-!
# Queries

A `Query` is a question with what a retriever may use to look for passages: other texts to embed in
its place, and an embedding computed beforehand.
-/

namespace CitedAnswers

/-- A question and what may be used to retrieve passages for it. -/
structure Query where
  text : String
  /-- Texts to embed in place of the question. -/
  embeddingTexts : Option (List String) := none
  embedding : Option (List Binary) := none
deriving Repr

namespace Query

/-- The texts to embed: those given, or else the question itself. -/
def textsToEmbed (q : Query) : List String := q.embeddingTexts.getD [q.text]

/-- The fields of a query in JSON. -/
def record : Json.Record Query where
  blank := ⟨"", none, none⟩
  slots :=
    [.of "query_str" .required .string fun s q ↦ { q with text := s },
      .of "custom_embedding_strs" .defaulted (.option (.list .string))
        fun l q ↦ { q with embeddingTexts := l },
      .of "embedding" .defaulted (.option (.list .single)) fun l q ↦ { q with embedding := l }]

/-- A query as JSON. What is missing is left out. -/
def toTree (q : Query) : Json.Tree :=
  .ofFields
    [("query_str", some (.ofString q.text)),
      ("custom_embedding_strs", q.embeddingTexts.map fun l ↦ .ofList (l.map .ofString)),
      ("embedding", q.embedding.map fun l ↦ .ofList (l.map (.ofBinary .single)))]

end Query

end CitedAnswers

import CitedAnswers.Template

/-!
# The built-in prompts

Two templates ask a language model for an answer with citations: the first for an answer from
sources, the second for a better answer from an existing one and further sources. An example in both
shows what a citation looks like.
-/

namespace CitedAnswers.Template

/-- The worked example in both templates. -/
def worked : String :=
  "For example:\n" ++
  "Source 1:\n" ++
  "The sky is red in the evening and blue in the morning.\n" ++
  "Source 2:\n" ++
  "Water is wet when the sky is red.\n" ++
  "Query: When is water wet?\n" ++
  "Answer: Water will be wet when the sky is red [2], " ++
  "which happens in the evening [1].\n"

/-- Asks for an answer from sources. -/
def answering : Template where
  text :=
    "Please provide an answer based only on the given sources. " ++
    "When referencing information from a source, " ++
    "cite the appropriate source(s) by their numbers. " ++
    "All answers should provide at least one source. " ++
    "Do not use a source if it does not help answer a question. " ++
    "If no sources are helpful, you should say that. " ++
    worked ++
    "Now it's your turn. Below are several numbered sources of information:" ++
    "\n------\n" ++
    "\x7bcontext_str\x7d" ++
    "\n------\n" ++
    "Query: \x7bquery_str\x7d\n" ++
    "Answer: "

/-- Asks for a better answer from an existing one and further sources. -/
def refining : Template where
  text :=
    "Please provide an answer based only on the given sources. " ++
    "When referencing information from a source, cite the appropriate source(s). " ++
    "All answers should provide at least one source. " ++
    "Do not use a source if it does not help answer a question. " ++
    worked ++
    "Now it's your turn. " ++
    "We have provided an existing answer: \x7bexisting_answer\x7d" ++
    "Below are several numbered sources of information. " ++
    "Use them to refine the existing answer. " ++
    "If the provided sources are not helpful, you will repeat the existing answer." ++
    "\nBegin refining!" ++
    "\n------\n" ++
    "\x7bcontext_msg\x7d" ++
    "\n------\n" ++
    "Query: \x7bquery_str\x7d\n" ++
    "Answer: "

end CitedAnswers.Template

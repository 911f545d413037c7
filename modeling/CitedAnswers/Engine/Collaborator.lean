import CitedAnswers.Failure
import CitedAnswers.Node
import CitedAnswers.Query

/-!
# Collaborators

An engine leaves two tasks to others: a `Retriever` finds passages for a query, and a `Model`
completes prompts. What they do may depend on how many calls came before. Called without blocking,
they may be polled in vain some number of times before they do what the blocking call does.
-/

namespace CitedAnswers

/-- Finds passages for queries. -/
structure Retriever where
  /-- The passages for a query, given the number of calls before. -/
  answer : Nat → Query → Except Failure (List ScoredNode)
  /-- How often a call that does not block is polled in vain, given the number of calls before. -/
  delay : Nat → Query → Nat

/-- Completes prompts. -/
structure Model where
  name : String
  /-- The completion of a prompt, given the number of calls before. -/
  answer : Nat → String → Except Failure String
  /-- How often a call that does not block is polled in vain, given the number of calls before. -/
  delay : Nat → String → Nat

/-- Those an engine works with. -/
structure Collaborators where
  retriever : Retriever
  model : Model

/-- What is due at a call of a script that repeats its last entry for ever. -/
def entryOfScript {α : Type} (script : List (Except Failure α)) (calls : Nat) : Except Failure α :=
  ((script[calls]?).orElse fun _ ↦ script.getLast?).getD (.error (.internal "empty script"))

/-- Passages that are the same for every query, and how many of them are given. -/
structure FixedPassages where
  passages : List ScoredNode
  limit : Option Nat := none

namespace FixedPassages

/-- Gives at most the first `n` passages. -/
def withLimit (p : FixedPassages) (n : Nat) : FixedPassages := { p with limit := some n }

/-- The passages given. -/
def given (p : FixedPassages) : List ScoredNode := p.passages.take (p.limit.getD p.passages.length)

end FixedPassages

namespace Retriever

/-- Gives the same passages for every query. -/
def fixed (p : FixedPassages) : Retriever := ⟨fun _ _ ↦ .ok p.given, fun _ _ ↦ 0⟩

/-- Gives the question as the only passage, with the score one. -/
def echo (delay : Nat) : Retriever where
  answer _ q := .ok [⟨{ text := q.text }, some (Binary.Format.single.ofNat 1)⟩]
  delay _ _ := delay

end Retriever

namespace Model

/-- Completes a prompt with the prompt itself. -/
def echo (name : String) (delay : Nat) : Model := ⟨name, fun _ p ↦ .ok p, fun _ _ ↦ delay⟩

/-- Follows a script. -/
def scripted (name : String) (script : List (Except Failure String)) (delay : Nat) : Model :=
  ⟨name, fun calls _ ↦ entryOfScript script calls, fun _ _ ↦ delay⟩

end Model

end CitedAnswers

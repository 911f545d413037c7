/-!
# Scanners

A `Scanner` reads something from the start of a text and leaves the rest, or it fails. Alternatives
are tried in order (`<|>`). Repetition ends where the scanner fails or does not get on, so every
scanner built from these ends.
-/

namespace CitedAnswers

/-- Reads something from the start of a text, or fails. -/
abbrev Scanner (α : Type) := StateT (List Char) Option α

namespace Scanner

variable {α : Type}

/-- Reads a text to its end. -/
def readAll? (s : Scanner α) (cs : List Char) : Option α :=
  match s cs with
  | some (a, []) => some a
  | _ => none

/-- Reads a character of a kind. -/
def charOf (p : Char → Bool) : Scanner Char := fun cs ↦
  match cs with
  | c :: cs => if p c then some (c, cs) else none
  | [] => none

/-- Reads the given character. -/
def char (c : Char) : Scanner Unit := do
  let _ ← charOf (· == c)

/-- Reads the given characters. -/
def word : List Char → Scanner Unit
  | [] => pure ()
  | c :: cs => do
    char c
    word cs

/-- Reads as many characters of a kind as there are. -/
def span (p : Char → Bool) : Scanner (List Char) := fun cs ↦
  some (cs.takeWhile p, cs.dropWhile p)

/-- Passes over characters of a kind. -/
def skip (p : Char → Bool) : Scanner Unit := do
  let _ ← span p

/-- Reads as many characters of a kind as there are, and at least one. -/
def spanSome (p : Char → Bool) : Scanner (List Char) := do
  let c ← charOf p
  let cs ← span p
  pure (c :: cs)

/-- Reads the given number of characters of a kind. -/
def times (p : Char → Bool) : Nat → Scanner (List Char)
  | 0 => pure []
  | n + 1 => do
    let c ← charOf p
    let cs ← times p n
    pure (c :: cs)

/-- Reads something if it is there. -/
def option (s : Scanner α) : Scanner (Option α) := fun cs ↦
  match s cs with
  | some (a, rest) => some (some a, rest)
  | none => some (none, cs)

/-- Goes on only if a condition holds. -/
def require (p : Bool) : Scanner Unit := if p then pure () else fun _ ↦ none

/-- Repeats a scanner on a text. -/
def repeated (s : Scanner α) (cs : List Char) : List α × List Char :=
  match s cs with
  | some (a, rest) =>
    if rest.length < cs.length then
      let (as, rest) := repeated s rest
      (a :: as, rest)
    else ([], cs)
  | none => ([], cs)
termination_by cs.length

/-- Repeats a scanner until it fails or does not get on. -/
def many (s : Scanner α) : Scanner (List α) := fun cs ↦ some (repeated s cs)

/-- Repeats a scanner at least once, with a separator between. -/
def separated (s : Scanner α) (separator : Scanner Unit) : Scanner (List α) := do
  let a ← s
  let as ← many do
    separator
    s
  pure (a :: as)

end Scanner

end CitedAnswers

import CitedAnswers.Ascending

/-!
# Line runs

A line run is a maximal stretch of line ends of one kind: `\r\n` pairs, `\r` or `\n`. Its rank is
the number of lines it ends, so that a run of higher rank separates larger parts of a text.

`Line.marks` puts the run, if one begins there, beside each character of a text. A cursor within a
run sees no mark for it, and so takes the rest of the run for ordinary text.
-/

namespace CitedAnswers.Chunking

/-- A stretch of line ends of one kind. -/
structure LineRun where
  /-- The number of characters. -/
  length : Nat
  /-- The number of lines ended. -/
  rank : Nat
deriving DecidableEq, Repr

/-- A mark beside a character: the line run that begins there. -/
abbrev LineMark := Option LineRun

namespace LineRun

/-- The number of `\r\n` pairs a text starts with. -/
def pairs : List Char → Nat
  | '\r' :: '\n' :: cs => pairs cs + 1
  | _ => 0

/-- How often a text repeats a character at its start. -/
def repeats (c : Char) (cs : List Char) : Nat := (cs.takeWhile (· == c)).length

/-- The line run a text starts with. -/
def first? : List Char → LineMark
  | '\r' :: '\n' :: cs => let n := pairs cs + 1; some ⟨2 * n, n⟩
  | '\r' :: cs => let n := repeats '\r' cs + 1; some ⟨n, n⟩
  | '\n' :: cs => let n := repeats '\n' cs + 1; some ⟨n, n⟩
  | _ => none

/-- The marks of a text, of which the first `inside` characters belong to a run already marked. -/
def marksFrom (inside : Nat) : List Char → List LineMark
  | [] => []
  | c :: cs =>
    match inside with
    | inside + 1 => none :: marksFrom inside cs
    | 0 =>
      match first? (c :: cs) with
      | some r => some r :: marksFrom (r.length - 1) cs
      | none => none :: marksFrom 0 cs

/-- The marks of a text. -/
def marks (cs : List Char) : List LineMark := marksFrom 0 cs

@[simp]
theorem length_marksFrom (n : Nat) (cs : List Char) : (marksFrom n cs).length = cs.length := by
  fun_induction marksFrom n cs <;> simp_all

@[simp]
theorem length_marks (cs : List Char) : (marks cs).length = cs.length := length_marksFrom 0 cs

/-- Whether a run of at least the given rank begins at a mark. -/
def opens (rank : Nat) (m : LineMark) : Bool := m.any fun r ↦ decide (rank ≤ r.rank)

/-- The lengths of the sections of a text that runs of at least the given rank separate: each such
run, and the text before, between and after them. -/
def sections (rank : Nat) : List LineMark → List Nat
  | [] => []
  | m :: ms =>
    let more :=
      if opens rank m then (m.map LineRun.length).getD 1 - 1
      else (ms.takeWhile fun m ↦ !opens rank m).length
    (min more ms.length + 1) :: sections rank (ms.drop more)
termination_by ms => ms.length
decreasing_by simp only [List.length_drop, List.length_cons]; omega

/-- The ranks of the runs of a text, ascending and without repeats. -/
def ranks (ms : List LineMark) : List Nat :=
  Ascending.ofList ((ms.filterMap id).map LineRun.rank)

end LineRun

end CitedAnswers.Chunking

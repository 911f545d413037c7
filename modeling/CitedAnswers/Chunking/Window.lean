import CitedAnswers.Chunking.Level

/-!
# The sliding window

`Window.spans` cuts a text into chunks of a bounded size. From a cursor it gathers sections of one
level until a chunk of the capacity must be among them, searches for the furthest section whose end
still fits, and then moves the cursor to that end, or back from it to the start of a section so that
the next chunk repeats at most the overlap. A chunk that reaches no further than an earlier one is
left out.

The size of a stretch of text is any function of its characters. It need not grow with the stretch,
so the search only relies on sizes it has measured. All positions are counted from the cursor; the
number of sections to gather is estimated in bytes, which is why a `Mark` has both counts.
-/

namespace CitedAnswers.Chunking

/-- A position after the cursor: the characters and the bytes before it. -/
structure Mark where
  chars : Nat
  bytes : Nat
deriving DecidableEq, Repr

/-- A stretch of a text, as positions of characters. -/
structure Span where
  start : Nat
  stop : Nat
deriving DecidableEq, Repr

/-- The sizing of a window: how a stretch of text is measured, the largest size of a chunk, and the
largest size of what a chunk repeats. -/
structure Window where
  size : List Char → Nat
  capacity : Nat
  overlap : Nat

namespace Window

variable (w : Window)

/-! ### Gathering sections -/

/-- The ends of sections of the given lengths, from a position on. -/
def ends (from_ : Mark) (cs : List Char) : List Nat → List Mark
  | [] => []
  | n :: ns =>
    let q : Mark := ⟨from_.chars + n, from_.bytes + Unicode.byteCount (cs.take n)⟩
    q :: ends q (cs.drop n) ns

/-- The sections that begin no later than the limit; `start` is where the first begins. -/
def within (limit : Option Nat) (start : Nat) : List Mark → List Mark
  | [] => []
  | q :: qs =>
    if limit.all fun l ↦ decide (start ≤ l) then q :: within limit q.bytes qs else []

/-- Splits off the sections up to and with the first that ends beyond the target. -/
def through (target : Nat) : List Mark → List Mark × List Mark
  | [] => ([], [])
  | q :: qs =>
    if target < q.bytes then ([q], qs)
    else let (as, bs) := through target qs; (q :: as, bs)

theorem length_through (target : Nat) (qs : List Mark) :
    (through target qs).1.length + (through target qs).2.length = qs.length := by
  induction qs with
  | nil => rfl
  | cons q qs ih =>
    simp only [through]
    split <;> simp_all <;> omega

theorem through_cons_ne_nil (target : Nat) (q : Mark) (qs : List Mark) :
    (through target (q :: qs)).1 ≠ [] := by
  simp only [through]
  split <;> simp

theorem length_through_cons_lt (target : Nat) (q : Mark) (qs : List Mark) :
    (through target (q :: qs)).2.length < (q :: qs).length := by
  have h := length_through target (q :: qs)
  have h' := List.length_pos_iff.2 (through_cons_ne_nil target q qs)
  omega

/-- How far to gather next, after `bytes` bytes were found to have the size `measured`: so far that
the capacity left over would be used up at the same rate, and a tenth more. -/
def nextTarget (bytes measured : Nat) : Nat :=
  let z := max measured 1
  bytes + max (w.capacity - z) 1 * ((bytes + z - 1) / z) + (bytes + 9) / 10

/-- The sections gathered for a chunk, and the index of one that is known to fit, or zero. -/
structure Gathered where
  sections : List Mark
  low : Nat

/-- Gathers sections up to the target, then measures: while what was gathered fits, the target is
raised and gathering goes on. -/
def gather (cs : List Char) (low target : Nat) (taken : List Mark) : List Mark → Gathered
  | [] => ⟨taken, low⟩
  | q :: qs =>
    let more := (through target (q :: qs)).1
    let rest := (through target (q :: qs)).2
    let taken := taken ++ more
    let last := more.getLastD q
    if last.bytes < target then ⟨taken, low⟩
    else
      let c := w.size (cs.take last.chars)
      if w.capacity < c then ⟨taken, low⟩
      else
        gather cs (if c < w.capacity then taken.length - 1 else low) (w.nextTarget last.bytes c)
          taken rest
termination_by qs => qs.length
decreasing_by exact length_through_cons_lt target q qs

/-! ### Finding the end of the chunk -/

/-- A section found by the search: its index, its end, and the size of the text up to there. -/
structure Found where
  index : Nat
  stop : Nat
  size : Nat

/-- Searches the sections from `low` up to, but not including, `high` by halving. It takes the
furthest end it has seen below the capacity, or the nearest one at the capacity, or, if nothing
fits, the first section. -/
def search (cs : List Char) (sections : List Mark) (low high : Nat) (found : Option Found)
    (exact : Bool) : Option Found :=
  if low < high then
    let mid := low + (high - 1 - low) / 2
    match sections[mid]? with
    | none => found
    | some q =>
      let c := w.size (cs.take q.chars)
      let here : Found := ⟨mid, q.chars, c⟩
      if c < w.capacity then
        let further := found.all fun f ↦ decide (f.stop < q.chars)
        search cs sections (mid + 1) high (if further then some here else found) exact
      else if c = w.capacity then
        let nearer := !exact || found.any fun f ↦ decide (q.chars < f.stop)
        search cs sections low mid (if nearer then some here else found) true
      else
        search cs sections low mid (if mid = 0 ∧ found.isNone then some here else found) exact
  else found
termination_by high - low

/-- Extends the chunk over further sections that do not make it larger than it is. -/
def extend (cs : List Char) (best stop : Nat) : List Mark → Nat
  | [] => stop
  | q :: qs =>
    if w.size (cs.take q.chars) ≤ best then extend cs best (max stop q.chars) qs else stop

/-- The length of the chunk made of the gathered sections. -/
def stopOf (cs : List Char) (g : Gathered) : Nat :=
  match w.search cs g.sections g.low g.sections.length none false with
  | some f => w.extend cs f.size f.stop (g.sections.drop (f.index + 1))
  | none => 1

/-! ### Moving the cursor -/

/-- Where a section begins. -/
def startOf (sections : List Mark) (i : Nat) : Nat :=
  match i with
  | 0 => 0
  | i + 1 => (sections[i]?.map Mark.chars).getD 0

/-- Searches the sections from `low` up to, but not including, `high` by halving for the furthest
start back from the end of the chunk such that the text between is no larger than the overlap. -/
def retreat (cs : List Char) (sections : List Mark) (stop low high start : Nat) : Nat :=
  if low < high then
    let mid := low + (high - 1 - low) / 2
    let o := startOf sections mid
    let k := w.size ((cs.take stop).drop o)
    let start := if k ≤ w.overlap ∧ o < start ∧ 0 < o then o else start
    if k < w.overlap ∧ 0 < mid then retreat cs sections stop low mid start
    else retreat cs sections stop (mid + 1) high start
  else start
termination_by high - low

/-- How far the cursor moves after a chunk of the given length. -/
def advance (cs : List Char) (sections : List Mark) (stop : Nat) : Nat :=
  if w.overlap = 0 then stop
  else
    let last := sections.findIdx fun q ↦ q.chars == stop
    w.retreat cs sections stop 0 (min (last + 1) sections.length) stop

/-! ### Chunks of a text -/

/-- The sections for the next chunk. `longest` is the length in bytes of the longest chunk so
far. -/
def gathered (r : Rest) (longest : Option Nat) : Gathered :=
  let plan := Plan.of w.size w.capacity r
  let sections := within plan.limit 0 (ends ⟨0, 0⟩ r.chars (plan.level.sections r))
  w.gather r.chars 0 (longest.getD w.capacity) [] sections

/-- The chunks of the rest of a text. The cursor is at `cursor`, and earlier chunks reach up to
`reached`. -/
def spansFrom (cursor reached : Nat) (longest : Option Nat) (r : Rest) : List Span :=
  match r with
  | ⟨[], _⟩ => []
  | ⟨c :: cs, ms⟩ =>
    let r : Rest := ⟨c :: cs, ms⟩
    let g := w.gathered r longest
    let stop := w.stopOf r.chars g
    let bytes := Unicode.byteCount (r.chars.take stop)
    -- The cursor moves by at least one character.
    let more := w.advance r.chars g.sections stop - 1
    let further := spansFrom (cursor + more + 1) (max reached (cursor + stop))
      (some (max (longest.getD 0) bytes)) ⟨cs.drop more, (ms.drop 1).drop more⟩
    if reached < cursor + stop then ⟨cursor, cursor + stop⟩ :: further else further
termination_by r.chars.length
decreasing_by simp only [List.length_drop, List.length_cons]; omega

/-- The chunks of a text, in order. -/
def spans (cs : List Char) : List Span := w.spansFrom 0 0 none (Rest.ofText cs)

end Window

end CitedAnswers.Chunking

import CitedAnswers.Unicode.Class

/-!
# Pieces of text for a tokenizer

Before a tokenizer looks up its vocabulary it cuts the text into pieces, each of which is encoded by
itself. The pieces are, the first kind that fits being taken:

* a contraction such as `'s` or `'ll`;
* letters, with at most one character in front that is no letter, digit or line end;
* up to three digits;
* other characters that are not blank, with at most one space in front and line ends behind;
* blanks up to the last line end among them;
* blanks, the last one left to what follows them, or a single blank.

`Piece.length` gives the length of the piece a text starts with, and `Piece.split` all pieces.
-/

namespace CitedAnswers.Token.Piece

/-- Line ends. -/
def isLineEnd (c : Char) : Bool := c == '\r' || c == '\n'

/-- Characters that are neither letter, digit nor blank. -/
def isMark (c : Char) : Bool :=
  !(Unicode.isBlank c || Unicode.isLetter c || Unicode.isDigit c)

/-- The letter in lower case; the long s is an s. -/
def fold (c : Char) : Char := if c = 'ſ' then 's' else c.toLower

/-- The length of a contraction at the start of a text. -/
def contraction? (cs : List Char) : Option Nat :=
  match cs with
  | '\'' :: c :: d :: _ =>
    if fold c ∈ ['s', 't', 'm', 'd'] then some 2
    else if (fold c, fold d) ∈ [('r', 'e'), ('v', 'e'), ('l', 'l')] then some 3
    else none
  | ['\'', c] => if fold c ∈ ['s', 't', 'm', 'd'] then some 2 else none
  | _ => none

/-- How many characters at the start of a text are of a kind. -/
def run (p : Char → Bool) (cs : List Char) : Nat := (cs.takeWhile p).length

/-- The length of a piece of letters at the start of a text. -/
def letters? (cs : List Char) : Option Nat :=
  match cs with
  | c :: d :: cs =>
    if Unicode.isLetter c then some (run Unicode.isLetter (c :: d :: cs))
    else if !isLineEnd c && !Unicode.isDigit c && Unicode.isLetter d then
      some (1 + run Unicode.isLetter (d :: cs))
    else none
  | [c] => if Unicode.isLetter c then some 1 else none
  | [] => none

/-- The length of a piece of digits at the start of a text. -/
def digits? (cs : List Char) : Option Nat :=
  let n := min 3 (run Unicode.isDigit cs)
  if n = 0 then none else some n

/-- The length of a piece of other marks at the start of a text. -/
def marks? (cs : List Char) : Option Nat :=
  let space := match cs with
    | ' ' :: _ => 1
    | _ => 0
  let cs := cs.drop space
  let n := run isMark cs
  if n = 0 then none else some (space + n + run isLineEnd (cs.drop n))

/-- The length of a piece of blanks at the start of a text. -/
def blanks (cs : List Char) : Nat :=
  let blank := cs.takeWhile Unicode.isBlank
  let lines := (blank.reverse.dropWhile fun c ↦ !isLineEnd c).length
  if 0 < lines then lines
  else if blank.length = cs.length then blank.length
  else max 1 (blank.length - 1)

/-- The length of the piece a text starts with. -/
def length (cs : List Char) : Nat :=
  ((((contraction? cs).orElse fun _ ↦ letters? cs).orElse fun _ ↦ digits? cs).orElse fun _ ↦
    marks? cs).getD (blanks cs)

/-- The pieces of a text. -/
def split : List Char → List (List Char)
  | [] => []
  | c :: cs =>
    let n := length (c :: cs) - 1
    (c :: cs.take n) :: split (cs.drop n)
termination_by cs => cs.length
decreasing_by simp only [List.length_drop, List.length_cons]; omega

/-- The pieces of a text make it up. -/
theorem flatten_split (cs : List Char) : (split cs).flatten = cs := by
  fun_induction split cs with
  | case1 => rfl
  | case2 c cs n ih => rw [List.flatten_cons, ih, List.cons_append, List.take_append_drop]

end CitedAnswers.Token.Piece

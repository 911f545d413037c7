import CitedAnswers.Unicode.Class

/-!
# Segments of text

A `Segmenter` reads a segment from its first character on and says of each further character whether
it still belongs to the segment. It may look at the text that follows, and carries a state for what
it has to remember of the text before. The segmenters for grapheme clusters, words and sentences
follow the standard rules of text segmentation; a text is cut by taking its first segment off again
and again.
-/

namespace CitedAnswers.Unicode

/-- A rule that finds the end of the segment a text starts with. -/
structure Segmenter where
  State : Type
  /-- The state after the first character. -/
  start : Char → State
  /-- The state after one more character, or `none` if a boundary stands before it. The last
  argument is the text after the character. -/
  next : State → Char → List Char → Option State

/-- How many characters of the text still belong to a segment. -/
def Segmenter.reach (σ : Segmenter) (s : σ.State) : List Char → Nat
  | [] => 0
  | c :: cs =>
    match σ.next s c cs with
    | none => 0
    | some s => σ.reach s cs + 1

theorem Segmenter.reach_le (σ : Segmenter) (s : σ.State) (cs : List Char) :
    σ.reach s cs ≤ cs.length := by
  induction cs generalizing s with
  | nil => simp [reach]
  | cons c cs ih =>
    simp only [reach, List.length_cons]
    split
    · omega
    · exact Nat.succ_le_succ (ih _)

/-! ### Grapheme clusters -/

/-- What the grapheme cluster rules remember. -/
structure GraphemeState where
  /-- The class of the last character. -/
  last : GraphemeClass
  /-- The cluster ends in a consonant and marks that extend it. -/
  consonant : Bool
  /-- A virama stands among those marks. -/
  virama : Bool
  /-- The cluster ends in a pictograph and marks that extend it. -/
  pictograph : Bool
  /-- A joiner stands directly after those marks. -/
  joiner : Bool
  /-- The cluster ends in an odd number of regional indicators. -/
  oddIndicators : Bool

/-- The state after a first character. -/
def GraphemeState.start (c : Char) : GraphemeState :=
  let k := graphemeClass c
  ⟨k, k == .consonant, false, k == .pictographic, false, k == .regionalIndicator⟩

/-- The state after a further character. -/
def GraphemeState.push (s : GraphemeState) (c : Char) : GraphemeState :=
  let k := graphemeClass c
  let mark := k == .extend || k == .zwj
  { last := k
    consonant := k == .consonant || (s.consonant && mark)
    virama := k != .consonant && s.consonant && mark && (s.virama || isVirama c)
    pictograph := k == .pictographic || (s.pictograph && (k == .extend || k == .zwj) && !s.joiner)
    joiner := s.pictograph && k == .zwj && !s.joiner
    oddIndicators := k == .regionalIndicator && !s.oddIndicators }

/-- Whether a character continues the cluster. -/
def GraphemeState.joins (s : GraphemeState) (c : Char) : Bool :=
  match s.last, graphemeClass c with
  | .cr, .lf => true
  | .cr, _ | .lf, _ | .control, _ => false
  | _, .cr | _, .lf | _, .control => false
  | .hangulL, .hangulL | .hangulL, .hangulV | .hangulL, .hangulLV | .hangulL, .hangulLVT => true
  | .hangulLV, .hangulV | .hangulLV, .hangulT | .hangulV, .hangulV | .hangulV, .hangulT => true
  | .hangulLVT, .hangulT | .hangulT, .hangulT => true
  | _, .extend | _, .zwj | _, .spacingMark => true
  | .prepend, _ => true
  | _, .consonant => s.consonant && s.virama
  | _, .pictographic => s.pictograph && s.joiner
  | _, .regionalIndicator => s.oddIndicators
  | _, _ => false

/-- Extended grapheme clusters. -/
def grapheme : Segmenter where
  State := GraphemeState
  start := GraphemeState.start
  next s c _ := if s.joins c then some (s.push c) else none

/-! ### Words -/

/-- What the word rules remember. Marks and format characters are passed over in `before` and
`earlier`. -/
structure WordState where
  last : WordClass
  before : WordClass
  earlier : WordClass
  oddIndicators : Bool

/-- Marks and format characters, which belong to the character before them. -/
def WordClass.isMark : WordClass → Bool
  | .extend | .format | .zwj => true
  | _ => false

/-- Letters of both kinds. -/
def WordClass.isLetter : WordClass → Bool
  | .letter | .hebrewLetter => true
  | _ => false

/-- What may stand between two letters. -/
def WordClass.bindsLetters : WordClass → Bool
  | .midLetter | .midNumLet | .singleQuote => true
  | _ => false

/-- What may stand between two digits. -/
def WordClass.bindsDigits : WordClass → Bool
  | .midNum | .midNumLet | .singleQuote => true
  | _ => false

/-- Line ends. -/
def WordClass.isLineEnd : WordClass → Bool
  | .cr | .lf | .newline => true
  | _ => false

/-- The class of the next character that is no mark. -/
def nextWordClass (cs : List Char) : WordClass :=
  match cs.find? fun c ↦ !(wordClass c).isMark with
  | some c => wordClass c
  | none => .other

/-- The state after a first character. -/
def WordState.start (c : Char) : WordState :=
  ⟨wordClass c, wordClass c, .other, wordClass c == .regionalIndicator⟩

/-- The state after a further character. -/
def WordState.push (s : WordState) (c : Char) : WordState :=
  let k := wordClass c
  if k.isMark then { s with last := k }
  else ⟨k, k, s.before, k == .regionalIndicator && !s.oddIndicators⟩

/-- Whether a character continues the word by the classes of what surrounds it. -/
def WordState.binds (s : WordState) (k : WordClass) (cs : List Char) : Bool :=
  let a := s.earlier
  let b := s.before
  (b.isLetter && k.isLetter) ||
  (b.isLetter && k.bindsLetters && (nextWordClass cs).isLetter) ||
  (a.isLetter && b.bindsLetters && k.isLetter) ||
  (b == .hebrewLetter && k == .singleQuote) ||
  (b == .hebrewLetter && k == .doubleQuote && nextWordClass cs == .hebrewLetter) ||
  (a == .hebrewLetter && b == .doubleQuote && k == .hebrewLetter) ||
  (b == .numeric && (k == .numeric || k.isLetter)) ||
  (b.isLetter && k == .numeric) ||
  (a == .numeric && b.bindsDigits && k == .numeric) ||
  (b == .numeric && k.bindsDigits && nextWordClass cs == .numeric) ||
  (b == .katakana && k == .katakana) ||
  ((b.isLetter || b == .numeric || b == .katakana || b == .extendNumLet) && k == .extendNumLet) ||
  (b == .extendNumLet && (k.isLetter || k == .numeric || k == .katakana)) ||
  (b == .regionalIndicator && k == .regionalIndicator && s.oddIndicators)

/-- Whether a character continues the word. -/
def WordState.joins (s : WordState) (c : Char) (cs : List Char) : Bool :=
  let k := wordClass c
  if s.last = .cr ∧ k = .lf then true
  else if s.last.isLineEnd || k.isLineEnd then false
  else if s.last = .zwj ∧ isPictographic c then true
  else if s.last = .segmentSpace ∧ k = .segmentSpace then true
  else k.isMark || s.binds k cs

/-- Words, and whatever stands between them. -/
def word : Segmenter where
  State := WordState
  start := WordState.start
  next s c cs := if s.joins c cs then some (s.push c) else none

/-! ### Sentences -/

/-- How far the end of a sentence has come: a stop, then closing marks, then spaces. An ambiguous
stop may also stand within a sentence. -/
inductive Closure where
  | none
  | stop (ambiguous : Bool)
  | closing (ambiguous : Bool)
  | space (ambiguous : Bool)
deriving DecidableEq, Repr

/-- The closure after a further character. -/
def Closure.push (e : Closure) : SentenceClass → Closure
  | .ambiguousStop => .stop true
  | .fullStop => .stop false
  | .closing =>
    match e with
    | .stop a | .closing a => .closing a
    | _ => .none
  | .space =>
    match e with
    | .stop a | .closing a | .space a => .space a
    | .none => .none
  | _ => .none

/-- What the sentence rules remember. Marks and format characters are passed over in all but
`last`. -/
structure SentenceState where
  last : SentenceClass
  before : SentenceClass
  earlier : SentenceClass
  closure : Closure

/-- Paragraph separators and line ends. -/
def SentenceClass.isSeparator : SentenceClass → Bool
  | .cr | .lf | .separator => true
  | _ => false

/-- Marks and format characters. -/
def SentenceClass.isMark : SentenceClass → Bool
  | .extend | .format => true
  | _ => false

/-- Stops of both kinds. -/
def SentenceClass.isStop : SentenceClass → Bool
  | .ambiguousStop | .fullStop => true
  | _ => false

/-- Letters with a case. -/
def SentenceClass.isCased : SentenceClass → Bool
  | .upper | .lower => true
  | _ => false

/-- Whether a small letter follows before any other letter, stop or separator. -/
def continuesInLower : List Char → Bool
  | [] => false
  | c :: cs =>
    let k := sentenceClass c
    if k = .lower then true
    else if k = .caseless ∨ k = .upper ∨ k.isSeparator ∨ k.isStop then false
    else continuesInLower cs

/-- The state after a first character. -/
def SentenceState.start (c : Char) : SentenceState :=
  let k := sentenceClass c
  ⟨k, k, .other, Closure.none.push k⟩

/-- The state after a further character. -/
def SentenceState.push (s : SentenceState) (c : Char) : SentenceState :=
  let k := sentenceClass c
  if k.isMark then { s with last := k } else ⟨k, k, s.before, s.closure.push k⟩

/-- Whether a character that is no mark continues the sentence after its closure. -/
def SentenceState.continues (s : SentenceState) (c : Char) (cs : List Char) : Bool :=
  let k := sentenceClass c
  match s.closure with
  | .none => true
  | .stop a =>
    (a && (k == .numeric || (s.earlier.isCased && k == .upper) || continuesInLower (c :: cs))) ||
      k == .continuing || k.isStop || k == .closing || k == .space || k.isSeparator
  | .closing a =>
    (a && continuesInLower (c :: cs)) ||
      k == .continuing || k.isStop || k == .closing || k == .space || k.isSeparator
  | .space a =>
    (a && continuesInLower (c :: cs)) ||
      k == .continuing || k.isStop || k == .space || k.isSeparator

/-- Whether a character continues the sentence. -/
def SentenceState.joins (s : SentenceState) (c : Char) (cs : List Char) : Bool :=
  let k := sentenceClass c
  if s.last = .cr ∧ k = .lf then true
  else if s.before.isSeparator then false
  else k.isMark || s.continues c cs

/-- Sentences. -/
def sentence : Segmenter where
  State := SentenceState
  start := SentenceState.start
  next s c cs := if s.joins c cs then some (s.push c) else none

end CitedAnswers.Unicode

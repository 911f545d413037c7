import CitedAnswers.Settings.Environment
import CitedAnswers.Unicode.Class

/-!
# Files of environment variables

Such a file has an assignment `NAME=value` a line. Quotes may run over several lines, `$NAME` and
`${NAME}` stand for the value of another variable, and `#` begins a comment. The variables give
defaults: one that is set already keeps its value. Reading stops at the first line that is not
understood, and the lines before it count.
-/

namespace CitedAnswers.Environment

/-! ### Lines -/

/-- What is open at a place in a line. -/
inductive Quoting where
  | nothing
  /-- A backslash outside of quotes. -/
  | escape
  | single
  | singleEscape
  | double
  | doubleEscape
  /-- A blank, after which a comment may begin. -/
  | blank
  | comment
deriving DecidableEq, Repr

/-- What is open after a character. -/
def Quoting.next : Quoting → Char → Quoting
  | nothing, c =>
    if c = '\\' then escape
    else if c = '"' then double
    else if c = '\'' then single
    else if Unicode.isBlank c && c != '\n' && c != '\r' then blank
    else nothing
  | blank, c =>
    if c = '#' then comment
    else if c = '\\' then escape
    else if c = '"' then double
    else if c = '\'' then single
    else nothing
  | escape, _ => nothing
  | single, c => if c = '\\' then singleEscape else if c = '\'' then nothing else single
  | singleEscape, _ => single
  | double, c => if c = '\\' then doubleEscape else if c = '"' then nothing else double
  | doubleEscape, _ => double
  | comment, _ => comment

/-- What is open at the end of a line, and the part of the line before a comment. -/
def Quoting.along (q : Quoting) : List Char → Quoting × List Char
  | [] => (q, [])
  | c :: cs =>
    match q.next c with
    | comment => (comment, [])
    | q =>
      let (q, kept) := along q cs
      (q, c :: kept)

/-- The lines of a text with their ends. -/
def linesWithEnds : List Char → List (List Char)
  | [] => []
  | c :: cs =>
    if c = '\n' then [c] :: linesWithEnds cs
    else
      match linesWithEnds cs with
      | [] => [[c]]
      | l :: ls => (c :: l) :: ls

/-- A line without its end. -/
def withoutEnd (cs : List Char) : List Char :=
  match cs.reverse with
  | '\n' :: '\r' :: ds | '\n' :: ds => ds.reverse
  | _ => cs

/-- Lines joined as long as something is open; `none` stands for one that the text does not bring to
its end. A line that is a comment as a whole is empty. -/
def joinLines (before : List Char) (q : Quoting) : List (List Char) → List (Option (List Char))
  | [] => if q = .nothing then [] else [none]
  | l :: ls =>
    let all := before ++ l
    if (all.dropWhile Unicode.isBlank).head? == some '#' then some [] :: joinLines [] .nothing ls
    else
      match q.along l with
      | (.nothing, _) => some (withoutEnd all) :: joinLines [] .nothing ls
      | (.comment, kept) => some (before ++ kept) :: joinLines [] .nothing ls
      | (q, _) => joinLines all q ls

/-! ### Values -/

/-- What stands around a place in a value. -/
inductive Quote where
  | none
  | single
  | double
deriving DecidableEq, Repr

/-- How a value is being read. -/
inductive Phase where
  | plain
  /-- After a backslash. -/
  | escaped
  /-- In the name of a variable, between braces or not. -/
  | name (braced : Bool) (cs : List Char)
  /-- After the value, where only blanks and a comment may stand. -/
  | ended

/-- A value as far as it is read, its characters last first. -/
structure Reading where
  output : List Char := []
  quote : Quote := .none
  phase : Phase := .plain

namespace Reading

/-- Adds a character. -/
def push (r : Reading) (c : Char) : Reading := { r with output := c :: r.output, phase := .plain }

/-- Adds the value of a variable; one that is not set has none. -/
def expand (env : Environment) (r : Reading) (name : List Char) : Reading :=
  let text := (env.lookup (String.ofList name)).getD ""
  { r with output := text.toList.reverse ++ r.output, phase := .plain }

/-- Whether a character may stand in the name of a variable. -/
def isNameChar (c : Char) : Bool := Unicode.isLetter c || Unicode.isDigit c

/-- Reads a character. A name without braces takes the character that ends it for part of the value,
even a quote. -/
def step (env : Environment) (r : Reading) (c : Char) : Option Reading :=
  match r.phase with
  | .ended => if c = ' ' ∨ c = '\t' then some r else none
  | .escaped =>
    if c = 'n' then some (r.push '\n')
    else if c = '\\' ∨ c = '\'' ∨ c = '"' ∨ c = '$' ∨ c = ' ' then some (r.push c)
    else none
  | .name false cs =>
    if isNameChar c then some { r with phase := .name false (cs ++ [c]) }
    else if c = '{' ∧ cs = [] then some { r with phase := .name true [] }
    else if c = '$' then some { r.expand env cs with phase := .name false [] }
    else some ((r.expand env cs).push c)
  | .name true cs =>
    if c = '}' then some (r.expand env cs)
    else some { r with phase := .name true (cs ++ [c]) }
  | .plain =>
    match r.quote with
    | .single => if c = '\'' then some { r with quote := .none } else some (r.push c)
    | .double =>
      if c = '$' then some { r with phase := .name false [] }
      else if c = '"' then some { r with quote := .none }
      else if c = '\\' then some { r with phase := .escaped }
      else some (r.push c)
    | .none =>
      if c = '$' then some { r with phase := .name false [] }
      else if c = '\'' then some { r with quote := .single }
      else if c = '"' then some { r with quote := .double }
      else if c = '\\' then some { r with phase := .escaped }
      else if c = ' ' ∨ c = '\t' then some { r with phase := .ended }
      else some (r.push c)

/-- The value that is read, unless a quote or a brace is open. -/
def result? (env : Environment) (r : Reading) : Option String :=
  match r.quote, r.phase with
  | .none, .name true _ => none
  | .none, .name false cs => some (String.ofList (r.expand env cs).output.reverse)
  | .none, _ => some (String.ofList r.output.reverse)
  | _, _ => none

/-- Reads a value to its end or to a comment. -/
def read (env : Environment) (r : Reading) : List Char → Option String
  | [] => r.result? env
  | c :: cs =>
    match r.phase with
    | .ended => if c = '#' then r.result? env else (r.step env c).bind fun r ↦ read env r cs
    | _ => (r.step env c).bind fun r ↦ read env r cs

end Reading

/-! ### Assignments -/

/-- A name, and what follows it after blanks. -/
def takeName (cs : List Char) : Option (List Char × List Char) :=
  match cs with
  | [] => none
  | c :: _ =>
    if c.isAlpha || c == '_' then
      let p (c : Char) : Bool := c.isAlphanum || c == '_' || c == '.'
      some (cs.takeWhile p, (cs.dropWhile p).dropWhile Unicode.isBlank)
    else none

/-- What follows an equals sign after blanks. -/
def takeEquals : List Char → Option (List Char)
  | '=' :: cs => some (cs.dropWhile Unicode.isBlank)
  | _ => none

/-- The name in a line and what follows its equals sign. The word `export` may stand in front. -/
def takeTarget (cs : List Char) : Option (List Char × List Char) := do
  let (name, rest) ← takeName cs
  match takeEquals rest with
  | some value => pure (name, value)
  | none =>
    if String.ofList name == "export" then
      let (name, rest) ← takeName rest
      pure (name, ← takeEquals rest)
    else none

/-- The assignment of a line, if there is one; `none` if the line is not understood. -/
def assignment? (env : Environment) (line : List Char) : Option (Option (String × String)) :=
  let line := (line.reverse.dropWhile Unicode.isBlank).reverse.dropWhile Unicode.isBlank
  if line.isEmpty || line.head? == some '#' then some none
  else do
    let (name, value) ← takeTarget line
    let text ←
      if value.isEmpty || value.head? == some '#' then some "" else Reading.read env {} value
    pure (some (String.ofList name, text))

/-- Adds the variables of some lines, up to the first that is not understood. -/
def addLines (env : Environment) : List (Option (List Char)) → Environment
  | [] => env
  | none :: _ => env
  | some line :: ls =>
    match assignment? env line with
    | none => env
    | some none => addLines env ls
    | some (some (name, text)) =>
      addLines (if (env.lookup name).isSome then env else env ++ [(name, text)]) ls

/-- Adds the variables of a file that are not set already. -/
def addFile (env : Environment) (text : String) : Environment :=
  let cs := match text.toList with
    | '\ufeff' :: cs => cs
    | cs => cs
  addLines env (joinLines [] .nothing (linesWithEnds cs))

end CitedAnswers.Environment

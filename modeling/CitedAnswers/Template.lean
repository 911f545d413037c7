import CitedAnswers.Failure

/-!
# Prompt templates

A template is a text with placeholders, names in braces. A name is a letter or underscore followed
by letters, digits and underscores, all of them ASCII. `Template.render` puts values in place of all
placeholders at once, so that a brace within a value means nothing.
-/

namespace CitedAnswers

/-- A part of a template. -/
inductive Template.Part where
  | char (c : Char)
  | placeholder (name : List Char)
deriving DecidableEq, Repr

/-- A text with placeholders. -/
structure Template where
  text : String
deriving DecidableEq, Repr

namespace Template

/-- A letter of the alphabet or an underscore. -/
def startsName (c : Char) : Bool := c.isAlpha || c == '_'

/-- A letter of the alphabet, a digit or an underscore. -/
def continuesName (c : Char) : Bool := c.isAlphanum || c == '_'

/-- The name of the placeholder that continues a text after an opening brace. -/
def name? (cs : List Char) : Option (List Char) :=
  let name := cs.takeWhile continuesName
  match name, cs.dropWhile continuesName with
  | c :: _, '\x7d' :: _ => if startsName c then some name else none
  | _, _ => none

/-- The parts of a template. -/
def partsOf : List Char → List Part
  | [] => []
  | c :: cs =>
    match if c = '\x7b' then name? cs else none with
    | some name => .placeholder name :: partsOf (cs.drop (name.length + 1))
    | none => .char c :: partsOf cs
termination_by cs => cs.length
decreasing_by
  all_goals
    simp only [List.length_drop, List.length_cons]
    omega

/-- The parts of a template. -/
def parts (t : Template) : List Part := partsOf t.text.toList

/-- Adds a name to a list unless it is there. -/
def addName (names : List (List Char)) : Part → List (List Char)
  | .char _ => names
  | .placeholder n => if n ∈ names then names else names ++ [n]

/-- The names of the placeholders, in the order of their first appearance. -/
def names (t : Template) : List (List Char) := t.parts.foldl addName []

/-- The names of the placeholders, in the order of their first appearance. -/
def placeholders (t : Template) : List String := t.names.map String.ofList

/-- The value of a name: the first that is given. -/
def value? (values : List (String × String)) (name : List Char) : Option String :=
  values.lookup (String.ofList name)

/-- A part with its value. -/
def Part.render (values : List (String × String)) : Part → List Char
  | .char c => [c]
  | .placeholder n => ((value? values n).map String.toList).getD ('\x7b' :: n ++ ['\x7d'])

/-- The failure of a placeholder without a value. -/
def missing (name : List Char) : Failure :=
  .template ("missing value for placeholder \x7b" ++ String.ofList name ++ "\x7d")

/-- Puts values in place of the placeholders; fails for the first that has none. -/
def render (t : Template) (values : List (String × String)) : Except Failure String :=
  match t.names.find? fun n ↦ (value? values n).isNone with
  | some n => .error (missing n)
  | none => .ok (String.ofList (t.parts.flatMap (Part.render values)))

end Template

end CitedAnswers
